/-
  File:      Flour/Engine/Generate.lean
  Subject:   `Engine::generate` of `src/engine.rs`: a chat is rendered, encoded, prefilled and
             decoded, token by token, on the cache that the engine owns.

  * The tokenizer, the numerics of `candle` and the sampler are parameters, and so is the forward
    pass that a prefill and the decode loop call; `generate` takes that of the model.
  * `wlp_decodeLoop`, **`wlp_generate`** -- a generation that returns has left live the prompt and
    one token for each piece that it passed to `on_token`; it is a run of cache operations.
-/
import Flour.Kv.Export
import Flour.Kv.Requests

namespace Flour

open Kv Flour.Lib Flour.Lib.Prog

/-! ## 1. Requests -/

inductive FinishReason where
  | stop
  | length
deriving DecidableEq

inductive EosTokenId where
  | single (id : UInt32)
  | multiple (ids : List UInt32)

def EosTokenId.isEos : EosTokenId → UInt32 → Bool
  | single id, tokenId => id == tokenId
  | multiple ids, tokenId => ids.contains tokenId

structure ChatMessage where
  role : String
  content : String

inductive ChatTemplate where
  | llama3
  | chatMl

def ChatTemplate.render : ChatTemplate → List ChatMessage → String
  | llama3, messages =>
    "<|begin_of_text|>" ++ String.join (messages.map fun m =>
      "<|start_header_id|>" ++ m.role ++ "<|end_header_id|>\n\n" ++ m.content ++ "<|eot_id|>") ++
      "<|start_header_id|>assistant<|end_header_id|>\n\n"
  | chatMl, messages =>
    String.join (messages.map fun m =>
      "<|im_start|>" ++ m.role ++ "\n" ++ m.content ++ "<|im_end|>\n") ++ "<|im_start|>assistant\n"

/-- A tokenizer, around that of the library. -/
structure Tokenizer where
  inner :
    (String → Except String (List UInt32)) × (List UInt32 → Except String String)

def Tokenizer.encode (t : Tokenizer) (text : String) : Except String (List UInt32) :=
  (t.inner.1 text).mapError ("tokenizer encode failed: " ++ ·)

def Tokenizer.decode (t : Tokenizer) (ids : List UInt32) : Except String String :=
  (t.inner.2 ids).mapError ("tokenizer decode failed: " ++ ·)

/-- `F` are the single and `D` the double precision floats. -/
structure SamplingParams (F D : Type) where
  temperature : D
  topP : Option D
  topK : Option ℕ
  maxTokens : ℕ
  repeatPenalty : F
  repeatLastN : ℕ
  seed : UInt64
  stop : List String

/-- Whether the text ends with one of the stop sequences. -/
def SamplingParams.stopsAt {F D : Type} (params : SamplingParams F D) (candidate : String) : Bool :=
  !params.stop.isEmpty &&
    params.stop.any fun s => !s.isEmpty && s.toList.isSuffixOf candidate.toList

/-- What is computed on logits `O`, and a sampler with states `R`. -/
structure Sampling (O F D R : Type) where
  /-- `dim(1)`: the number of positions. -/
  dim1 : O → Except String ℕ
  /-- The logits of one position, as single precision floats. -/
  row : O → ℕ → Except String (List F)
  applyRepeatPenalty : List F → F → List UInt32 → List F
  new : UInt64 → R
  sample : R → List F → SamplingParams F D → Option (UInt32 × R)

/-- From a row with an entry for each of `vocab` tokens, the sampler draws a token that is known. -/
structure Sampling.Stays {O F D R : Type} (s : Sampling O F D R) (params : SamplingParams F D)
    (vocab : ℕ) (known : UInt32 → Prop) : Prop where
  penalty (logits : List F) (penalty : F) (context : List UInt32) :
    (s.applyRepeatPenalty logits penalty context).length = logits.length
  sample (r : R) {logits : List F} (h : logits.length = vocab) :
    ∃ id r', s.sample r logits params = some (id, r') ∧ known id

structure Engine (T H O F D R : Type) where
  model : CausalLM T H O
  tokenizer : Tokenizer
  chatTemplate : ChatTemplate
  eosTokenId : EosTokenId
  sampling : Sampling O F D R
  kvCache : KvCacheManager

structure GenerationStats where
  promptTokens : ℕ
  completionTokens : ℕ
  reusedPrefixTokens : ℕ
  finishReason : FinishReason
  remoteCacheHit : Option Bool
  remoteKey : Option String
  remoteCacheImportedTokens : Option ℕ
  remoteCacheError : Option String

/-- The cache behind its mutex, what `on_token` was called with, and what was put into the store. -/
structure EngineState (T : Type) where
  poisoned : Bool
  traced : Traced T
  delivered : List String
  puts : List (String × List UInt8)

/-- The live tokens. -/
def EngineState.live {T : Type} (s : EngineState T) : ℕ := s.traced.cache.kvs.table.len

/-! ## 2. Prefill and decode, over a forward pass -/

/-- The variables of the decode loop. -/
structure Decoding (O R : Type) where
  logits : O
  allTokens : List UInt32
  generated : String
  completionTokens : ℕ
  sampler : R

section Generate

variable {T H O F D R : Type} [Candle T] [HostCandle T] [BEq F] [OfNat F 1]

def onTraced {α : Type} (x : Prog (Traced T) α) : Prog (EngineState T) α :=
  Prog.zoom EngineState.traced (fun s traced => { s with traced }) x

/-- A program of the session. -/
def onSession {α : Type} (x : Prog (KvSession.State T) α) : Prog (KvSession × EngineState T) α :=
  Prog.zoom (fun s => (s.1, s.2.traced)) (fun s r => (r.1, { s.2 with traced := r.2 })) x

def onEngine {α : Type} (x : Prog (EngineState T) α) : Prog (KvSession × EngineState T) α :=
  Prog.zoom Prod.snd (fun s e => (s.1, e)) x

/-- The token after the last position of the logits. -/
def Engine.nextToken (e : Engine T H O F D R) (params : SamplingParams F D) (v : Decoding O R) :
    Prog (EngineState T) (UInt32 × R) := do
  let seqLen ← Prog.ofExcept (e.sampling.dim1 v.logits)
  if seqLen = 0 then Prog.crash
  else do
    let logits ← Prog.ofExcept (e.sampling.row v.logits (seqLen - 1))
    let start := v.allTokens.length - params.repeatLastN
    let logits :=
      if params.repeatPenalty != 1 then
        e.sampling.applyRepeatPenalty logits params.repeatPenalty (v.allTokens.drop start)
      else logits
    Prog.ofOption (e.sampling.sample v.sampler logits params)

/-- `for index_pos in (prompt_len..).take(max_tokens)`, with `remaining` tokens still to take;
    returns the finish reason and the number of completion tokens. -/
def Engine.decodeLoop (e : Engine T H O F D R) (forward : Forward T O)
    (params : SamplingParams F D) :
    ℕ → ℕ → Decoding O R → Prog (EngineState T) (FinishReason × ℕ)
  | 0, _, v => pure (.length, v.completionTokens)
  | remaining + 1, indexPos, v => do
    let (nextToken, sampler) ← e.nextToken params v
    if e.eosTokenId.isEos nextToken then pure (.stop, v.completionTokens)
    else do
      let piece ← Prog.ofExcept (e.tokenizer.decode [nextToken])
      if params.stopsAt (v.generated ++ piece) then pure (.stop, v.completionTokens + 1)
      else do
        Prog.modify fun s => { s with delivered := s.delivered ++ [piece] }
        let logits ← onTraced (forward [nextToken] indexPos)
        e.decodeLoop forward params remaining (indexPos + 1)
          { logits
            allTokens := v.allTokens ++ [nextToken]
            generated := v.generated ++ piece
            completionTokens := v.completionTokens + 1
            sampler }

/-- Puts the bundle, if there is one, into the store; whether that fails is ignored. -/
def publishBestEffort (m : KvCacheManager) (publish : KvPublish) : Prog (EngineState T) Unit :=
  match m.remote, publish.key, publish.bundleBytes with
  | some _, some key, some bytes => Prog.modify fun s => { s with puts := s.puts ++ [(key, bytes)] }
  | _, _, _ => pure ()

variable (fromSlice : List UInt8 → Except String KvBundleMeta)
  (toVec : KvBundleMeta → Except String (List UInt8)) (blockHash : BlockHash)

def Engine.generateWith (e : Engine T H O F D R) (forward : Forward T O)
    (messages : List ChatMessage) (params : SamplingParams F D) :
    Prog (EngineState T) GenerationStats := do
  let promptTokens ← Prog.ofExcept (e.tokenizer.encode (e.chatTemplate.render messages))
  let lookup := e.kvCache.prepare promptTokens
  let s ← Prog.get
  if s.poisoned then Prog.fail "engine cache mutex poisoned"
  else Prog.within (e.kvCache.bindSession lookup promptTokens) do
    let prefill ← onSession (prefillWith fromSlice blockHash forward)
    let (session, _) ← Prog.get
    let (finishReason, completionTokens) ← onEngine (e.decodeLoop forward params params.maxTokens
      promptTokens.length
      { logits := prefill.logits
        allTokens := promptTokens
        generated := ""
        completionTokens := 0
        sampler := e.sampling.new params.seed })
    let publish ← onSession (KvSession.finish toVec)
    onEngine (publishBestEffort e.kvCache publish)
    pure
      { promptTokens := promptTokens.length
        completionTokens
        reusedPrefixTokens := prefill.reusedPrefixTokens
        finishReason
        remoteCacheHit := session.remoteCacheHit
        remoteKey := lookup.remoteKey
        remoteCacheImportedTokens :=
          if session.remoteStore.isSome then some session.remoteImportedTokens else none
        remoteCacheError := if session.remoteStore.isSome then session.remoteError else none }

def Engine.generate (e : Engine T H O F D R) (messages : List ChatMessage)
    (params : SamplingParams F D) : Prog (EngineState T) GenerationStats :=
  e.generateWith fromSlice toVec blockHash e.model.forward messages params

end Generate

/-! ## 3. What a generation leaves live -/

section Live

variable {T H O F D R : Type} [Candle T] [HostCandle T] [BEq F] [OfNat F 1]
  {e : Engine T H O F D R} {params : SamplingParams F D} {blockHash : BlockHash}

omit [Candle T] [HostCandle T] in
/-- Sampling does not look at the cache. -/
theorem wlp_nextToken (v : Decoding O R) (s : EngineState T) :
    wlp (e.nextToken params v) (fun _ s' => s' = s) (fun _ s' => s' = s) s := by
  refine wlp_bind (wlp_ofExcept (fun seqLen _ => ?_) fun _ _ => rfl)
  split
  · exact Or.inl rfl
  refine wlp_bind (wlp_ofExcept (fun logits _ => ?_) fun _ _ => rfl)
  dsimp only
  generalize e.sampling.sample _ _ _ = r
  cases r with
  | none => exact Or.inl rfl
  | some r => exact Or.inr rfl

omit [Candle T] [HostCandle T] in
/-- A token is sampled from the last row of the logits. -/
theorem nextToken_known {vocab n : ℕ} {known : UInt32 → Prop} (h : e.sampling.Stays params vocab known)
    {v : Decoding O R} {logits : List F} (hn : 0 < n) (hdim : e.sampling.dim1 v.logits = .ok n)
    (hrow : e.sampling.row v.logits (n - 1) = .ok logits) (hlen : logits.length = vocab)
    (s : EngineState T) : ∃ id r, e.nextToken params v s = some (.ok (id, r), s) ∧ known id := by
  let penalised := if params.repeatPenalty != 1 then
      e.sampling.applyRepeatPenalty logits params.repeatPenalty
        (v.allTokens.drop (v.allTokens.length - params.repeatLastN))
    else logits
  have hpenalised : penalised.length = vocab := by
    rw [← hlen]
    unfold penalised
    split
    · exact h.penalty logits params.repeatPenalty _
    · rfl
  obtain ⟨id, r, hsample, hknown⟩ := h.sample v.sampler hpenalised
  have hwp : wp (e.nextToken params v) (fun a s' => a = (id, r) ∧ s' = s) (fun _ _ => False) s := by
    unfold Engine.nextToken
    rw [wp_bind, wp_ofExcept, hdim]
    dsimp only
    rw [if_neg hn.ne', wp_bind, wp_ofExcept, hrow]
    dsimp only
    rw [show e.sampling.sample v.sampler _ params = _ from hsample]
    exact ⟨rfl, rfl⟩
  obtain ⟨_, _, hrun, rfl, rfl⟩ := hwp.returns
  exact ⟨id, r, hrun, hknown⟩

/-- What `remaining` turns of the decode loop do, after `completed` tokens. -/
structure Decoded (blockHash : BlockHash) (remaining completed : ℕ) (s : EngineState T)
    (r : FinishReason × ℕ) (s' : EngineState T) : Prop where
  reaches : Reaches blockHash s.traced.cache s'.traced.cache
  live : ∃ pieces, s'.delivered = s.delivered ++ pieces ∧ s'.live = s.live + pieces.length
  le : r.2 ≤ completed + remaining
  length : r.1 = .length → r.2 = completed + remaining

omit [HostCandle T] in
/-- **The decode loop**: every piece that is delivered is followed by a pass over its token. -/
theorem wlp_decodeLoop {n indexPos : ℕ} {v : Decoding O R} {s : EngineState T}
    (h : Fit e.model s.traced.cache) :
    wlp (e.decodeLoop e.model.forward params n indexPos v)
      (Decoded blockHash n v.completionTokens s)
      (fun _ s' => Reaches blockHash s.traced.cache s'.traced.cache) s := by
  induction n generalizing indexPos v s with
  | zero => exact Or.inr ⟨.refl, ⟨[], (List.append_nil _).symm, rfl⟩, le_rfl, fun _ => rfl⟩
  | succ n ih =>
    have hstop : ∀ k, k ≤ n + 1 →
        Decoded blockHash (n + 1) v.completionTokens s (.stop, v.completionTokens + k) s := fun k hk =>
      ⟨.refl, ⟨[], (List.append_nil _).symm, rfl⟩, Nat.add_le_add_left hk _, fun h => (by cases h)⟩
    refine wlp_bind ((wlp_nextToken v s).mono (fun r s₁ hs => ?_) fun _ _ hs => ?_)
    swap
    · rw [hs]
      exact .refl
    obtain ⟨nextToken, sampler⟩ := r
    rw [hs]
    dsimp only
    split
    · exact Or.inr (hstop 0 (Nat.zero_le _))
    refine wlp_bind (wlp_ofExcept (fun piece _ => ?_) fun _ _ => .refl)
    split
    · exact Or.inr (hstop 1 (Nat.le_add_left 1 n))
    refine wlp_bind (Or.inr ?_)
    rw [wp_modify]
    refine wlp_bind (wlp_zoom ((wlp_forward [nextToken] indexPos h).mono (fun logits t ht => ?_)
      fun _ _ hr => hr))
    refine (ih (h.reached ht.reaches)).mono (fun r s' hd => ?_) fun _ _ hr => ht.reaches.trans hr
    obtain ⟨pieces, hdel, hlive⟩ := hd.live
    refine ⟨ht.reaches.trans hd.reaches, ⟨piece :: pieces, ?_, ?_⟩, ?_, fun hr => ?_⟩
    · rw [hdel, List.append_assoc, List.singleton_append]
    · rw [hlive, List.length_cons, EngineState.live, ht.len]
      show s.live + 1 + pieces.length = _
      omega
    · have hle := hd.le
      dsimp only at hle
      omega
    · have heq := hd.length hr
      dsimp only at heq
      omega

/-- What a generation that returned says, and leaves. -/
structure Generated (e : Engine T H O F D R) (blockHash : BlockHash) (messages : List ChatMessage)
    (params : SamplingParams F D) (s : EngineState T) (stats : GenerationStats)
    (s' : EngineState T) : Prop where
  prompt : ∃ prompt, e.tokenizer.encode (e.chatTemplate.render messages) = .ok prompt ∧
    stats.promptTokens = prompt.length
  reaches : Reaches blockHash s.traced.cache s'.traced.cache
  live : ∃ pieces, s'.delivered = s.delivered ++ pieces ∧
    s'.live = stats.promptTokens + pieces.length
  le : stats.completionTokens ≤ params.maxTokens
  length : stats.finishReason = .length → stats.completionTokens = params.maxTokens

/-- **A generation** on a cache made for the model, whatever the store answers. -/
theorem wlp_generate [LawfulCandle T] (fromSlice : List UInt8 → Except String KvBundleMeta)
    (toVec : KvBundleMeta → Except String (List UInt8)) {dtype : DType} {c₀ : Cache T}
    (hnew : Cache.new e.model.cfg dtype = .ok c₀) (messages : List ChatMessage)
    {s : EngineState T} (hr : Reaches blockHash c₀ s.traced.cache) :
    wlp (e.generate fromSlice toVec blockHash messages params)
      (Generated e blockHash messages params s)
      (fun _ s' => Reaches blockHash s.traced.cache s'.traced.cache) s := by
  have hfit := (fit_new hnew).reached hr
  refine wlp_bind (wlp_ofExcept (fun prompt hprompt => ?_) fun _ _ => .refl)
  refine wlp_bind (Or.inr ?_)
  rw [wp_get]
  split
  · exact Or.inr .refl
  refine wlp_within (wlp_bind (wlp_zoom ((wlp_of_within (wlp_prefill fromSlice _ hfit)).mono
    (fun out st hp => ?_) fun _ _ hE => hE)))
  obtain ⟨session, t⟩ := st
  obtain ⟨hreach, hlen⟩ := hp
  refine wlp_bind (Or.inr ?_)
  rw [wp_get]
  refine wlp_bind (wlp_zoom ((wlp_decodeLoop (hfit.reached hreach)).mono (fun r s₂ hd => ?_)
    fun _ _ hE => hreach.trans hE))
  have hreach₂ := hreach.trans hd.reaches
  obtain ⟨ops, hsteps⟩ := hr.trans hreach₂
  refine wlp_bind (wlp_zoom ((wlp_finish (formed_steps hnew hsteps)).mono (fun publish st hf => ?_)
    fun _ _ hE => hE.elim))
  rw [hf.1]
  have hstats : Generated e blockHash messages params s
      { promptTokens := prompt.length
        completionTokens := r.2
        reusedPrefixTokens := out.reusedPrefixTokens
        finishReason := r.1
        remoteCacheHit := session.remoteCacheHit
        remoteKey := (e.kvCache.prepare prompt).remoteKey
        remoteCacheImportedTokens :=
          if session.remoteStore.isSome then some session.remoteImportedTokens else none
        remoteCacheError := if session.remoteStore.isSome then session.remoteError else none } s₂ := by
    obtain ⟨pieces, hdel, hlive⟩ := hd.live
    have hlen : t.cache.kvs.table.len = prompt.length := hlen
    refine ⟨⟨prompt, hprompt, rfl⟩, hreach₂, ⟨pieces, hdel, hlive.trans ?_⟩, ?_, fun h => ?_⟩
    · show t.cache.kvs.table.len + _ = _
      rw [hlen]
    · exact hd.le.trans_eq (Nat.zero_add _)
    · exact (hd.length h).trans (Nat.zero_add _)
  refine wlp_bind (wlp_zoom (Or.inr ?_))
  unfold publishBestEffort
  split
  · exact Or.inr ⟨hstats.prompt, hstats.reaches, hstats.live, hstats.le, hstats.length⟩
  · exact Or.inr hstats

end Live

end Flour
