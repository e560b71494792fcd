/-
  File:      Flour/Engine/Ideal.lean
  Subject:   What `Engine::generate` delivers is what generation without a cache delivers.

  * `Engine.idealLoop` -- the decode loop over a function from the tokens of a sequence to the logits
    after it: no cache, no passes, no store;
  * `Predicts` -- the last row of the model's logits is that function of the whole sequence;
  * `nextToken_ideal`, **`wlp_decodeLoop_ideal`** -- on a live cache both loops take the same turns;
  * `generateLts` -- the generations on one engine, each with messages, parameters and a store of its
    own; one that panics poisons the cache;
  * **`generate_ideal`** -- in every history each generation that returns has delivered the ideal
    pieces and reports their end, and one that fails has delivered some first of them.
-/
import Flour.Engine.Generate
import Flour.Kv.Logits
import Flour.Kv.Publish

namespace Flour

open Kv Candle Flour.Lib Flour.Lib.Prog

/-! ## 1. Generation without a cache -/

section Ideal

variable {T H O F D R : Type} [BEq F] [OfNat F 1]

/-- The token after a sequence, and the next state of the sampler; none where sampling panics. -/
def Engine.idealNext (e : Engine T H O F D R) (ref : List UInt32 → List F)
    (params : SamplingParams F D) (seq : List UInt32) (sampler : R) : Option (UInt32 × R) :=
  let logits := ref seq
  let start := seq.length - params.repeatLastN
  let logits :=
    if params.repeatPenalty != 1 then
      e.sampling.applyRepeatPenalty logits params.repeatPenalty (seq.drop start)
    else logits
  e.sampling.sample sampler logits params

/-- The pieces of a generation, with its finish reason and the number of its tokens unless sampling
    or decoding a token ends it. -/
def Engine.idealLoop (e : Engine T H O F D R) (ref : List UInt32 → List F)
    (params : SamplingParams F D) :
    ℕ → List UInt32 → String → ℕ → R → List String × Option (FinishReason × ℕ)
  | 0, _, _, completed, _ => ([], some (.length, completed))
  | remaining + 1, seq, generated, completed, sampler =>
    match e.idealNext ref params seq sampler with
    | none => ([], none)
    | some (nextToken, sampler) =>
      if e.eosTokenId.isEos nextToken then ([], some (.stop, completed))
      else
        match e.tokenizer.decode [nextToken] with
        | .error _ => ([], none)
        | .ok piece =>
          if params.stopsAt (generated ++ piece) then ([], some (.stop, completed + 1))
          else
            let rest := e.idealLoop ref params remaining (seq ++ [nextToken]) (generated ++ piece)
              (completed + 1) sampler
            (piece :: rest.1, rest.2)

/-- The ideal generation after a prompt. -/
def Engine.ideal (e : Engine T H O F D R) (ref : List UInt32 → List F)
    (params : SamplingParams F D) (prompt : List UInt32) :
    List String × Option (FinishReason × ℕ) :=
  e.idealLoop ref params params.maxTokens prompt "" 0 (e.sampling.new params.seed)

/-- The last row of the logits of a pass is a function of the whole sequence. -/
def Predicts (s : Sampling O F D R) (logits : List UInt32 → List UInt32 → O → Prop)
    (ref : List UInt32 → List F) : Prop :=
  ∀ before ids o, 0 < ids.length → logits before ids o →
    s.dim1 o = .ok ids.length ∧ s.row o (ids.length - 1) = .ok (ref (before ++ ids))

end Ideal

/-! ## 2. The decode loop -/

section Loop

variable {T H O F D R : Type} [Candle T] [LawfulCandle T] [BEq F] [OfNat F 1]
  {e : Engine T H O F D R} {params : SamplingParams F D} {dtype : DType} {rowOf : RowOf}
  {hidden : ℕ → List UInt32 → List UInt32 → H → Prop}
  {logits : List UInt32 → List UInt32 → O → Prop} {ref : List UInt32 → List F}
  {blockHash : BlockHash} {prompts : List UInt32 → Prop}

omit [LawfulCandle T] [Candle T] in
/-- **Sampling** from logits of the sequence. -/
theorem nextToken_ideal (params : SamplingParams F D) (hp : Predicts e.sampling logits ref)
    {v : Decoding O R} {before ids : List UInt32} (hn : 0 < ids.length)
    (hseq : before ++ ids = v.allTokens) (hv : logits before ids v.logits) (s : EngineState T) :
    e.nextToken params v s =
      (e.idealNext ref params v.allTokens v.sampler).map fun r => (.ok r, s) := by
  obtain ⟨hdim, hrow⟩ := hp before ids v.logits hn hv
  unfold Engine.nextToken
  rw [hdim]
  show (if ids.length = 0 then (Prog.crash : Prog (EngineState T) (UInt32 × R)) else do
    let logits ← Prog.ofExcept (e.sampling.row v.logits (ids.length - 1))
    let start := v.allTokens.length - params.repeatLastN
    let logits :=
      if params.repeatPenalty != 1 then
        e.sampling.applyRepeatPenalty logits params.repeatPenalty (v.allTokens.drop start)
      else logits
    Prog.ofOption (e.sampling.sample v.sampler logits params)) s = _
  rw [if_neg (Nat.ne_of_gt hn), hrow, hseq]
  rfl

/-- What the turns of a decode loop have delivered when it returned `r`, or failed. -/
def Delivers (s s' : EngineState T) (ideal : List String × Option (FinishReason × ℕ))
    (r : Option (FinishReason × ℕ)) : Prop :=
  ∃ pieces, s'.delivered = s.delivered ++ pieces ∧ pieces <+: ideal.1 ∧
    (r.isSome → ideal = (pieces, r))

/-- **The decode loop** on a live cache takes the turns of the ideal one, as long as it does not
    fail; the tokens of the sequence stay live. -/
theorem wlp_decodeLoop_ideal (params : SamplingParams F D)
    (hm : Evaluates e.model dtype rowOf hidden logits) (hp : Predicts e.sampling logits ref) {n : ℕ}
    {v : Decoding O R} {before ids : List UInt32} (hn : 0 < ids.length)
    (hseq : before ++ ids = v.allTokens) (hv : logits before ids v.logits) {s : EngineState T}
    (h : Live e.model.cfg dtype blockHash prompts rowOf v.allTokens s.traced.cache) :
    wlp (e.decodeLoop e.model.forward params n v.allTokens.length v)
      (fun r s' => (∃ seq, v.allTokens <+: seq ∧
          Live e.model.cfg dtype blockHash prompts rowOf seq s'.traced.cache) ∧
        Delivers s s' (e.idealLoop ref params n v.allTokens v.generated v.completionTokens v.sampler)
          (some r))
      (fun _ s' => Clean e.model.cfg dtype blockHash prompts rowOf s'.traced.cache ∧
        Delivers s s' (e.idealLoop ref params n v.allTokens v.generated v.completionTokens v.sampler)
          none) s := by
  induction n generalizing v s before ids with
  | zero =>
    exact Or.inr ⟨⟨_, List.prefix_rfl, h⟩, [], (List.append_nil _).symm, List.nil_prefix, fun _ => rfl⟩
  | succ n ih =>
    unfold Engine.decodeLoop Engine.idealLoop
    have hnext := nextToken_ideal params hp hn hseq hv s
    cases hideal : e.idealNext ref params v.allTokens v.sampler with
    | none =>
      rw [hideal] at hnext
      exact wlp_bind (Or.inl hnext)
    | some r =>
      obtain ⟨nextToken, sampler⟩ := r
      rw [hideal] at hnext
      refine wlp_bind (Or.inr ((wp_of_ok hnext).mpr ?_))
      dsimp only
      split
      · exact Or.inr ⟨⟨_, List.prefix_rfl, h⟩, [], (List.append_nil _).symm, List.nil_prefix,
          fun _ => rfl⟩
      refine wlp_bind (wlp_ofExcept (fun piece hpiece => ?_) fun err herr => ?_)
      swap
      · rw [herr]
        exact ⟨h.toClean, [], (List.append_nil _).symm, List.nil_prefix, fun hr => (by cases hr)⟩
      rw [hpiece]
      dsimp only
      split
      · exact Or.inr ⟨⟨_, List.prefix_rfl, h⟩, [], (List.append_nil _).symm, List.nil_prefix,
          fun _ => rfl⟩
      refine wlp_bind (Or.inr ?_)
      rw [wp_modify]
      -- the piece is delivered before the pass over its token, which may fail
      have hone : 0 < [nextToken].length := Nat.one_pos
      refine wlp_bind (wlp_zoom (Or.inr ((wp_forward_logits hm hone h
        fun _ => nextSlots_one s.traced.cache).mono (fun o t ht => ?_) fun _ t ht => ?_)))
      · have hrest := ih (v := ⟨o, v.allTokens ++ [nextToken], v.generated ++ piece,
            v.completionTokens + 1, sampler⟩) hone rfl ht.2
          (s := { s with delivered := s.delivered ++ [piece], traced := t }) ht.1
        rw [List.length_append] at hrest
        refine hrest.mono ?_ ?_
        · rintro r s' ⟨⟨seq, hpre, hlive⟩, pieces, hdel, hpieces, hsome⟩
          refine ⟨⟨seq, (List.prefix_append _ _).trans hpre, hlive⟩, piece :: pieces, ?_,
            (List.prefix_cons_inj piece).mpr hpieces, fun hr => ?_⟩
          · rw [hdel, List.append_assoc, List.singleton_append]
          · rw [hsome hr]
        · rintro _ s' ⟨hclean, pieces, hdel, hpieces, -⟩
          refine ⟨hclean, piece :: pieces, ?_, (List.prefix_cons_inj piece).mpr hpieces,
            fun hr => (by cases hr)⟩
          rw [hdel, List.append_assoc, List.singleton_append]
      · exact ⟨ht.1, [piece], rfl, (List.prefix_cons_inj piece).mpr List.nil_prefix,
          fun hr => (by cases hr)⟩

omit [LawfulCandle T] [Candle T] in
/-- The decode loop touches neither the mutex nor the store. -/
theorem keeps_decodeLoop {forward : Forward T O} {n indexPos : ℕ} {v : Decoding O R} {b : Bool}
    {puts : List (String × List UInt8)} :
    Keeps (fun s : EngineState T => s.poisoned = b ∧ s.puts = puts)
      (e.decodeLoop forward params n indexPos v) := by
  induction n generalizing indexPos v with
  | zero => exact keeps_pure _
  | succ n ih =>
    refine keeps_bind (fun s r s' h hrun => ?_) fun r => keeps_ite (keeps_pure _) ?_
    · obtain rfl : s' = s := by
        cases r with
        | error err => exact (wlp_nextToken v s).of_error hrun
        | ok a => exact (wlp_nextToken v s).of_ok hrun
      exact h
    refine keeps_bind (fun s r' s' h hrun => ?_) fun piece => keeps_ite (keeps_pure _) ?_
    · cases hrun
      exact h
    refine keeps_bind (keeps_modify fun _ h => h) fun _ => keeps_bind ?_ fun _ => ih
    exact keeps_zoom (I := fun _ => True) (fun _ _ _ _ _ => trivial) (fun _ _ => trivial)
      fun _ _ h _ => h

omit [LawfulCandle T] in
/-- A generation that ends leaves the mutex as it was. -/
theorem keeps_generate [HostCandle T] (fromSlice : List UInt8 → Except String KvBundleMeta)
    (toVec : KvBundleMeta → Except String (List UInt8)) (blockHash : BlockHash)
    {messages : List ChatMessage} {b : Bool} :
    Keeps (fun s : EngineState T => s.poisoned = b)
      (e.generate fromSlice toVec blockHash messages params) := by
  have hsession : ∀ {α : Type} (x : Prog (KvSession.State T) α),
      Keeps (fun s : KvSession × EngineState T => s.2.poisoned = b) (onSession x) := fun _ =>
    keeps_zoom (I := fun _ => True) (fun _ _ _ _ _ => trivial) (fun _ _ => trivial) fun _ _ h _ => h
  have hengine : ∀ {α : Type} {x : Prog (EngineState T) α},
      Keeps (fun s : EngineState T => s.poisoned = b) x →
        Keeps (fun s : KvSession × EngineState T => s.2.poisoned = b) (onEngine x) := fun hx =>
    keeps_zoom hx (fun _ h => h) fun _ _ _ h => h
  refine keeps_bind (fun s r s' h hrun => ?_) fun prompt => keeps_bind keeps_get fun s =>
    keeps_ite (keeps_fail _) (keeps_within ?_)
  · cases hrun
    exact h
  refine keeps_bind (hsession _) fun prefill => keeps_bind keeps_get fun _ =>
    keeps_bind (hengine fun s r s' h hrun => ?_) fun _ => keeps_bind (hsession _) fun publish =>
      keeps_bind (hengine ?_) fun _ => keeps_pure _
  · exact (keeps_decodeLoop s r s' ⟨h, rfl⟩ hrun).1
  · unfold publishBestEffort
    split
    · exact keeps_modify fun _ h => h
    · exact keeps_pure _

end Loop

/-! ## 3. A generation -/

section Generate

variable {T H O F D R : Type} [Candle T] [LawfulCandle T] [HostCandle T] [BEq F] [OfNat F 1]
  {e : Engine T H O F D R} {params : SamplingParams F D} {dtype : DType} {rowOf : RowOf}
  {hidden : ℕ → List UInt32 → List UInt32 → H → Prop}
  {logits : List UInt32 → List UInt32 → O → Prop} {ref : List UInt32 → List F}
  {blockHash : BlockHash} {prompts : List UInt32 → Prop}

/-- The number of tokens of a prompt that are exported. -/
def exportable (prompt : List UInt32) : ℕ := KvCache.maxReusable blockSize prompt.length * blockSize

/-- The encoding of a bundle exported for one of the prompts, with the rows of its tokens. -/
def HonestPut (T : Type) [Candle T] [HostCandle T]
    (toVec : KvBundleMeta → Except String (List UInt8)) (cfg : Config) (dtype : DType)
    (prompts : List UInt32 → Prop) (rowOf : RowOf) (modelId : String) (bytes : List UInt8) : Prop :=
  ∃ (c : Cache T) (d : BundleDType) (prompt : List UInt32) (bundle : KvBundle T),
    d.toCandle = dtype ∧ prompts prompt ∧ Formed cfg dtype c ∧
      Exported cfg d c.kvs modelId prompt (exportable prompt) bundle ∧
      HonestBundle cfg rowOf bundle ∧
      KvBundleCodec.encode toVec bundle () = some (.ok bytes, ())

omit [LawfulCandle T] [HostCandle T] in
/-- **What is exported** from a cache in which a sequence is live has the rows of its tokens. -/
theorem Kv.Exported.honest {cfg : Config} {d : BundleDType} {c : Cache T} {modelId : String}
    {prompt seq : List UInt32} {n : ℕ} {bundle : KvBundle T}
    (h : Exported cfg d c.kvs modelId prompt n bundle) (hpre : prompt <+: seq)
    (hlive : Live cfg dtype blockHash prompts rowOf seq c) : HonestBundle cfg rowOf bundle := by
  intro b layer block lb hblock hlb j hj
  have hrows := h.blocks b block hblock
  have hlayer : layer < cfg.numHiddenLayers := by
    rw [← hrows.layers]
    exact (List.getElem?_eq_some_iff.mp hlb).1
  have hb : b < n / blockSize := by
    rw [← h.length]
    exact (List.getElem?_eq_some_iff.mp hblock).1
  have hpos : b * blockSize + j < n := by
    have hle := Nat.mul_le_of_le_div _ _ _ hb
    rw [Nat.succ_mul] at hle
    omega
  have hlen := h.covers
  have hseq := hpre.length_le
  obtain ⟨rest, rfl⟩ := hpre
  rw [(hrows.rows layer lb hlb).rows j hj,
    hlive.holds layer hlayer _ (by omega), h.header]
  show rowOf layer _ = rowOf layer ((prompt.take n).take _)
  rw [List.take_append_of_le_length (by omega), List.take_take, Nat.min_eq_left (by omega)]

/-- What holds of an engine between two generations. -/
def Usable (cfg : Config) (dtype : DType) (blockHash : BlockHash) (prompts : List UInt32 → Prop)
    (rowOf : RowOf) (s : EngineState T) : Prop :=
  s.poisoned = false → Clean cfg dtype blockHash prompts rowOf s.traced.cache

/-- What a generation asks of its prompt, and of what its store answers. -/
structure Sound (e : Engine T H O F D R) (blockHash : BlockHash) (prompts : List UInt32 → Prop)
    (rowOf : RowOf) (fromSlice : List UInt8 → Except String KvBundleMeta)
    (messages : List ChatMessage) (s : EngineState T) : Prop where
  prompt {prompt : List UInt32}
    (h : e.tokenizer.encode (e.chatTemplate.render messages) = .ok prompt) : prompts prompt
  store {store : RemoteGet} (h : e.kvCache.remote = some store) :
    Honest T fromSlice e.kvCache.modelId e.model.cfg rowOf store
  inStep {prompt : List UInt32}
    (h : e.tokenizer.encode (e.chatTemplate.render messages) = .ok prompt) :
    InStep (suffixBlocks fromSlice blockHash e.model (e.kvCache.session prompt) s.traced)

/-- What a generation that returned has done. -/
def Answered (e : Engine T H O F D R) (ref : List UInt32 → List F) (messages : List ChatMessage)
    (params : SamplingParams F D) (s : EngineState T) (stats : GenerationStats)
    (s' : EngineState T) : Prop :=
  ∃ prompt, e.tokenizer.encode (e.chatTemplate.render messages) = .ok prompt ∧
    stats.promptTokens = prompt.length ∧
    Delivers s s' (e.ideal ref params prompt) (some (stats.finishReason, stats.completionTokens))

/-- What a generation that failed has delivered. -/
def Failed (e : Engine T H O F D R) (ref : List UInt32 → List F) (messages : List ChatMessage)
    (params : SamplingParams F D) (s s' : EngineState T) : Prop :=
  s'.delivered = s.delivered ∨
    ∃ prompt, e.tokenizer.encode (e.chatTemplate.render messages) = .ok prompt ∧
      Delivers s s' (e.ideal ref params prompt) none

omit [Candle T] [LawfulCandle T] [HostCandle T] [BEq F] [OfNat F 1] in
/-- A store that is asked at all answers for the key of the session. -/
theorem fetched_session {prompt : List UInt32} {bytes : List UInt8}
    (h : (e.kvCache.session prompt).fetched = some bytes) :
    ∃ store key, e.kvCache.remote = some store ∧ store key = .ok (some bytes) := by
  unfold KvSession.fetched at h
  split at h
  · rename_i store key hstore hkey
    split at h
    · rename_i r hget
      exact ⟨store, key, hstore, h ▸ hget⟩
    · cases h
  · cases h

/-- **One generation**: it returns after the ideal pieces, or fails after some first of them; its
    cache stays clean, and what it puts into the store is honest. -/
theorem wlp_generate_ideal (params : SamplingParams F D)
    (hm : Evaluates e.model dtype rowOf hidden logits)
    (hp : Predicts e.sampling logits ref) (hc : NoCollision blockHash blockSize prompts)
    (hns : NoSeed blockHash blockSize prompts) (hlayers : e.model.cfg.numHiddenLayers ≠ 0)
    (fromSlice : List UInt8 → Except String KvBundleMeta)
    (toVec : KvBundleMeta → Except String (List UInt8)) {messages : List ChatMessage}
    {s : EngineState T} (h : Usable e.model.cfg dtype blockHash prompts rowOf s)
    (hs : Sound e blockHash prompts rowOf fromSlice messages s) :
    wlp (e.generate fromSlice toVec blockHash messages params)
      (fun stats s' => (Answered e ref messages params s stats s' ∧
          Usable e.model.cfg dtype blockHash prompts rowOf s') ∧
        ∃ new, s'.puts = s.puts ++ new ∧
          ∀ put ∈ new, HonestPut T toVec e.model.cfg dtype prompts rowOf e.kvCache.modelId put.2)
      (fun _ s' => (Failed e ref messages params s s' ∧
          Usable e.model.cfg dtype blockHash prompts rowOf s') ∧ s'.puts = s.puts) s := by
  refine wlp_bind (wlp_ofExcept (fun prompt hprompt => ?_) fun _ _ => ⟨⟨Or.inl rfl, h⟩, rfl⟩)
  refine wlp_bind (Or.inr ?_)
  rw [wp_get]
  split
  · exact Or.inr ⟨⟨Or.inl rfl, h⟩, rfl⟩
  rename_i hpoisoned
  have hclean := h (Bool.eq_false_of_not_eq_true hpoisoned)
  -- the prefill, and that its session stays about this request
  have hprefill := wp_prefill_logits hm hc hns
    (s := e.kvCache.session prompt) (hs.prompt hprompt) hclean (fun bytes hbytes => by
      obtain ⟨store, key, hstore, hget⟩ := fetched_session hbytes
      exact ⟨hlayers, hs.store hstore key bytes hget⟩) (hs.inStep hprompt)
  have hsame := (wlp_of_within (Or.inr hprefill)).and_keeps
    (keeps_prefill (s := e.kvCache.session prompt) fromSlice blockHash e.model) ⟨rfl, rfl, rfl, rfl⟩
  refine wlp_within (wlp_bind (wlp_zoom (hsame.mono (fun out st hout => ?_) fun _ st hE => ?_)))
  swap
  · exact ⟨⟨Or.inl rfl, fun _ => hE.1⟩, rfl⟩
  obtain ⟨session, t⟩ := st
  obtain ⟨⟨hlive, before, ids, hsplit, hn, hlogits⟩, hsession⟩ := hout
  refine wlp_bind (Or.inr ?_)
  rw [wp_get]
  -- the decode loop
  have hloop := (wlp_decodeLoop_ideal params hm hp (n := params.maxTokens)
    (v := ⟨out.logits, prompt, "", 0, e.sampling.new params.seed⟩) hn hsplit hlogits
    (s := { s with traced := t }) hlive).and_keeps keeps_decodeLoop ⟨rfl, rfl⟩
  refine wlp_bind (wlp_zoom (hloop.mono (fun r s₂ hr => ?_) fun _ s₂ hE => ?_))
  swap
  · obtain ⟨⟨hclean₂, hdel⟩, hpois, hputs⟩ := hE
    exact ⟨⟨Or.inr ⟨prompt, hprompt, hdel⟩, fun _ => hclean₂⟩, hputs⟩
  obtain ⟨⟨⟨seq, hpre, hlive₂⟩, hdel⟩, hpois, hputs⟩ := hr
  -- what is published
  refine wlp_bind (wlp_zoom ((wlp_finish hlive₂.formed).mono (fun publish st hf => ?_)
    fun _ _ hE => hE.elim))
  obtain ⟨rfl, hpub⟩ := hf
  have hanswered : ∀ s₃ : EngineState T, s₃.delivered = s₂.delivered →
      Delivers s s₃ (e.ideal ref params prompt) (some r) := fun s₃ hs₃ => by
    obtain ⟨pieces, hpieces, hrest⟩ := hdel
    exact ⟨pieces, hs₃.trans hpieces, hrest⟩
  refine wlp_bind (wlp_zoom (Or.inr ?_))
  unfold publishBestEffort
  split
  · rename_i key bytes _ hkey hbytes
    refine Or.inr ⟨⟨⟨prompt, hprompt, rfl, hanswered _ rfl⟩, fun _ => hlive₂.toClean⟩, [(key, bytes)],
      ?_, fun put hput => ?_⟩
    · show s₂.puts ++ _ = _
      rw [hputs]
    · rw [List.mem_singleton.mp hput]
      obtain ⟨-, d, bundle, hd, hexp, henc⟩ := hpub.bytes hbytes
      rw [hsession.modelId, hsession.promptTokens, hsession.reusableTokens,
        reusableTokens_session] at hexp
      exact ⟨s₂.traced.cache, d, prompt, bundle, hd, hs.prompt hprompt, hlive₂.formed, hexp,
        hexp.honest hpre hlive₂, henc⟩
  · exact Or.inr ⟨⟨⟨prompt, hprompt, rfl, hanswered _ rfl⟩, fun _ => hlive₂.toClean⟩, [],
      by rw [List.append_nil]; exact hputs, fun _ hput => absurd hput List.not_mem_nil⟩

end Generate

/-! ## 4. Histories -/

/-- A generation as its caller sees it, with the store as it answered; no reply when it panicked. -/
structure Generation (F D : Type) where
  messages : List ChatMessage
  params : SamplingParams F D
  remote : Option RemoteGet
  reply : Option (Except String GenerationStats)
  pieces : List String

section Histories

variable {T H O F D R : Type}

/-- The engine over a store. -/
def Engine.over (e : Engine T H O F D R) (remote : Option RemoteGet) : Engine T H O F D R :=
  { e with kvCache := { e.kvCache with remote } }

/-- An engine whose cache was made for its model. -/
def Engine.Fresh [Candle T] (e : Engine T H O F D R) (dtype : DType) (s : EngineState T) : Prop :=
  ∃ c, Cache.new e.model.cfg dtype = .ok c ∧ s = ⟨false, ⟨c, []⟩, [], []⟩

variable [BEq F] [OfNat F 1]

/-- The generations on one engine. A panic leaves the mutex of the cache poisoned. -/
def generateLts [Candle T] [HostCandle T] (fromSlice : List UInt8 → Except String KvBundleMeta)
    (toVec : KvBundleMeta → Except String (List UInt8)) (blockHash : BlockHash)
    (e : Engine T H O F D R) (dtype : DType) : Lts (EngineState T) (Generation F D) where
  init := e.Fresh dtype
  step s g s' :=
    match g.reply with
    | some r =>
      (e.over g.remote).generate fromSlice toVec blockHash g.messages g.params s = some (r, s') ∧
        s'.delivered = s.delivered ++ g.pieces
    | none =>
      (e.over g.remote).generate fromSlice toVec blockHash g.messages g.params s = none ∧
        s'.poisoned = true ∧ s'.puts = s.puts

/-- What a caller gets is what generation without a cache gives. -/
structure Generation.Ideal (e : Engine T H O F D R) (ref : List UInt32 → List F)
    (g : Generation F D) : Prop where
  returned {stats : GenerationStats} (h : g.reply = some (.ok stats)) :
    ∃ prompt, e.tokenizer.encode (e.chatTemplate.render g.messages) = .ok prompt ∧
      stats.promptTokens = prompt.length ∧
      e.ideal ref g.params prompt = (g.pieces, some (stats.finishReason, stats.completionTokens))
  failed {err : String} (h : g.reply = some (.error err)) :
    g.pieces = [] ∨ ∃ prompt, e.tokenizer.encode (e.chatTemplate.render g.messages) = .ok prompt ∧
      g.pieces <+: (e.ideal ref g.params prompt).1

/-- The ideal generation knows no store. -/
theorem ideal_over (e : Engine T H O F D R) (remote : Option RemoteGet) (ref : List UInt32 → List F)
    (params : SamplingParams F D) (prompt : List UInt32) :
    (e.over remote).ideal ref params prompt = e.ideal ref params prompt := by
  have hloop : ∀ n seq generated completed sampler,
      (e.over remote).idealLoop ref params n seq generated completed sampler =
        e.idealLoop ref params n seq generated completed sampler := by
    intro n
    induction n with
    | zero => exact fun _ _ _ _ => rfl
    | succ n ih =>
      intro seq generated completed sampler
      simp only [Engine.idealLoop, ih]
      rfl
  exact hloop _ _ _ _ _

variable [Candle T] [LawfulCandle T] [HostCandle T] {e : Engine T H O F D R} {dtype : DType}
  {rowOf : RowOf} {hidden : ℕ → List UInt32 → List UInt32 → H → Prop}
  {logits : List UInt32 → List UInt32 → O → Prop} {ref : List UInt32 → List F}
  {blockHash : BlockHash} {prompts : List UInt32 → Prop}
  {fromSlice : List UInt8 → Except String KvBundleMeta}
  {toVec : KvBundleMeta → Except String (List UInt8)}

omit [HostCandle T] [BEq F] [OfNat F 1] in
/-- A new engine is usable. -/
theorem Engine.Fresh.usable {s : EngineState T} (h : e.Fresh dtype s) :
    Usable e.model.cfg dtype blockHash prompts rowOf s := by
  obtain ⟨c, hnew, rfl⟩ := h
  refine fun _ => ⟨formed_new hnew, fun hash tokens id he => ?_⟩
  rw [registry_new hnew] at he
  cases he

/-- **A step of an engine** that is usable, over an honest store. -/
theorem generation_step (hm : Evaluates e.model dtype rowOf hidden logits)
    (hp : Predicts e.sampling logits ref) (hc : NoCollision blockHash blockSize prompts)
    (hns : NoSeed blockHash blockSize prompts) (hlayers : e.model.cfg.numHiddenLayers ≠ 0)
    {s s' : EngineState T} (h : Usable e.model.cfg dtype blockHash prompts rowOf s)
    {g : Generation F D}
    (hs : Sound (e.over g.remote) blockHash prompts rowOf fromSlice g.messages s)
    (hstep : (generateLts fromSlice toVec blockHash e dtype).step s g s') :
    (g.Ideal e ref ∧ Usable e.model.cfg dtype blockHash prompts rowOf s') ∧
      ∃ new, s'.puts = s.puts ++ new ∧
        ∀ put ∈ new, HonestPut T toVec e.model.cfg dtype prompts rowOf e.kvCache.modelId put.2 := by
  have hgen := wlp_generate_ideal (e := e.over g.remote) g.params hm hp hc hns hlayers fromSlice toVec
    h hs
  obtain ⟨messages, params, remote, reply, pieces⟩ := g
  rcases reply with _ | err | stats
  · obtain ⟨-, hpois, hputs⟩ := hstep
    refine ⟨⟨⟨fun h => (by cases h), fun h => (by cases h)⟩, fun hf => ?_⟩, [],
      by rw [List.append_nil]; exact hputs, fun _ hput => absurd hput List.not_mem_nil⟩
    rw [hpois] at hf
    cases hf
  · obtain ⟨hrun, hdel⟩ := hstep
    obtain ⟨⟨hfailed, husable⟩, hputs⟩ := hgen.of_error hrun
    refine ⟨⟨⟨fun h => (by cases h), fun _ => ?_⟩, husable⟩, [],
      by rw [List.append_nil]; exact hputs, fun _ hput => absurd hput List.not_mem_nil⟩
    rcases hfailed with hnone | ⟨prompt, hprompt, pieces', hpieces, hpre, -⟩
    · exact Or.inl (List.append_cancel_left ((hdel.symm.trans hnone).trans (List.append_nil _).symm))
    · rw [ideal_over] at hpre
      obtain rfl := List.append_cancel_left (hdel.symm.trans hpieces)
      exact Or.inr ⟨prompt, hprompt, hpre⟩
  · obtain ⟨hrun, hdel⟩ := hstep
    obtain ⟨⟨⟨prompt, hprompt, htokens, pieces', hpieces, -, hideal⟩, husable⟩, hputs⟩ :=
      hgen.of_ok hrun
    refine ⟨⟨⟨fun h => ?_, fun h => (by cases h)⟩, husable⟩, hputs⟩
    cases h
    rw [ideal_over] at hideal
    obtain rfl := List.append_cancel_left (hdel.symm.trans hpieces)
    exact ⟨prompt, hprompt, htokens, hideal rfl⟩

/-- **Generations do not depend on what was cached.** Of every history of an engine whose prompts
    have no colliding block hashes, whose prefills take the blocks of their suffix in step, and whose
    stores, if any, answer honestly: a generation that returns has delivered exactly the pieces of
    generation without a cache and reports its finish reason and its number of tokens; one that
    fails has delivered some first of these pieces. -/
theorem generate_ideal (hm : Evaluates e.model dtype rowOf hidden logits)
    (hp : Predicts e.sampling logits ref) (hc : NoCollision blockHash blockSize prompts)
    (hns : NoSeed blockHash blockSize prompts) (hlayers : e.model.cfg.numHiddenLayers ≠ 0)
    {history : List (Generation F D)} {s : EngineState T}
    (hr : ((generateLts fromSlice toVec blockHash e dtype).restrict fun s g =>
      Sound (e.over g.remote) blockHash prompts rowOf fromSlice g.messages s).Run history s) :
    ∀ g ∈ history, g.Ideal e ref := by
  have hinv := hr.invariant (I := fun history s => (∀ g ∈ history, g.Ideal e ref) ∧
      Usable e.model.cfg dtype blockHash prompts rowOf s)
    (fun s (h : e.Fresh dtype s) => ⟨fun _ hg => absurd hg List.not_mem_nil, h.usable⟩)
    fun history s g s' _ h hstep => by
      obtain ⟨⟨hideal, husable⟩, -⟩ := generation_step hm hp hc hns hlayers h.2 hstep.2 hstep.1
      exact ⟨List.forall_mem_cons.mpr ⟨hideal, h.1⟩, husable⟩
  exact hinv.1

end Histories

/-! ## 5. Two chats -/

/-- The sample model, with the tokens of a pass as their logits. -/
def echoModel (cfg : Config) : CausalLM Dense (List UInt32) (List UInt32) where
  cfg
  embed := (sampleModel cfg).embed
  keyValue := (sampleModel cfg).keyValue
  attend := (sampleModel cfg).attend
  output x := .ok x

theorem echoModel_evaluates {cfg : Config} (hheads : cfg.numKeyValueHeads = 1)
    (hdim : cfg.headDim = 1) :
    Evaluates (echoModel cfg) .f32 sampleRow (fun _ _ ids x => x = ids) fun _ ids o => o = ids where
  embed h := @Computes.embed _ _ _ _ _ _ _ _ (sampleModel_computes hheads hdim) [] _ _ h
  keyValue hl hx _ _ :=
    ⟨_, _, rfl, (sampleModel_computes hheads hdim).keyValue (m := sampleModel cfg) hl hx rfl⟩
  attend _ hx _ _ _ _ := ⟨_, rfl, hx⟩
  output hx _ := ⟨_, rfl, hx⟩

/-- An engine whose every chat is one prompt, and which counts on from its last token. -/
def echoEngine (cfg : Config) (prompt : List UInt32) (eos : UInt32) :
    Engine Dense (List UInt32) (List UInt32) ℕ ℕ Unit where
  model := echoModel cfg
  tokenizer := { inner := (fun _ => .ok prompt, fun _ => .ok "la") }
  chatTemplate := .chatMl
  eosTokenId := .single eos
  sampling :=
    { dim1 := fun o => .ok o.length
      row := fun o i => .ok [(o.getD i 0).toNat]
      applyRepeatPenalty := fun logits _ _ => logits
      new := fun _ => ()
      sample := fun r logits _ => some (UInt32.ofNat (logits.headD 0 + 1), r) }
  kvCache := .localOnly "m"

/-- The last token of a sequence. -/
def lastToken (seq : List UInt32) : List ℕ := [(seq.getLastD 0).toNat]

theorem echoEngine_predicts (cfg : Config) (prompt : List UInt32) (eos : UInt32) :
    Predicts (echoEngine cfg prompt eos).sampling (fun _ ids o => o = ids) lastToken := by
  rintro before ids o hn rfl
  refine ⟨rfl, ?_⟩
  have hlast : (before ++ o).getLastD 0 = o.getD (o.length - 1) 0 := by
    have h : (before ++ o.take (o.length - 1 + 1)).getLastD 0 = _ := getLastD_take (by omega)
    rwa [Nat.sub_add_cancel hn, List.take_length] at h
  rw [lastToken, hlast]
  rfl

def echoParams : SamplingParams ℕ ℕ :=
  { temperature := 1, topP := none, topK := none, maxTokens := 10, repeatPenalty := 1
    repeatLastN := 64, seed := 0, stop := [] }

/-- It stops at 21. -/
def countingEngine : Engine Dense (List UInt32) (List UInt32) ℕ ℕ Unit :=
  echoEngine twoBlocks samplePrompt 21

set_option synthInstance.maxSize 256 in
/-- Two generations for one chat: the second takes 16 tokens of its prompt from the cache, and
    delivers what generation without a cache delivers. -/
theorem generate_ideal_reused : ∃ (history : List (Generation ℕ ℕ)) (s : EngineState Dense),
    (generateLts noHeader (fun _ => .error "no header") sampleHash countingEngine .f32).Run history s ∧
    ∃ g ∈ history, ∃ stats, g.reply = some (.ok stats) ∧ stats.reusedPrefixTokens = 16 ∧
      g.pieces.length = 4 ∧ countingEngine.ideal lastToken echoParams samplePrompt =
        (g.pieces, some (stats.finishReason, stats.completionTokens)) := by
  have hrun : wp (ofExcept (Cache.new twoBlocks .f32) : Prog Unit (Cache Dense))
      (fun fresh _ =>
        InStep (suffixBlocks noHeader sampleHash countingEngine.model
          (countingEngine.kvCache.session samplePrompt) ⟨fresh, []⟩) ∧
        wp (countingEngine.generate noHeader (fun _ => .error "no header") sampleHash [] echoParams)
          (fun _ s₁ => s₁.delivered.length = 4 ∧
            InStep (suffixBlocks noHeader sampleHash countingEngine.model
              (countingEngine.kvCache.session samplePrompt) s₁.traced) ∧
            wp (countingEngine.generate noHeader (fun _ => .error "no header") sampleHash [] echoParams)
              (fun stats s₂ => stats.reusedPrefixTokens = 16 ∧
                (s₂.delivered.drop 4).length = 4 ∧ s₂.delivered.take 4 = s₁.delivered)
              (fun _ _ => False) s₁)
          (fun _ _ => False) ⟨false, ⟨fresh, []⟩, [], []⟩) (fun _ _ => False) () := by
    decide +kernel
  obtain ⟨fresh, _, hnew, hstep₁, hfirst⟩ := hrun.returns
  obtain ⟨stats₁, s₁, hs₁, -, hstep₂, hsecond⟩ := hfirst.returns
  obtain ⟨stats₂, s₂, hs₂, hreused, hfour, htake⟩ := hsecond.returns
  have hsound : ∀ s : EngineState Dense,
      InStep (suffixBlocks noHeader sampleHash countingEngine.model
        (countingEngine.kvCache.session samplePrompt) s.traced) →
      Sound countingEngine sampleHash (· ∈ [samplePrompt]) sampleRow noHeader [] s := fun s hs =>
    ⟨fun h => by cases h; exact List.mem_singleton_self _, fun h => (by cases h),
      fun h => by cases h; exact hs⟩
  have hr : ((generateLts noHeader (fun _ => .error "no header") sampleHash countingEngine
      .f32).restrict fun s g => Sound (countingEngine.over g.remote) sampleHash (· ∈ [samplePrompt])
        sampleRow noHeader g.messages s).Run
      [⟨[], echoParams, none, some (.ok stats₂), s₂.delivered.drop 4⟩,
        ⟨[], echoParams, none, some (.ok stats₁), s₁.delivered⟩] s₂ :=
    .step (.step (.start ⟨fresh, (ofExcept_eq_ok.mp hnew).1, rfl⟩) ⟨⟨hs₁, rfl⟩, hsound _ hstep₁⟩)
      ⟨⟨hs₂, by rw [← htake, List.take_append_drop]⟩, hsound _ hstep₂⟩
  have hcollide : NoCollision sampleHash blockSize (· ∈ [samplePrompt]) := by decide +kernel
  have hseed : NoSeed sampleHash blockSize (· ∈ [samplePrompt]) := by decide +kernel
  have hideal := generate_ideal (echoModel_evaluates rfl rfl) (echoEngine_predicts _ _ _) hcollide hseed
    (by decide) hr _ List.mem_cons_self
  obtain ⟨prompt, hprompt, -, hpieces⟩ := hideal.returned rfl
  cases hprompt
  exact ⟨_, _, hr.of_restrict, _, List.mem_cons_self, stats₂, rfl, hreused, hfour, hpieces⟩

end Flour
