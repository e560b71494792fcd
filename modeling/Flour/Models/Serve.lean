/-
  File:      Flour/Models/Serve.lean
  Subject:   From a checkpoint to the text that a client reads.

  * `CausalLM.engine` -- the engine over a loaded model; `CausalLM.lastLogits` -- the logits that the
    transformer of its weights, which has no cache, gives after a sequence;
  * **`served_transformer`** -- in every run of a server over such an engine, every answer is sampled,
    token by token, from the logits of that transformer for the whole sequence;
  * **`first_chat_served`** -- and the first chat on a new server, if it fits in the window, is
    answered: nothing between the checkpoint and the answer fails.
-/
import Flour.Api.Chat
import Flour.Engine.Penalty
import Flour.Engine.Sampling
import Flour.Engine.Served
import Flour.Models.Batches

namespace Flour.Models

open Flour.Backend Flour.Kv Flour.Lib Flour.Lib.Prog Flour.Api
open ExactCandle

/-! ## 1. The engine -/

section Engine

variable {K T D R : Type} [Field K] [LinearOrder K] [HasElementary K] [Candle T] [ExactCandle K T]
  [NnCandle K T]

omit [Candle T] [LinearOrder K] [HasElementary K] [Field K] in
/-- `logits.dim(1)`. -/
def dim1 (t : T) : Except String ℕ :=
  match dims t with
  | _ :: n :: _ => .ok n
  | _ => .error (NnCandle.dim1Error t)

/-- The parts of an engine that are not its model. -/
structure Parts (K D R : Type) where
  tokenizer : Tokenizer
  chatTemplate : ChatTemplate
  eosTokenId : EosTokenId
  kvCache : KvCacheManager
  new : UInt64 → R
  sample : R → List K → SamplingParams K D → Option (UInt32 × R)

/-- The engine over a model. -/
def CausalLM.engine (m : CausalLM K T) (tables : RopeTables T)
    (penalty : List K → K → List UInt32 → List K) (parts : Parts K D R) : Engine T T T K D R where
  model := m.staged tables
  tokenizer := parts.tokenizer
  chatTemplate := parts.chatTemplate
  eosTokenId := parts.eosTokenId
  sampling :=
    { dim1
      row := NnCandle.row
      applyRepeatPenalty := penalty
      new := parts.new
      sample := parts.sample }
  kvCache := parts.kvCache

omit [LinearOrder K] [NnCandle K T] [Candle T] in
/-- The logits after a sequence. -/
def CausalLM.lastLogits (m : CausalLM K T) (seq : List UInt32) : List K :=
  (List.range m.cfg.vocabSize).map (m.decoder.logits (elementary K) seq (seq.length - 1))

/-- The text of the transformer: every token from the logits of the whole sequence, and every logit
    lowered on its own. -/
def CausalLM.textbook (m : CausalLM K T) (tables : RopeTables T) (parts : Parts K D R) :
    Engine T T T K D R := m.engine tables penalised parts

/-- The tokenizer knows the vocabulary, and the sampler stays in it. -/
structure Parts.Speak (parts : Parts K D R) (cfg : Config K) (params : SamplingParams K D) : Prop where
  decode {id : UInt32} (h : id.toNat < cfg.vocabSize) : ∃ piece, parts.tokenizer.decode [id] = .ok piece
  sample (r : R) {logits : List K} (h : logits.length = cfg.vocabSize) :
    ∃ id r', parts.sample r logits params = some (id, r') ∧ id.toNat < cfg.vocabSize

variable {m : CausalLM K T} {tables : RopeTables T} {parts : Parts K D R} {dt : DType}

theorem CausalLM.predicts [LawfulNnCandle K T] (penalty : List K → K → List UInt32 → List K) :
    Predicts (m.engine tables penalty parts).sampling (m.Logits dt) m.lastLogits := by
  intro before ids o hn h
  refine ⟨?_, ?_⟩
  · show dim1 o = _
    unfold dim1
    rw [h.dims]
  · have hrow := LawfulNnCandle.row_result h (Nat.sub_lt hn Nat.one_pos)
    rw [show (m.engine tables penalty parts).sampling.row = NnCandle.row from rfl, hrow,
      CausalLM.lastLogits, List.length_append, Nat.add_sub_assoc hn]

theorem Parts.Speak.engine [LawfulNnCandle K T] {params : SamplingParams K D}
    (h : parts.Speak m.cfg params) (hm : m.Formed dt) (tables : RopeTables T) :
    Speaks (m.textbook tables parts) params m.cfg.vocabSize fun id => id.toNat < m.cfg.vocabSize :=
  ⟨fun hids => LawfulNnCandle.embedding_ok hm.embedTokens hids, h.decode,
    fun _ _ _ => List.length_mapIdx, h.sample⟩

omit [LinearOrder K] [NnCandle K T] [Candle T] in
theorem CausalLM.length_lastLogits (seq : List UInt32) :
    (m.lastLogits seq).length = m.cfg.vocabSize := by
  rw [CausalLM.lastLogits, List.length_map, List.length_range]

end Engine

/-- The first generation on a new cache, without a store, is sound. -/
theorem sound_new {T H O F D R : Type} [Candle T] {e : Engine T H O F D R} {rowOf : RowOf}
    {kv : Kv.Config} {dt : DType} {c : Kv.Cache T} {blockHash : BlockHash}
    {prompts : List UInt32 → Prop} {fromSlice : List UInt8 → Except String KvBundleMeta}
    {messages : List ChatMessage} {prompt : List UInt32} (hkv : Kv.Cache.new kv dt = .ok c)
    (hremote : e.kvCache.remote = none)
    (hprompt : e.tokenizer.encode (e.chatTemplate.render messages) = .ok prompt)
    (hp : prompts prompt) :
    Sound e blockHash prompts rowOf fromSlice messages ⟨false, ⟨c, []⟩, [], []⟩ := by
  have hsession : (e.kvCache.session prompt).fetched = none := by
    cases hf : (e.kvCache.session prompt).fetched with
    | none => rfl
    | some bytes =>
      obtain ⟨store, _, hstore, -⟩ := fetched_session hf
      cases hremote.symm.trans hstore
  exact
    { prompt := fun h => Except.ok.inj (hprompt.symm.trans h) ▸ hp
      store := fun h => by cases hremote.symm.trans h
      inStep := fun h => by
        obtain rfl := Except.ok.inj (hprompt.symm.trans h)
        exact inStep_new hkv hsession }

/-! ## 2. Every run -/

section Served

variable {K T D R J : Type} [Field K] [LinearOrder K] [IsStrictOrderedRing K] [HasElementary K]
  [LawfulElementary K] [Candle T] [LawfulCandle T] [ExactCandle K T] [LawfulExactCandle K T]
  [NnCandle K T] [LawfulNnCandle K T] [Encoded K T] [HostCandle T] [OfNat D 1] {dt : DType}
  {cfg : Config K} {vb : VarBuilder T} {m : CausalLM K T} {tables : RopeTables T} {c : Kv.Cache T}
  {parts : Parts K D R} {order : List UInt32 → List UInt32} {blockHash : BlockHash}
  {prompts : List UInt32 → Prop} {fromSlice : List UInt8 → Except String KvBundleMeta}
  {toVec : KvBundleMeta → Except String (List UInt8)}

/-- **The server speaks for the transformer.** In every run of a server over a model loaded from a
    checkpoint -- requests in any order, streamed or not, with whatever prefixes the cache holds and
    whatever honest stores answer -- every answer that a client has read to its end is the answer that
    is sampled from the transformer of the weights, which computes every token from the whole sequence;
    what was read of a stream before its end is a first part of that text. -/
theorem served_transformer (hvb : vb.Lawful dt) (hdt : IsFloat dt) (hv : cfg.Valid)
    (hload : CausalLM.load vb cfg = .ok m) (hnew : newCache cfg dt = .ok (tables, c))
    (horder : Enumerates order) (hc : NoCollision blockHash blockSize prompts)
    (hns : NoSeed blockHash blockSize prompts) (hlayers : cfg.numHiddenLayers ≠ 0) {json : Json J}
    (hj : json.Lawful) {history : List (Event K D)} {s : AppState T K D}
    (hr : ((chatLts fromSlice toVec blockHash (m.engine tables (applyRepeatPenalty order) parts)
      dt).restrict (SoundTask fromSlice blockHash prompts m.rowOf
        (m.engine tables (applyRepeatPenalty order) parts))).Run history s)
    {task : Task K D} {remote : Option RemoteGet} {pieces : List String}
    {reply : Option (Except String GenerationStats)} (hran : .ran task remote pieces reply ∈ history) :
    (∀ r, ReadsAnswer json task pieces reply r →
      idealAnswer (m.textbook tables parts) m.lastLogits task.messages task.params
        (task.includeUsage || !task.stream) = some r) ∧
    (reply ≠ none → ∀ id created seen, seen <+: task.events json id created pieces reply →
      ∃ rest, idealText (m.textbook tables parts) m.lastLogits task.messages task.params =
        (readEvents json seen).text ++ rest) := by
  obtain ⟨hm, rfl, ht, -⟩ := formed_of_load hvb hdt hload hnew
  have hideal := ran_ideal (staged_evaluates hdt hm hv ht)
    (CausalLM.predicts (applyRepeatPenalty order)) hc hns hlayers hr _ _ _ _ hran
  rw [applyRepeatPenalty_eq horder] at hideal
  refine ⟨fun r h => ?_, fun hreply id created seen hseen => ?_⟩
  · obtain ⟨stats, rfl, rfl⟩ := (answers_iff hj).mp h
    exact idealAnswer_of_ideal _ hideal
  · obtain ⟨rest, hrest⟩ := text_seen hj hseen
    obtain ⟨more, hmore⟩ := idealText_of_ideal hreply hideal
    exact ⟨rest ++ more, by rw [CausalLM.textbook, hmore, hrest, String.append_assoc]⟩

end Served

/-! ## 3. A chat -/

/-- Every text is three tokens long. The sampler is that of `LogitsSampler`. -/
def tinyParts : Parts ℚ ℚ (Set.Ico (0 : ℚ) 1) where
  tokenizer := ⟨fun _ => .ok [1, 2, 3], fun _ => .ok "la"⟩
  chatTemplate := .chatMl
  eosTokenId := .single 7
  kvCache := .localOnly "m"
  new := fun _ => LogitsSampler.smallestDraw
  sample := fun rng logits params =>
    some ((LogitsSampler.Idealised.uniform 16).sample rng logits params)

theorem tinyParts_speak (params : SamplingParams ℚ ℚ) : tinyParts.Speak tinyConfig params where
  decode _ := ⟨"la", rfl⟩
  sample rng logits h := by
    have hlen : logits.length = 16 := h
    have hlt := LogitsSampler.Idealised.sample_lt (.uniform 16) rng params
      (hlen ▸ by decide) (hlen ▸ by decide) (List.length_replicate.trans hlen.symm)
    exact ⟨_, _, rfl, h ▸ hlt⟩

theorem enumerates_dedup : Enumerates List.dedup := fun context =>
  ⟨List.nodup_dedup context, fun _ => List.mem_dedup⟩

def tinyRequest : ChatCompletionRequest ℚ where
  messages := [⟨"user", "sing"⟩]
  stream := some true
  temperature := none
  topP := none
  topK := none
  maxTokens := some 6
  seed := some 7
  stop := none
  streamOptions := none

def tinyTask : Task ℚ ℚ where
  messages := tinyRequest.messages
  params := ofRequest 0 tinyRequest
  includeUsage := false
  modelId := "m"
  stream := true

/-- A prompt of less than a block has no hash. -/
theorem noCollision_tiny : NoCollision sampleHash blockSize (· = [1, 2, 3]) := by
  rintro _ _ a _ rfl - ha
  exact absurd ha (Nat.not_lt_zero a)

theorem noSeed_tiny : NoSeed sampleHash blockSize (· = [1, 2, 3]) := by
  rintro _ a rfl ha
  exact absurd ha (Nat.not_lt_zero (a + 1))

/-- A stream of it, which is read to its end. -/
theorem served_transformer_tiny : ∃ (m : CausalLM ℚ (Exact ℚ)) (tables : RopeTables (Exact ℚ))
    (history : List (Event ℚ ℚ)) (s : AppState (Exact ℚ) ℚ ℚ),
    CausalLM.load tinyCheckpoint tinyConfig = .ok m ∧
    (chatLts noHeader (fun _ => .error "no header") sampleHash
      (m.engine tables (applyRepeatPenalty List.dedup) tinyParts) .f32).Run history s ∧
    ∃ pieces stats r, .ran tinyTask none pieces (some (.ok stats)) ∈ history ∧
      ReadsAnswer plainJson tinyTask pieces (some (.ok stats)) r ∧
      idealAnswer (m.textbook tables tinyParts) m.lastLogits tinyTask.messages tinyTask.params false =
        some r := by
  obtain ⟨m, tables, c, hload, hnew⟩ := tiny_loads
  obtain ⟨hm, hcfg, ht, hkv⟩ := formed_of_load tinyCheckpoint_lawful isFloat_f32 hload hnew
  rw [← hcfg] at ht hkv
  let e := m.engine tables (applyRepeatPenalty List.dedup) tinyParts
  have he : e = m.textbook tables tinyParts := by
    unfold e
    rw [applyRepeatPenalty_eq enumerates_dedup]
    rfl
  have hprompt : e.tokenizer.encode (e.chatTemplate.render tinyTask.messages) = .ok [1, 2, 3] := rfl
  have hsound : Sound (e.over none) sampleHash (· = [1, 2, 3]) m.rowOf noHeader tinyTask.messages
      ⟨false, ⟨c, []⟩, [], []⟩ := sound_new hkv rfl hprompt rfl
  have hfresh : e.Fresh .f32 ⟨false, ⟨c, []⟩, [], []⟩ := ⟨c, hkv, rfl⟩
  have hheld : heldBlocks c.kvs.registry = 0 := by
    rw [registry_new hkv]
    rfl
  have hspeaks : Speaks e tinyTask.params m.cfg.vocabSize fun id => id.toNat < m.cfg.vocabSize :=
    he ▸ (hcfg ▸ tinyParts_speak tinyTask.params :
      tinyParts.Speak m.cfg tinyTask.params).engine hm tables
  obtain ⟨stats, s₁, hs₁, -⟩ := (wp_generate_served
    (staged_evaluates isFloat_f32 hm (hcfg ▸ tinyConfig_valid) ht)
    (CausalLM.predicts (applyRepeatPenalty List.dedup)) hspeaks CausalLM.length_lastLogits
    noCollision_tiny noSeed_tiny
    (by show m.cfg.numHiddenLayers ≠ 0; rw [hcfg]; decide) rfl hfresh.usable rfl hheld hprompt hsound
    (by decide) (by simp [hcfg, tinyConfig]) (by show _ ≤ m.cfg.maxSeqLen; rw [hcfg]; decide)).returns
  let L := (chatLts noHeader (fun _ => .error "no header") sampleHash e .f32).restrict
    (SoundTask noHeader sampleHash (· = [1, 2, 3]) m.rowOf e)
  have h₁ : L.Run [.received tinyRequest (.ok tinyTask)]
      ⟨⟨false, ⟨c, []⟩, [], []⟩, false, 0, [tinyTask]⟩ :=
    .step (.start (s := ⟨⟨false, ⟨c, []⟩, [], []⟩, false, 0, []⟩) ⟨hfresh, rfl, rfl⟩)
      ⟨⟨0, rfl, rfl⟩, trivial⟩
  have h₂ : L.Run [.ran tinyTask none s₁.delivered (some (.ok stats)),
      .received tinyRequest (.ok tinyTask)] ⟨s₁, false, 0, []⟩ :=
    .step h₁ ⟨⟨⟨[], [], rfl, rfl⟩, rfl, runTask_of_step rfl ⟨hs₁, rfl⟩ rfl⟩, fun _ => hsound⟩
  have hans := (@answers_iff _ _ _ _ tinyTask s₁.delivered _ _ plainJson_lawful).mpr ⟨stats, rfl, rfl⟩
  have hideal := served_transformer tinyCheckpoint_lawful isFloat_f32 tinyConfig_valid hload hnew
    enumerates_dedup noCollision_tiny noSeed_tiny (by decide) plainJson_lawful h₂ List.mem_cons_self
  exact ⟨m, tables, _, _, hload, h₂.of_restrict, s₁.delivered, stats, _, List.mem_cons_self, hans,
    hideal.1 _ hans⟩

end Flour.Models
