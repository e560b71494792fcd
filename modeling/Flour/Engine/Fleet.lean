/-
  File:      Flour/Engine/Fleet.lean
  Subject:   Engines that share a store of published prefixes.

  * `Fleet`, `fleetLts` -- any number of engines and all that they have put into the store. A
    generation is one step, at its end: engines share nothing but the store, of which nothing is
    taken back. The store may answer late, lose an object, fail, or return one object for another;
    it never answers with bytes that nobody put.
  * `Modelled` -- an engine with the values its model computes; engines of one model id compute the
    same (`SameModel`), engines of different ids may differ in all.
  * **`HonestPut.honestBytes`** -- what one engine puts is honest to every other: it decodes, and
    under their model id to rows of the reader's own model;
  * **`fleet_ideal`** -- so each generation of each engine delivers what generation without a cache
    delivers, wherever the rows that it reused were computed.
-/
import Flour.Engine.Ideal
import Mathlib.Logic.Function.Basic

namespace Flour

open Kv Candle Flour.Lib Flour.Lib.Prog

/-! ## 1. What is put -/

section Puts

variable {T : Type} [Candle T] {cfg cfg' : Config} {d : BundleDType} {rowOf : RowOf}

/-- The elements of the rows of the prompts are bit patterns of an element type. -/
def RowBits (d : BundleDType) (prompts : List UInt32 → Prop) (rowOf : RowOf) : Prop :=
  ∀ layer prompt pos, prompts prompt → pos < prompt.length →
    ∀ row, row = (rowOf layer (prompt.take (pos + 1))).1 ∨
        row = (rowOf layer (prompt.take (pos + 1))).2 →
      ∀ xs ∈ row, ∀ x ∈ xs, x < 256 ^ d.sizeInBytes

/-- The elements of a tensor are in its rows. -/
theorem elem_mem_row {t : T} {i j k : ℕ} (hi : i < cfg.numKeyValueHeads) (hk : k < cfg.headDim) :
    ∃ xs ∈ row cfg.numKeyValueHeads cfg.headDim t j, elem t [i, j, k] ∈ xs :=
  ⟨_, List.mem_map.mpr ⟨i, List.mem_range.mpr hi, rfl⟩,
    List.mem_map.mpr ⟨k, List.mem_range.mpr hk, rfl⟩⟩

/-- An honest bundle that was exported can be written. -/
theorem Kv.Exported.encodable_of_honest {c : Cache T} {modelId : String}
    {prompts : List UInt32 → Prop} {prompt : List UInt32} {n : ℕ} {bundle : KvBundle T}
    (h : Exported cfg d c.kvs modelId prompt n bundle) (hh : HonestBundle cfg rowOf bundle)
    (hp : prompts prompt) (hbits : RowBits d prompts rowOf) : bundle.Encodable := by
  refine h.encodable_of_bits fun block hblock lb hlb t ht i j k hi hj hk => ?_
  obtain ⟨b, hb⟩ := List.getElem?_of_mem hblock
  obtain ⟨layer, hlayer⟩ := List.getElem?_of_mem hlb
  have hpos : b * blockSize + j < n := by
    have hlt : b < n / blockSize := by
      rw [← h.length]
      exact (List.getElem?_eq_some_iff.mp hb).1
    have hle := Nat.mul_le_of_le_div _ _ _ hlt
    rw [Nat.succ_mul] at hle
    omega
  have hrow := hh b layer block lb hb hlayer j hj
  have htokens : bundle.header.tokenIds = prompt.take n := by rw [h.header]; rfl
  rw [htokens, List.take_take, Nat.min_eq_left hpos] at hrow
  obtain ⟨hkrow, hvrow⟩ := Prod.mk.inj hrow
  obtain ⟨xs, hxs, hx⟩ := elem_mem_row (t := t) (j := j) hi hk
  have hlen := Nat.lt_of_lt_of_le hpos h.covers
  rcases ht with rfl | rfl
  · exact hbits layer prompt _ hp hlen _ (Or.inl rfl) xs (hkrow ▸ hxs) _ hx
  · exact hbits layer prompt _ hp hlen _ (Or.inr rfl) xs (hvrow ▸ hxs) _ hx

/-- What is the same as an honest bundle of its shape is honest. -/
theorem Kv.HonestBundle.same {c : KvCache T} {modelId : String} {prompt : List UInt32} {n : ℕ}
    {bundle bundle' : KvBundle T} (h : Exported cfg d c modelId prompt n bundle)
    (hh : HonestBundle cfg rowOf bundle) (hsame : bundle.Same bundle') :
    HonestBundle cfg rowOf bundle' := by
  intro b layer block' lb' hblock' hlb' j hj
  obtain ⟨block, hblock, -, hlayers⟩ := exists_of_forall₂ hsame.2 hblock'
  obtain ⟨lb, hlb, hk, hv⟩ := exists_of_forall₂ hlayers hlb'
  have hrows := (h.blocks b block hblock).rows layer lb hlb
  have hrow := hh b layer block lb hblock hlb j hj
  rw [layerKv] at hrow ⊢
  rw [hk.row hrows.k hj, hv.row hrows.v hj, hsame.1]
  exact hrow

/-- **What an engine puts is honest** to every engine that computes the same rows under its id. -/
theorem HonestPut.honestBytes [LawfulCandle T] [HostCandle T] [LawfulHostCandle T]
    {toVec : KvBundleMeta → Except String (List UInt8)}
    {fromSlice : List UInt8 → Except String KvBundleMeta} {prompts : List UInt32 → Prop}
    {modelId modelId' : String} {rowOf' : RowOf} {bytes : List UInt8}
    (h : HonestPut T toVec cfg d.toCandle prompts rowOf modelId bytes)
    (hbits : RowBits d prompts rowOf) (hheads : 0 < cfg.numKeyValueHeads) (hdim : 0 < cfg.headDim)
    (hjson : ∀ prompt, prompts prompt → KvBundleCodec.JsonRoundTrips toVec fromSlice
      (prefixHeader cfg d modelId prompt (exportable prompt)))
    (hgrant : ∀ prompt, prompts prompt →
      (prefixHeader cfg d modelId prompt (exportable prompt)).Granted T)
    (hmem : bytes.length ≤ usizeMax)
    (hsame : modelId = modelId' → rowOf = rowOf' ∧ cfg.numKeyValueHeads = cfg'.numKeyValueHeads ∧
      cfg.headDim = cfg'.headDim) :
    HonestBytes T fromSlice modelId' cfg' rowOf' bytes := by
  obtain ⟨c, d', prompt, bundle, hd, hprompt, hf, hexp, hh, henc⟩ := h
  obtain rfl := BundleDType.toCandle_inj.mp hd
  have hencodable := hexp.encodable_of_honest hh hprompt hbits
  have hround := hjson prompt hprompt
  have hgrant := hgrant prompt hprompt
  generalize exportable prompt = n at hexp hround hgrant
  rw [← hexp.header] at hround hgrant
  -- in memory there are at least as many bytes as tensors, and as positions of one tensor
  have hpayload := le_trans (hexp.payload_le hencodable hround henc) hmem
  have hinMemory : InMemory cfg n bytes := by
    rw [hexp.header] at hpayload
    have hn : 0 < n / blockSize := Nat.div_pos
      (Nat.le_of_dvd (Nat.pos_of_ne_zero hexp.pos) (Nat.dvd_of_mod_eq_zero hexp.aligned)) (by decide)
    have htensors : 0 < n / blockSize * cfg.numHiddenLayers * 2 :=
      Nat.mul_pos (Nat.mul_pos hn (Nat.pos_of_ne_zero hexp.layers)) Nat.two_pos
    have hbytes : cfg.numKeyValueHeads * blockSize ≤
        cfg.numKeyValueHeads * blockSize * cfg.headDim * d'.sizeInBytes :=
      le_trans (Nat.le_mul_of_pos_right _ hdim) (Nat.le_mul_of_pos_right _ d'.sizeInBytes_pos)
    have hpos : 0 < cfg.numKeyValueHeads * blockSize := Nat.mul_pos hheads (by decide)
    change n / blockSize * cfg.numHiddenLayers * 2 *
      (cfg.numKeyValueHeads * blockSize * cfg.headDim * d'.sizeInBytes) ≤ usizeMax at hpayload
    refine ⟨?_, ?_, hmem⟩
    · exact le_trans hbytes (le_trans (Nat.le_mul_of_pos_left _ htensors) hpayload)
    · exact le_trans (Nat.le_mul_of_pos_right _ (lt_of_lt_of_le hpos hbytes)) hpayload
  obtain ⟨bytes', bundle', henc', hdec, hsame'⟩ := KvBundleCodec.decode_encode.1 bundle hencodable
    hround (hexp.sizesFit hencodable hround henc hinMemory) hexp.allocates hgrant
  rw [henc] at henc'
  cases henc'
  refine (wp_of_ok hdec).mpr fun hid => ?_
  have hhonest := hh.same hexp hsame'
  rw [hsame'.1, hexp.header] at hid
  obtain ⟨rfl, hheads', hdim'⟩ := hsame hid
  intro b layer block lb hblock hlb j hj
  have hrow := hhonest b layer block lb hblock hlb j hj
  rw [layerKv] at hrow ⊢
  rwa [← hheads', ← hdim']

end Puts

/-! ## 2. Fleets -/

section Fleet

variable {T H O F D R ι : Type} [Candle T] [HostCandle T] [BEq F] [OfNat F 1]

/-- Engines, and all that was put into their store. -/
structure Fleet (T ι : Type) where
  nodes : ι → EngineState T
  store : List (String × List UInt8)

/-- A store answers with bytes that were put, if it answers. -/
def Answers (store : List (String × List UInt8)) (remote : Option RemoteGet) : Prop :=
  ∀ get, remote = some get → ∀ key bytes, get key = .ok (some bytes) → ∃ put ∈ store, put.2 = bytes

/-- The generations of a fleet. What is put is in memory, so that its length is a `usize`. -/
def fleetLts [DecidableEq ι] (fromSlice : List UInt8 → Except String KvBundleMeta)
    (toVec : KvBundleMeta → Except String (List UInt8)) (blockHash : BlockHash)
    (e : ι → Engine T H O F D R) (d : ι → BundleDType) : Lts (Fleet T ι) (ι × Generation F D) where
  init f := (∀ i, (e i).Fresh (d i).toCandle (f.nodes i)) ∧ f.store = []
  step f ev f' := ∃ s' new,
    (generateLts fromSlice toVec blockHash (e ev.1) (d ev.1).toCandle).step (f.nodes ev.1) ev.2 s' ∧
    Answers f.store ev.2.remote ∧
    s'.puts = (f.nodes ev.1).puts ++ new ∧ (∀ put ∈ new, put.2.length ≤ usizeMax) ∧
    f' = ⟨Function.update f.nodes ev.1 s', f.store ++ new⟩

/-- An engine, with what its model computes. -/
structure Modelled (e : Engine T H O F D R) (d : BundleDType) (prompts : List UInt32 → Prop)
    (rowOf : RowOf)
    (hidden : ℕ → List UInt32 → List UInt32 → H → Prop)
    (logits : List UInt32 → List UInt32 → O → Prop) (ref : List UInt32 → List F) : Prop where
  evaluates : Evaluates e.model d.toCandle rowOf hidden logits
  predicts : Predicts e.sampling logits ref
  bits : RowBits d prompts rowOf
  layers : e.model.cfg.numHiddenLayers ≠ 0
  heads : 0 < e.model.cfg.numKeyValueHeads
  dim : 0 < e.model.cfg.headDim

/-- Engines of one model id compute the same rows, of one shape. -/
def SameModel (e : ι → Engine T H O F D R) (rowOf : ι → RowOf) : Prop :=
  ∀ i j, (e i).kvCache.modelId = (e j).kvCache.modelId → rowOf i = rowOf j ∧
    (e i).model.cfg.numKeyValueHeads = (e j).model.cfg.numKeyValueHeads ∧
    (e i).model.cfg.headDim = (e j).model.cfg.headDim

/-- What an event asks of its prompt. -/
def Admitted (fromSlice : List UInt8 → Except String KvBundleMeta) (blockHash : BlockHash)
    (prompts : List UInt32 → Prop) (e : ι → Engine T H O F D R) (f : Fleet T ι)
    (ev : ι × Generation F D) : Prop :=
  ∀ prompt, (e ev.1).tokenizer.encode ((e ev.1).chatTemplate.render ev.2.messages) = .ok prompt →
    prompts prompt ∧ InStep (suffixBlocks fromSlice blockHash (e ev.1).model
      (((e ev.1).over ev.2.remote).kvCache.session prompt) (f.nodes ev.1).traced)

variable [DecidableEq ι] [LawfulCandle T] [LawfulHostCandle T] {e : ι → Engine T H O F D R}
  {d : ι → BundleDType} {rowOf : ι → RowOf} {hidden : ι → ℕ → List UInt32 → List UInt32 → H → Prop}
  {logits : ι → List UInt32 → List UInt32 → O → Prop} {ref : ι → List UInt32 → List F}
  {blockHash : BlockHash} {prompts : List UInt32 → Prop}
  {fromSlice : List UInt8 → Except String KvBundleMeta}
  {toVec : KvBundleMeta → Except String (List UInt8)}

/-- What holds of a fleet in every state: its engines are usable, and what was put is honest. -/
structure FleetOK (toVec : KvBundleMeta → Except String (List UInt8)) (blockHash : BlockHash)
    (prompts : List UInt32 → Prop) (e : ι → Engine T H O F D R) (d : ι → BundleDType)
    (rowOf : ι → RowOf) (f : Fleet T ι) : Prop where
  usable : ∀ i, Usable (e i).model.cfg (d i).toCandle blockHash prompts (rowOf i) (f.nodes i)
  honest : ∀ put ∈ f.store, put.2.length ≤ usizeMax ∧
    ∃ i, HonestPut T toVec (e i).model.cfg (d i).toCandle prompts (rowOf i) (e i).kvCache.modelId put.2

/-- **A step of a fleet.** -/
theorem fleet_step (hm : ∀ i, Modelled (e i) (d i) prompts (rowOf i) (hidden i) (logits i) (ref i))
    (hsame : SameModel e rowOf) (hc : NoCollision blockHash blockSize prompts)
    (hns : NoSeed blockHash blockSize prompts)
    (hjson : ∀ i prompt, prompts prompt → KvBundleCodec.JsonRoundTrips toVec fromSlice
      (prefixHeader (e i).model.cfg (d i) (e i).kvCache.modelId prompt (exportable prompt)))
    (hgrant : ∀ i prompt, prompts prompt →
      (prefixHeader (e i).model.cfg (d i) (e i).kvCache.modelId prompt (exportable prompt)).Granted T)
    {f f' : Fleet T ι} (h : FleetOK toVec blockHash prompts e d rowOf f) {ev : ι × Generation F D}
    (hs : (fleetLts fromSlice toVec blockHash e d).step f ev f')
    (ha : Admitted fromSlice blockHash prompts e f ev) :
    ev.2.Ideal (e ev.1) (ref ev.1) ∧ FleetOK toVec blockHash prompts e d rowOf f' := by
  obtain ⟨i, g⟩ := ev
  obtain ⟨s', new, hstep, hanswers, hputs, hsmall, rfl⟩ := hs
  -- what the store answers was put by an engine, and is honest to this one
  have hstore : ∀ get, g.remote = some get →
      Honest T fromSlice (e i).kvCache.modelId (e i).model.cfg (rowOf i) get := by
    intro get hget key bytes hbytes
    obtain ⟨put, hput, rfl⟩ := hanswers get hget key bytes hbytes
    obtain ⟨hlen, j, hhonest⟩ := h.honest put hput
    exact hhonest.honestBytes (hm j).bits (hm j).heads (hm j).dim (hjson j) (hgrant j) hlen
      (hsame j i)
  have hsound : Sound ((e i).over g.remote) blockHash prompts (rowOf i) fromSlice g.messages
      (f.nodes i) := ⟨fun hp => (ha _ hp).1, fun hget => hstore _ hget, fun hp => (ha _ hp).2⟩
  obtain ⟨⟨hideal, husable⟩, new', hputs', hnew'⟩ := generation_step (hm i).evaluates
    (hm i).predicts hc hns (hm i).layers (h.usable i) hsound hstep
  obtain rfl := List.append_cancel_left (hputs.symm.trans hputs')
  refine ⟨hideal, fun j => ?_, fun put hput => ?_⟩
  · show Usable _ _ _ _ _ (Function.update f.nodes i s' j)
    by_cases hj : j = i
    · subst hj
      rw [Function.update_self]
      exact husable
    · rw [Function.update_of_ne hj]
      exact h.usable j
  · rcases List.mem_append.mp hput with hold | hnew
    · exact h.honest put hold
    · exact ⟨hsmall put hnew, i, hnew' put hnew⟩

/-- **A fleet generates as if nothing were cached.** In every history of any number of engines that
    share a store, whatever of the objects put by any of them it returns, and when: a generation that
    returns has delivered exactly the pieces of generation without a cache by its own model, and
    reports their end; one that fails has delivered some first of them. The prompts have no colliding
    block hashes, prefills take the blocks of their suffix in step, and the allocator has the memory for
    the vectors of the prompts' bundles. -/
theorem fleet_ideal (hm : ∀ i, Modelled (e i) (d i) prompts (rowOf i) (hidden i) (logits i) (ref i))
    (hsame : SameModel e rowOf) (hc : NoCollision blockHash blockSize prompts)
    (hns : NoSeed blockHash blockSize prompts)
    (hjson : ∀ i prompt, prompts prompt → KvBundleCodec.JsonRoundTrips toVec fromSlice
      (prefixHeader (e i).model.cfg (d i) (e i).kvCache.modelId prompt (exportable prompt)))
    (hgrant : ∀ i prompt, prompts prompt →
      (prefixHeader (e i).model.cfg (d i) (e i).kvCache.modelId prompt (exportable prompt)).Granted T)
    {history : List (ι × Generation F D)} {f : Fleet T ι}
    (hr : ((fleetLts fromSlice toVec blockHash e d).restrict
      (Admitted fromSlice blockHash prompts e)).Run history f) :
    ∀ ev ∈ history, ev.2.Ideal (e ev.1) (ref ev.1) := by
  have hinv := hr.invariant (I := fun history f => (∀ ev ∈ history, ev.2.Ideal (e ev.1) (ref ev.1)) ∧
      FleetOK toVec blockHash prompts e d rowOf f)
    (fun f hf => by
      obtain ⟨hfresh, hempty⟩ : (∀ i, (e i).Fresh (d i).toCandle (f.nodes i)) ∧ f.store = [] := hf
      refine ⟨fun _ hev => absurd hev List.not_mem_nil, fun i => (hfresh i).usable, fun put hput => ?_⟩
      rw [hempty] at hput
      cases hput)
    fun history f ev f' _ h hstep => by
      obtain ⟨hideal, hok⟩ := fleet_step hm hsame hc hns hjson hgrant h.2 hstep.1 hstep.2
      exact ⟨List.forall_mem_cons.mpr ⟨hideal, h.1⟩, hok⟩
  exact hinv.1

end Fleet

/-! ## 3. Two engines -/

/-- An engine that counts on from the long prompt, up to 50. -/
def longEngine : Engine Dense (List UInt32) (List UInt32) ℕ ℕ Unit := echoEngine fourBlocks longPrompt 50

theorem longEngine_modelled : Modelled longEngine .f32 (· ∈ [longPrompt]) sampleRow
    (fun _ _ ids x => x = ids) (fun _ ids o => o = ids) lastToken where
  evaluates := echoModel_evaluates rfl rfl
  predicts := echoEngine_predicts _ _ _
  bits layer prompt pos hp hpos row hrow xs hxs x hx := by
    obtain rfl := List.mem_singleton.mp hp
    have hlast : ∀ pos, pos < 48 → ((longPrompt.take (pos + 1)).getLastD 0).toNat < 1000 := by
      decide +kernel
    have hsmall := hlast pos hpos
    rcases hrow with rfl | rfl
    all_goals
      obtain rfl := List.mem_singleton.mp hxs
      obtain rfl := List.mem_singleton.mp hx
      show _ < 256 ^ 4
      omega
  layers := by decide
  heads := Nat.one_pos
  dim := Nat.one_pos

/-- What the first of two engines is asked, and what the second. -/
def emptyStore : RemoteGet := fun _ => .ok none

theorem longPrompt_header :
    prefixHeader fourBlocks .f32 "m" longPrompt (exportable longPrompt) = headerMeta := by
  decide +kernel

theorem longPrompt_json : KvBundleCodec.JsonRoundTrips sampleHeaderText sampleHeader
    (prefixHeader fourBlocks .f32 "m" longPrompt (exportable longPrompt)) := by
  rw [longPrompt_header]
  exact ⟨headerJson, if_pos rfl, by decide +kernel, if_pos rfl⟩

theorem longPrompt_granted :
    (prefixHeader fourBlocks .f32 "m" longPrompt (exportable longPrompt)).Granted Dense := by
  rw [longPrompt_header]
  exact ⟨by decide, by decide⟩

set_option synthInstance.maxSize 256 in
/-- One engine computes a prompt and publishes it; another one, which computed nothing yet, imports
    32 tokens of it, and delivers what generation without a cache delivers. -/
theorem fleet_ideal_imported : ∃ (history : List (Bool × Generation ℕ ℕ)) (f : Fleet Dense Bool),
    (fleetLts sampleHeader sampleHeaderText sampleHash (fun _ : Bool => longEngine)
      fun _ => .f32).Run history f ∧
    ∃ ev ∈ history, ∃ stats, ev.1 = true ∧ ev.2.reply = some (.ok stats) ∧
      stats.remoteCacheImportedTokens = some 32 ∧ ev.2.pieces.length = 2 ∧
      longEngine.ideal lastToken echoParams longPrompt =
        (ev.2.pieces, some (stats.finishReason, stats.completionTokens)) := by
  have hrun : wp (ofExcept (Cache.new fourBlocks .f32) : Prog Unit (Cache Dense))
      (fun fresh _ =>
        InStep (suffixBlocks sampleHeader sampleHash longEngine.model
          ((longEngine.over (some emptyStore)).kvCache.session longPrompt) ⟨fresh, []⟩) ∧
        InStep (suffixBlocks sampleHeader sampleHash longEngine.model
          ((longEngine.over (some sampleStore)).kvCache.session longPrompt) ⟨fresh, []⟩) ∧
        wp ((longEngine.over (some emptyStore)).generate sampleHeader sampleHeaderText sampleHash []
            echoParams)
          (fun _ s₁ => s₁.puts.map Prod.snd = [sampleBundle])
          (fun _ _ => False) ⟨false, ⟨fresh, []⟩, [], []⟩ ∧
        wp ((longEngine.over (some sampleStore)).generate sampleHeader sampleHeaderText sampleHash []
            echoParams)
          (fun stats s₂ => stats.remoteCacheImportedTokens = some 32 ∧ s₂.delivered.length = 2 ∧
            s₂.puts.length = 0)
          (fun _ _ => False) ⟨false, ⟨fresh, []⟩, [], []⟩) (fun _ _ => False) () := by
    decide +kernel
  obtain ⟨fresh, _, hnew, hstep₁, hstep₂, hfirst, hsecond⟩ := hrun.returns
  obtain ⟨stats₁, s₁, hs₁, hputs₁⟩ := hfirst.returns
  obtain ⟨stats₂, s₂, hs₂, himported, htwo, hnone⟩ := hsecond.returns
  have hsmall : sampleBundle.length ≤ usizeMax := by decide +kernel
  have hbytes : ∀ put ∈ s₁.puts, put.2 = sampleBundle := fun put hput =>
    List.mem_singleton.mp (hputs₁ ▸ List.mem_map_of_mem (f := Prod.snd) hput)
  let start : Fleet Dense Bool := ⟨fun _ => ⟨false, ⟨fresh, []⟩, [], []⟩, []⟩
  let g₁ : Generation ℕ ℕ := ⟨[], echoParams, some emptyStore, some (.ok stats₁), s₁.delivered⟩
  let g₂ : Generation ℕ ℕ := ⟨[], echoParams, some sampleStore, some (.ok stats₂), s₂.delivered⟩
  have hr : ((fleetLts sampleHeader sampleHeaderText sampleHash (fun _ : Bool => longEngine)
      fun _ => .f32).restrict (Admitted sampleHeader sampleHash (· ∈ [longPrompt])
        fun _ => longEngine)).Run [(true, g₂), (false, g₁)]
      ⟨Function.update (Function.update start.nodes false s₁) true s₂, s₁.puts ++ []⟩ := by
    refine .step (.step (s := start) (.start ⟨fun _ => ⟨fresh, (ofExcept_eq_ok.mp hnew).1, rfl⟩, rfl⟩)
      ⟨⟨s₁, s₁.puts, ⟨hs₁, rfl⟩, ?_, rfl, fun put hput => ?_, rfl⟩, fun prompt hprompt => ?_⟩)
      ⟨⟨s₂, [], ⟨hs₂, rfl⟩, ?_, List.length_eq_zero_iff.mp hnone, fun _ hput => (by cases hput), rfl⟩,
        fun prompt hprompt => ?_⟩
    · rintro get hget key bytes hbytes
      cases hget
      cases hbytes
    · rw [hbytes put hput]
      exact hsmall
    · cases hprompt
      exact ⟨List.mem_singleton_self _, hstep₁⟩
    · rintro get hget key bytes hget'
      cases hget
      cases hget'
      obtain ⟨put, hput⟩ := List.exists_mem_of_length_pos (l := s₁.puts)
        (by rw [← List.length_map (f := Prod.snd), hputs₁]; exact Nat.one_pos)
      exact ⟨put, hput, hbytes put hput⟩
    · cases hprompt
      exact ⟨List.mem_singleton_self _, hstep₂⟩
  have hcollide : NoCollision sampleHash blockSize (· ∈ [longPrompt]) := by decide +kernel
  have hseed : NoSeed sampleHash blockSize (· ∈ [longPrompt]) := by decide +kernel
  have hideal := fleet_ideal (fun _ => longEngine_modelled) (fun _ _ _ => ⟨rfl, rfl, rfl⟩) hcollide
    hseed (fun _ prompt hp => List.mem_singleton.mp hp ▸ longPrompt_json)
    (fun _ prompt hp => List.mem_singleton.mp hp ▸ longPrompt_granted) hr _ List.mem_cons_self
  obtain ⟨prompt, hprompt, -, hpieces⟩ := hideal.returned rfl
  cases hprompt
  exact ⟨_, _, hr.of_restrict, _, List.mem_cons_self, stats₂, rfl, rfl, himported, htwo, hpieces⟩

end Flour
