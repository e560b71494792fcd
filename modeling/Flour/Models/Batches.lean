/-
  File:      Flour/Models/Batches.lean
  Subject:   A prompt in one pass, in pieces, or token by token: the logits are those of the
             transformer.

  * `InOrder` -- the blocks of the table, then the free ones, are the blocks of the pool in order.
    It holds of a new cache and is kept as long as nothing is freed, so the slots of a batch are a run
    and it finds its blocks;
  * `wp_forward_batch` -- one pass at any position of such a sequence;
  * **`forwardAll_transformer`** -- from a checkpoint and a new cache, any cut of a sequence into
    batches returns, and the batches together have the logits of the whole sequence.
-/
import Flour.Models.Causal
import Mathlib.Data.Rat.Denumerable
import Mathlib.Tactic.NormNum

namespace Flour.Models

open Flour.Backend Flour.Kv Flour.Lib Flour.Lib.Prog
open Flour.Lib.Transformer (Decoder)

/-! ## 1. Blocks in order -/

section Order

variable {T H O : Type} {cfg : Kv.Config} {c : Kv.Cache T} {n : ℕ}

/-- The blocks of the pool, in order. -/
def InOrder (c : KvCache T) : Prop :=
  c.table.blocks ++ c.allocator.free = List.range c.allocator.size

theorem InOrder.length (h : InOrder c.kvs) (hs : Sized cfg c) :
    c.kvs.table.blocks.length + c.kvs.allocator.numFree = divCeil cfg.maxSeqLen blockSize := by
  rw [← hs.size]
  simpa [BlockAllocator.numFree] using congrArg List.length h

/-- Tokens that fit find their blocks. -/
theorem InOrder.missing_le (h : InOrder c.kvs) (hs : Sized cfg c)
    (hn : c.kvs.table.len + n ≤ cfg.maxSeqLen) : c.missing n ≤ c.kvs.allocator.numFree := by
  have hlen := h.length hs
  have hmono := divCeil_mono hn blockSize
  unfold Cache.missing
  omega

/-- The next slots are a run. -/
theorem InOrder.nextSlots_eq (h : InOrder c.kvs) (hs : Sized cfg c)
    (hn : c.kvs.table.len + n ≤ cfg.maxSeqLen) :
    nextSlots c n = List.range' c.kvs.table.len n := by
  have hmissing := h.missing_le hs hn
  have hpages : c.kvs.table.blocks ++ c.kvs.allocator.free.take (c.missing n) =
      List.range (c.kvs.table.blocks.length + c.missing n) := by
    rw [← List.take_length_add_append, h, List.take_range, Nat.min_eq_left]
    have hlen := h.length hs
    rw [hs.size]
    omega
  unfold nextSlots
  rw [hpages]
  refine (List.map_congr_left fun pos hpos => ?_).trans (List.map_id _)
  have hlt : pos / blockSize < c.kvs.table.blocks.length + c.missing n := by
    have hpos : pos < c.kvs.table.len + n := (List.mem_range'_1.mp hpos).2
    have hpage : pos / blockSize < divCeil (c.kvs.table.len + n) blockSize :=
      (lt_divCeil_iff (by decide)).mpr (lt_of_le_of_lt (Nat.div_mul_le_self _ _) hpos)
    unfold Cache.missing
    omega
  unfold Lib.translate
  rw [List.getD_eq_getElem _ _ (by simpa using hlt), List.getElem_range]
  exact Nat.div_add_mod' pos blockSize

theorem InOrder.runsSafe (h : InOrder c.kvs) (hs : Sized cfg c)
    (hn : c.kvs.table.len + n ≤ cfg.maxSeqLen) : RunsSafe 0 (nextSlots c n) := by
  rw [h.nextSlots_eq hs hn]
  refine runsSafe_iff_forall.mpr fun j k hjk hk hj => ?_
  have hk : k < n := by simpa using hk
  simp only [List.getElem?_range', hk, lt_of_le_of_lt hjk hk, Option.some.injEq] at hj ⊢
  omega

theorem InOrder.grown {c' : KvCache T} {ids : List ℕ} (h : InOrder c.kvs)
    (hp : KvCache.Pushed c.kvs c' ids) (htaken : c.kvs.allocator.free = ids ++ c'.allocator.free) :
    InOrder c' := by
  unfold InOrder at *
  rw [hp.size, hp.blocks, List.append_assoc, ← htaken, h]

variable [Candle T]

theorem inOrder_new {dtype : DType} (h : Kv.Cache.new cfg dtype = .ok c) : InOrder c.kvs := by
  obtain ⟨_, _, h⟩ := bind_eq_ok.mp h
  obtain ⟨kvs, hkvs, h⟩ := bind_eq_ok.mp h
  cases h
  obtain ⟨pool, _, hkvs⟩ := bind_eq_ok.mp hkvs
  cases hkvs
  simp [InOrder, BlockTable.new, BlockAllocator.new, BlockAllocator.size]

theorem table_new {dtype : DType} (h : Kv.Cache.new cfg dtype = .ok c) :
    c.kvs.table = BlockTable.new blockSize := by
  obtain ⟨_, _, h⟩ := bind_eq_ok.mp h
  obtain ⟨kvs, hkvs, h⟩ := bind_eq_ok.mp h
  cases h
  obtain ⟨pool, _, hkvs⟩ := bind_eq_ok.mp hkvs
  cases hkvs
  rfl

section New

variable {dtype : DType} {blockHash : BlockHash} {prompt : List UInt32}
  {fromSlice : List UInt8 → Except String KvBundleMeta}

omit [Candle T] in
/-- Nothing is freed and nothing found. -/
theorem wp_resetAndMatch_new (hblocks : c.kvs.table.blocks = [])
    (hregistry : c.kvs.registry = PrefixRegistry.new) :
    wp (resetAndMatch blockHash prompt) (fun _ c' => c'.kvs.allocator = c.kvs.allocator)
      (fun _ _ => False) c := by
  have hget : ∀ h tokens, c.kvs.registry.get h tokens = none := fun h tokens => by
    rw [hregistry]
    rfl
  unfold resetAndMatch
  rw [wp_bind]
  refine Cache.wp_onKvs.mpr ?_
  unfold KvCache.resetSequence
  rw [wp_bind, wp_get, hblocks]
  show wp (Cache.matchPrefix blockHash prompt) _ _ _
  refine Cache.wp_onKvs.mpr ?_
  unfold KvCache.matchPrefix
  rw [wp_bind, wp_get, wp_bind]
  dsimp only
  cases KvCache.maxReusable c.kvs.table.clear.blockSize prompt.length with
  | zero => exact rfl
  | succ n =>
    rw [KvCache.matchBlocks, wp_bind, wp_get]
    simp only [hget]
    exact rfl

/-- The blocks that a prefill on a new cache takes are in step. -/
theorem inStep_new {m : Kv.CausalLM T H O} (hnew : Kv.Cache.new cfg dtype = .ok c) {s : KvSession}
    (hs : s.fetched = none) :
    InStep (suffixBlocks fromSlice blockHash m s ⟨c, []⟩) := by
  have hblocks : c.kvs.table.blocks = [] := by
    rw [table_new hnew]
    rfl
  have hfree : c.kvs.allocator.free = List.range c.kvs.allocator.size := by
    have horder := inOrder_new hnew
    rwa [InOrder, hblocks, List.nil_append] at horder
  have hreuse : wp (reuse fromSlice blockHash s)
      (fun _ t₁ => t₁.cache.kvs.allocator = c.kvs.allocator) (fun _ _ => False) ⟨c, []⟩ := by
    rw [reuse, wp_within, wp_bind, KvSession.onTraced, wp_zoom, wp_onCache]
    refine (wp_resetAndMatch_new hblocks (registry_new hnew)).mono (fun matched c₁ hc₁ => ?_)
      fun _ _ hE => hE
    refine (KvSession.wp_useRemote_iff (P := fun _ (t' : Traced T) =>
      t'.cache.kvs.allocator = c.kvs.allocator)).mpr ?_
    rw [hs]
    exact hc₁
  obtain ⟨reused, t₁, hrun, ht₁⟩ := hreuse.returns
  unfold suffixBlocks
  rw [hrun]
  dsimp only
  unfold Kv.CausalLM.nextBlocks
  split
  swap
  · exact fun k hk => absurd hk (Nat.not_lt_zero k)
  rw [ht₁, hfree]
  intro k hk i _ _
  rw [List.getElem?_eq_getElem hk, List.getElem_take, List.getElem_range]

end New

variable {m : Kv.CausalLM T H O}

/-- Layers write rows only. -/
theorem wlp_layersForward_inOrder (pos : ℕ) (layers : List ℕ) (x : H) {t : Traced T}
    (h : InOrder t.cache.kvs) :
    wlp (m.layersForward pos layers x) (fun _ t' => InOrder t'.cache.kvs) (fun _ _ => True) t := by
  induction layers generalizing x t with
  | nil => exact Or.inr h
  | cons layer rest ih =>
    refine wlp_bind (wlp_bind (wlp_ofExcept (fun kv _ => ?_) fun _ _ => trivial))
    obtain ⟨k, v⟩ := kv
    refine wlp_bind (wlp_onCache ((Cache.wlp_writeKv layer k v).mono (fun _ c₁ hw => ?_)
      fun _ _ _ => trivial))
    refine wlp_bind (wlp_onCache ((Cache.wlp_kvBlocks layer).mono (fun blocks c₂ he => ?_)
      fun _ _ _ => trivial))
    obtain rfl := he
    refine wlp_bind (Or.inr ?_)
    rw [record, wp_modify]
    refine wlp_ofExcept (fun x' _ => ih x' ?_) fun _ _ => trivial
    unfold InOrder at *
    rw [hw.1.allocator, hw.1.table, h]

/-- A pass takes the free blocks in order. -/
theorem wlp_forward_inOrder (ids : List UInt32) (pos : ℕ) {t : Traced T}
    (ho : t.cache.kvs.Owned) (h : InOrder t.cache.kvs) :
    wlp (m.forward ids pos) (fun _ t' => InOrder t'.cache.kvs) (fun _ _ => True) t := by
  refine wlp_bind (Or.inr ?_)
  rw [wp_get]
  refine wlp_bind (Or.inr ?_)
  rw [record, wp_modify]
  refine wlp_bind (wlp_ofExcept (fun x _ => ?_) fun _ _ => trivial)
  refine wlp_bind (wlp_onCache (Or.inr ((Cache.wp_allocateKv ho ids.length).mono
    (fun _ c₁ hr => ?_) fun _ _ _ => trivial)))
  obtain ⟨⟨_, hr⟩, -⟩ := hr
  refine wlp_bind ((wlp_layersForward_inOrder pos _ x (h.grown hr.pushed hr.taken)).mono
    (fun x' t₂ h₂ => ?_) fun _ _ hE => hE)
  exact wlp_ofExcept (fun _ _ => h₂) fun _ _ => trivial

end Order

/-! ## 2. One pass -/

section Pass

variable {K T : Type} [Field K] [LinearOrder K] [IsStrictOrderedRing K] [HasElementary K]
  [LawfulElementary K] [Candle T] [LawfulCandle T] [ExactCandle K T] [LawfulExactCandle K T]
  [NnCandle K T] [LawfulNnCandle K T] [Encoded K T] {dt : DType} {m : CausalLM K T}
  {tables : RopeTables T} {blockHash : BlockHash} {prompts : List UInt32 → Prop}
  {before ids : List UInt32} {c : Kv.Cache T}

/-- **A pass** over tokens that are in the vocabulary and fit returns their logits. -/
theorem wp_forward_batch (hdt : IsFloat dt) (hm : m.Formed dt) (hv : m.cfg.Valid)
    (ht : tables.Formed m.cfg dt) (hn : ids ≠ []) (hvocab : ∀ id ∈ ids, id.toNat < m.cfg.vocabSize)
    (hmax : before.length + ids.length ≤ m.cfg.maxSeqLen)
    (h : Live m.cfg.kv dt blockHash prompts m.rowOf before c) (ho : InOrder c.kvs) :
    wp (m.forward tables ids before.length)
      (fun o c' => (Live m.cfg.kv dt blockHash prompts m.rowOf (before ++ ids) c' ∧
        InOrder c'.kvs) ∧ m.Logits dt before ids o)
      (fun _ _ => False) c := by
  have hkv : ∀ l ∈ m.layers, l.selfAttn.numKeyValueHeads ≠ 0 := fun l hl => by
    rw [(hm.layers l hl).numKeyValueHeads]
    exact hv.kvHeads.ne'
  have hfits : c.kvs.table.len + ids.length ≤ m.cfg.kv.maxSeqLen := by rwa [h.len]
  obtain ⟨x, hx⟩ := LawfulNnCandle.embedding_ok hm.embedTokens hvocab
  have hpass : Passable (m.staged tables) c ids :=
    ⟨by rw [show (m.staged tables).embed ids = .ok x from hx]; rfl,
      by rw [h.formed.maxSeqLen]; exact hfits, ho.missing_le h.formed.toSized hfits⟩
  have hlogits := (wp_forward_logits (staged_evaluates hdt hm hv ht) (t := ⟨c, []⟩)
    (List.length_pos_iff.mpr hn) h fun _ => ho.runsSafe h.formed.toSized hfits).and_wlp
    (wlp_forward_inOrder ids before.length h.formed.owned ho)
  refine (CausalLM.wp_forward_staged hkv hm.length (t := ⟨c, []⟩)).mpr (hlogits.mono
    (fun o t' ht' => ?_) fun _ _ hE => hE.1.2 hpass)
  exact ⟨⟨ht'.1.1, ht'.2⟩, ht'.1.2⟩

end Pass

/-! ## 3. A sequence in batches -/

section Run

variable {K T : Type} [Field K] [HasElementary K] [Candle T] [ExactCandle K T] [NnCandle K T]

/-- The batches of a sequence, one after the other, each at its position. -/
def CausalLM.forwardAll (m : CausalLM K T) (tables : RopeTables T) :
    List (List UInt32) → ℕ → Prog (Kv.Cache T) (List T)
  | [], _ => pure []
  | ids :: rest, indexPos => do
    let logits ← m.forward tables ids indexPos
    let more ← m.forwardAll tables rest (indexPos + ids.length)
    return logits :: more

omit [NnCandle K T] [Candle T] in
/-- The logits of the batches are those of the sequence `seq`, from position `indexPos` on. -/
def CausalLM.Cut (m : CausalLM K T) (dt : DType) (seq : List UInt32) :
    ℕ → List (List UInt32) → List T → Prop
  | _, [], [] => True
  | indexPos, ids :: rest, o :: more =>
    Rows o dt ids.length m.cfg.vocabSize
      (fun i => m.decoder.logits (elementary K) seq (indexPos + i)) ∧
      m.Cut dt seq (indexPos + ids.length) rest more
  | _, _, _ => False

variable [LinearOrder K] [IsStrictOrderedRing K] [LawfulElementary K] [LawfulCandle T]
  [LawfulExactCandle K T] [LawfulNnCandle K T] [Encoded K T] {dt : DType} {m : CausalLM K T}
  {tables : RopeTables T} {blockHash : BlockHash} {prompts : List UInt32 → Prop}

/-- **The run** over the batches, after those of `before`. -/
theorem wp_forwardAll (hdt : IsFloat dt) (hm : m.Formed dt) (hv : m.cfg.Valid)
    (ht : tables.Formed m.cfg dt) {before : List UInt32} {batches : List (List UInt32)}
    (hne : ∀ ids ∈ batches, ids ≠ [])
    (hvocab : ∀ ids ∈ batches, ∀ id ∈ ids, id.toNat < m.cfg.vocabSize)
    (hmax : before.length + batches.flatten.length ≤ m.cfg.maxSeqLen) {c : Kv.Cache T}
    (h : Live m.cfg.kv dt blockHash prompts m.rowOf before c) (ho : InOrder c.kvs) :
    wp (m.forwardAll tables batches before.length)
      (fun os _ => m.Cut dt (before ++ batches.flatten) before.length batches os)
      (fun _ _ => False) c := by
  induction batches generalizing before c with
  | nil => exact trivial
  | cons ids rest ih =>
    obtain ⟨hids, hrest⟩ := List.forall_mem_cons.mp hne
    obtain ⟨hvids, hvrest⟩ := List.forall_mem_cons.mp hvocab
    rw [List.flatten_cons, List.length_append] at hmax
    rw [CausalLM.forwardAll, wp_bind]
    refine (wp_forward_batch hdt hm hv ht hids hvids (by omega) h ho).mono (fun o c' hc' => ?_)
      fun _ _ hE => hE
    obtain ⟨⟨hlive, hordered⟩, hlogits⟩ := hc'
    have hlen : (before ++ ids).length = before.length + ids.length := List.length_append
    have hmore := ih hrest hvrest (by omega) hlive hordered
    rw [hlen, List.append_assoc] at hmore
    rw [wp_bind]
    refine hmore.mono (fun more _ hcut => ⟨hlogits.congr fun i v hi _ => ?_, hcut⟩) fun _ _ hE => hE
    -- later tokens do not change the logits of this batch
    refine congrFun (Decoder.logits_congr fun q hq => ?_) v
    rw [List.flatten_cons, ← List.append_assoc]
    exact (List.getElem?_append_left (by omega)).symm

omit [NnCandle K T] [ExactCandle K T] [LinearOrder K] [IsStrictOrderedRing K] [LawfulElementary K]
  [LawfulExactCandle K T] [LawfulNnCandle K T] [Encoded K T] [Field K] [HasElementary K] in
/-- A new cache holds nothing. -/
theorem live_new {cfg : Kv.Config} {rowOf : RowOf} {c : Kv.Cache T}
    (h : Kv.Cache.new cfg dt = .ok c) : Live cfg dt blockHash prompts rowOf [] c := by
  have htable := table_new h
  refine ⟨⟨formed_new h, fun hash tokens id he => ?_⟩, by rw [htable]; rfl, fun l _ pos hpos => ?_,
    fun i id _ hi => ?_⟩
  · rw [registry_new h] at he
    cases he
  · cases hpos
  · rw [htable] at hi
    cases hi

omit [IsStrictOrderedRing K] [LawfulElementary K] [Encoded K T] in
/-- **What loading and `Cache::new` make sure of.** -/
theorem formed_of_load {cfg : Config K} {vb : VarBuilder T} (hvb : vb.Lawful dt) (hdt : IsFloat dt)
    (hload : CausalLM.load vb cfg = .ok m) {c : Kv.Cache T}
    (hnew : newCache cfg dt = .ok (tables, c)) :
    m.Formed dt ∧ m.cfg = cfg ∧ tables.Formed cfg dt ∧ Kv.Cache.new cfg.kv dt = .ok c := by
  obtain ⟨hm, rfl⟩ := CausalLM.formed_load hvb hload
  obtain ⟨r, hr, hnew⟩ := bind_eq_ok.mp hnew
  obtain ⟨kv, hkv, hnew⟩ := bind_eq_ok.mp hnew
  cases hnew
  obtain ⟨r', hr', ht⟩ : ∃ r' : RopeTables T, RopeTables.new m.cfg dt = .ok r' ∧ r'.Formed m.cfg dt :=
    RopeTables.formed_new hdt (formed_new hkv).small
  obtain rfl : r' = tables := Except.ok.inj (hr'.symm.trans hr)
  exact ⟨hm, rfl, ht, hkv⟩

end Run

/-! ## 4. A checkpoint -/

/-- Roots that are exact at squares, and the first terms of the series. Of the exponentials only that
    of 0 is a rational number. -/
instance : HasElementary ℚ where
  exp _ := 1
  sqrt x := (x.num.toNat.sqrt : ℚ) / (x.den.sqrt : ℚ)
  powf b e := if e = 0 then 1 else (b.num.toNat.sqrt : ℚ) / (b.den.sqrt : ℚ)
  cos x := 1 - x ^ 2 / 2 + x ^ 4 / 24
  sin x := x - x ^ 3 / 6

instance : LawfulElementary ℚ where
  exp := ⟨fun _ _ => (one_mul (1 : ℚ)).symm, fun _ => zero_lt_one' ℚ⟩
  sqrt_ne_zero {x} h := by
    have hnum : 0 < x.num.toNat := by
      have hpos := Rat.num_pos.mpr h
      omega
    have hroot : x.num.toNat.sqrt ≠ 0 := (Nat.sqrt_pos.mpr hnum).ne'
    have hden : x.den.sqrt ≠ 0 := (Nat.sqrt_pos.mpr x.den_pos).ne'
    exact div_ne_zero (Nat.cast_ne_zero.mpr hroot) (Nat.cast_ne_zero.mpr hden)

/-- Two heads on one K/V head, with tied embeddings. -/
def tinyConfig : Config ℚ where
  hiddenSize := 4
  intermediateSize := 6
  vocabSize := 16
  numHiddenLayers := 2
  numAttentionHeads := 2
  numKeyValueHeads := 1
  headDim := 4
  rmsNormEps := 9 / 16
  ropeTheta := 10000
  maxSeqLen := 32
  useQkvBias := false
  useQkNorm := true
  tieWordEmbeddings := true

/-- Every projection is zero, so is every score, and every root is that of a square. -/
def tinyCheckpoint : VarBuilder (Exact ℚ) where
  backend name shape :=
    .ok ⟨shape, .f32, fun _ => ((if name.endsWith "proj.weight" then 0 else 1 : ℚ) : WithBot ℚ)⟩
  path := []

theorem tinyCheckpoint_lawful : tinyCheckpoint.Lawful .f32 := by
  rintro name shape t ht
  cases ht
  exact ⟨rfl, rfl, fun _ => WithBot.coe_ne_bot⟩

theorem tinyConfig_valid : tinyConfig.Valid :=
  ⟨by decide, by decide, by decide, by decide, by decide, by norm_num [tinyConfig]⟩

/-- The checkpoint and a new cache. -/
theorem tiny_loads : ∃ (m : CausalLM ℚ (Exact ℚ)) (tables : RopeTables (Exact ℚ))
    (c : Kv.Cache (Exact ℚ)), CausalLM.load tinyCheckpoint tinyConfig = .ok m ∧
      newCache tinyConfig .f32 = .ok (tables, c) := by
  obtain ⟨tables, htables, -⟩ : ∃ r : RopeTables (Exact ℚ),
      RopeTables.new tinyConfig .f32 = .ok r ∧ r.Formed tinyConfig .f32 :=
    RopeTables.formed_new isFloat_f32 (by decide)
  obtain ⟨m, hm⟩ : ∃ m, CausalLM.load tinyCheckpoint tinyConfig = .ok m := ⟨_, rfl⟩
  obtain ⟨c, hc⟩ : ∃ c : Kv.Cache (Exact ℚ), Kv.Cache.new tinyConfig.kv .f32 = .ok c := ⟨_, rfl⟩
  refine ⟨m, tables, c, hm, ?_⟩
  unfold newCache
  rw [htables, ok_bind, hc]
  rfl

end Flour.Models
