/-
  File:      Flour/Kv/Contents.lean
  Subject:   What the slots of the pool hold: the rows of the live sequence and of the cached
             blocks, and what the writes of a layer make of them.

  The K/V row of a position is a value of the tokens up to it, `rowOf layer tokens`; `Computes`
  says that the model's layers compute it, from hidden states that depend on these tokens only.

  * `Holds` -- the first positions of a sequence have their rows at the slots of the table;
    `Cached` -- each registry entry is a block of a prompt, with the rows of that block;
  * `Private` -- from a logical block on, the blocks of the table have no other owner, so that
    writing there disturbs nothing;
  * **`Fills`**, `wp_writeKv_fills` -- where the runs of a write do not misplace its slots
    (`RunsSafe`), it completes the rows of its layer and keeps all others.
-/
import Flour.Kv.Rows
import Flour.Kv.Requests

namespace Flour.Kv

open Candle Flour.Lib Flour.Lib.Prog

/-- The K and the V row of the last token of a sequence, in each layer. -/
abbrev RowOf := ℕ → List UInt32 → Row × Row

/-- The rows of a sequence in a layer, in order. -/
def rowsOf (rowOf : RowOf) (layer : ℕ) (seq : List UInt32) : List (Row × Row) :=
  (List.range seq.length).map fun i => rowOf layer (seq.take (i + 1))

section Defs

variable {T H O : Type} [Candle T]

/-- K and V tensors with the given rows. -/
structure RowsFor (cfg : Config) (dtype : DType) (n : ℕ) (row : ℕ → Row × Row) (k v : T) : Prop
    extends OfShape cfg dtype n k v where
  rows : ∀ j, j < n → (batchRow cfg.numKeyValueHeads cfg.headDim k j,
    batchRow cfg.numKeyValueHeads cfg.headDim v j) = row j

/-- The model computes the rows `rowOf`. `hidden layer before ids x` says that `x` are the hidden
    states of a pass over `ids` after `before`, on their way into a layer. -/
structure Computes (m : CausalLM T H O) (dtype : DType) (rowOf : RowOf)
    (hidden : ℕ → List UInt32 → List UInt32 → H → Prop) : Prop where
  embed {before ids : List UInt32} {x : H} (h : m.embed ids = .ok x) : hidden 0 before ids x
  keyValue {layer : ℕ} {before ids : List UInt32} {x : H} {k v : T}
    (hl : layer < m.cfg.numHiddenLayers) (hx : hidden layer before ids x)
    (h : m.keyValue layer x before.length = .ok (k, v)) :
    RowsFor m.cfg dtype ids.length (fun j => rowOf layer (before ++ ids.take (j + 1))) k v
  attend {layer : ℕ} {before ids : List UInt32} {x x' : H} {blocks : List (T × T)}
    (hl : layer < m.cfg.numHiddenLayers) (hx : hidden layer before ids x)
    (hb : liveRows blocks = rowsOf rowOf layer (before ++ ids))
    (h : m.attend layer x before.length blocks = .ok x') : hidden (layer + 1) before ids x'

/-- The first `n` positions of a sequence have their rows in a layer. -/
def Holds (rowOf : RowOf) (c : KvCache T) (layer : ℕ) (seq : List UInt32) (n : ℕ) : Prop :=
  ∀ pos, pos < n → c.pool.kv layer (rowSlot c.table pos) = rowOf layer (seq.take (pos + 1))

/-- A physical block has the rows of block `b` of a prompt. -/
def BlockHolds (rowOf : RowOf) (layers : ℕ) (p : PagedKvPool T) (id b : ℕ) (prompt : List UInt32) :
    Prop :=
  ∀ layer j, layer < layers → j < blockSize →
    p.kv layer (id * blockSize + j) = rowOf layer (prompt.take (b * blockSize + j + 1))

/-- Each registry entry is a block of one of the prompts, under its chained hash. -/
def Cached (blockHash : BlockHash) (prompts : List UInt32 → Prop) (rowOf : RowOf) (layers : ℕ)
    (c : KvCache T) : Prop :=
  ∀ hash tokens id, c.registry.entries.lookup hash = some (tokens, id) →
    ∃ p b, prompts p ∧ b < p.length / blockSize ∧
      hash = chainHash blockHash blockSize p (b + 1) ∧ BlockHolds rowOf layers c.pool id b p

omit [Candle T] in
/-- From logical block `k` on, the blocks of the table have no other owner. -/
def Private (c : KvCache T) (k : ℕ) : Prop :=
  ∀ i id, k ≤ i → c.table.blocks[i]? = some id → c.owners.count id = 1

end Defs

/-! ## 1. Slots of their own -/

section Slots

variable {T : Type} {c : KvCache T} {k : ℕ}

theorem Private.of_le {k' : ℕ} (h : Private c k) (hle : k ≤ k') : Private c k' :=
  fun i id hi => h i id (le_trans hle hi)

/-- A private block occurs once in the table, and in no registry entry. -/
theorem Private.once (h : Private c k) {i id : ℕ} (hk : k ≤ i) (hi : c.table.blocks[i]? = some id) :
    c.table.blocks.count id = 1 ∧ id ∉ c.registry.blockIds := by
  have hone := h i id hk hi
  have hmem := List.count_pos_iff.mpr (List.mem_of_getElem? hi)
  rw [KvCache.owners, Multiset.count_add, Multiset.coe_count] at hone
  exact ⟨by omega, Multiset.count_eq_zero.mp (by omega)⟩

theorem Private.page (h : Private c k) {pos : ℕ} (hk : k ≤ pos / blockSize)
    (hpos : pos < c.table.blocks.length * blockSize) :
    c.table.blocks.count (c.table.blocks.getD (pos / blockSize) 0) = 1 ∧
      c.table.blocks.getD (pos / blockSize) 0 ∉ c.registry.blockIds := by
  refine h.once hk ?_
  rw [List.getD_eq_getElem _ _ (page_lt hpos)]
  exact List.getElem?_eq_getElem _

/-- The slots of the last positions are distinct. -/
theorem Private.nodup_lastSlots {n : ℕ} (h : Private c ((c.table.len - n) / blockSize))
    (hn : n ≤ c.table.len) (hlen : c.table.len ≤ c.table.blocks.length * blockSize) :
    (lastSlots c.table n).Nodup := by
  refine nodup_translate (by omega) fun pos hlo hhi => ?_
  exact (h.page (Nat.div_le_div_right hlo) (by omega)).1

/-- No earlier position has one of them. -/
theorem Private.rowSlot_notMem {n pos : ℕ} (h : Private c ((c.table.len - n) / blockSize))
    (hlen : c.table.len ≤ c.table.blocks.length * blockSize) (hpos : pos < c.table.len - n) :
    rowSlot c.table pos ∉ lastSlots c.table n := by
  intro hmem
  obtain ⟨pos', hpos', heq⟩ := List.mem_map.mp hmem
  rw [List.mem_range'_1] at hpos'
  have hpage := (h.page (Nat.div_le_div_right hpos'.1) (by omega)).1
  have := translate_inj (by omega) (by omega) hpage heq
  omega

/-- The block of one of them is in the table, at the logical block of its position. -/
theorem block_of_lastSlots {t : BlockTable} {n id j : ℕ} (hlen : t.len ≤ t.blocks.length * blockSize)
    (hn : n ≤ t.len) (hj : j < blockSize) (hmem : id * blockSize + j ∈ lastSlots t n) :
    ∃ i, (t.len - n) / blockSize ≤ i ∧ t.blocks[i]? = some id := by
  obtain ⟨pos, hpos, heq⟩ := List.mem_map.mp hmem
  rw [List.mem_range'_1] at hpos
  refine ⟨pos / blockSize, Nat.div_le_div_right hpos.1, ?_⟩
  have hlt : pos / blockSize < t.blocks.length := page_lt (by omega)
  have hpage : t.blocks.getD (pos / blockSize) 0 = id := by
    rw [← translate_div (by decide : 0 < blockSize), ← page_div hj id, ← heq]
    rfl
  rw [List.getElem?_eq_getElem hlt, ← hpage, List.getD_eq_getElem _ _ hlt]

/-- No slot of a cached block is one of them. -/
theorem Private.cached_notMem {n id j : ℕ} (h : Private c ((c.table.len - n) / blockSize))
    (hlen : c.table.len ≤ c.table.blocks.length * blockSize) (hn : n ≤ c.table.len)
    (hid : id ∈ c.registry.blockIds) (hj : j < blockSize) :
    id * blockSize + j ∉ lastSlots c.table n := by
  intro hmem
  obtain ⟨i, hle, hi⟩ := block_of_lastSlots hlen hn hj hmem
  exact (h.once hle hi).2 hid

/-- Reserving: a block of the old table keeps its one owner, and the blocks that are taken had none. -/
theorem Private.reserved {c c' : Cache T} {n : ℕ} {taken : List ℕ} (h : Private c.kvs k)
    (hr : Cache.Reserved n c c' taken) : Private c'.kvs k := by
  intro i id hi hb
  by_cases hid : id ∈ taken
  · exact hr.fresh id hid
  · rw [hr.pushed.blocks] at hb
    have hi' : i < c.kvs.table.blocks.length := by
      by_contra hge
      rw [List.getElem?_append_right (Nat.le_of_not_lt hge)] at hb
      exact hid (List.mem_of_getElem? hb)
    rw [List.getElem?_append_left hi'] at hb
    rw [hr.pushed.owners_eq, Multiset.count_add, Multiset.coe_count, List.count_eq_zero.mpr hid,
      Nat.zero_add]
    exact h i id hi hb

/-- Registering: the blocks that are registered come before the private ones in the table. -/
theorem Private.registered {blockHash : BlockHash} {c' : KvCache T} {prompt : List UInt32} {n : ℕ}
    (h : Private c k) (hr : KvCache.Registered blockHash blockSize prompt 0 n c c') (hn : n ≤ k) :
    Private c' k := by
  intro i id hi hb
  rw [hr.table] at hb
  obtain ⟨honce, hold⟩ := h.once hi hb
  have hno : id ∉ c'.registry.blockIds := by
    intro hid
    obtain ⟨hash, tokens, he⟩ := PrefixRegistry.mem_blockIds.mp hid
    rcases hr.entries hash tokens id he with hin | ⟨j, hj, _, _, hj'⟩
    · exact hold (PrefixRegistry.mem_blockIds.mpr ⟨hash, tokens, hin⟩)
    · rw [Nat.zero_add] at hj'
      have := index_eq_of_count_one honce hj' hb
      omega
  rw [KvCache.owners, hr.table, Multiset.count_add, Multiset.coe_count, honce,
    Multiset.count_eq_zero.mpr hno]

end Slots

/-! ## 2. What a write fills -/

section Fill

variable {T : Type} [Candle T] {cfg : Config} {dtype : DType} {blockHash : BlockHash}
  {prompts : List UInt32 → Prop} {rowOf : RowOf}

/-- What holds between requests, and after a request that failed. -/
structure Clean (cfg : Config) (dtype : DType) (blockHash : BlockHash)
    (prompts : List UInt32 → Prop) (rowOf : RowOf) (c : Cache T) : Prop where
  formed : Formed cfg dtype c
  cached : Cached blockHash prompts rowOf cfg.numHiddenLayers c.kvs

/-- The state of a pass over `ids` after `before`, when the layers below `layer` have written. -/
structure Fills (cfg : Config) (dtype : DType) (blockHash : BlockHash)
    (prompts : List UInt32 → Prop) (rowOf : RowOf) (before ids : List UInt32) (layer : ℕ)
    (c : Cache T) : Prop extends Clean cfg dtype blockHash prompts rowOf c where
  len : c.kvs.table.len = before.length + ids.length
  fits : before.length + ids.length ≤ cfg.maxSeqLen
  priv : Private c.kvs (before.length / blockSize)
  safe : 0 < cfg.numHiddenLayers → RunsSafe 0 (lastSlots c.kvs.table ids.length)
  earlier : ∀ l, l < cfg.numHiddenLayers → Holds rowOf c.kvs l (before ++ ids) before.length
  full : ∀ l, l < layer → l < cfg.numHiddenLayers →
    Holds rowOf c.kvs l (before ++ ids) (before ++ ids).length

/-- A layer whose rows are all there reads the rows of the sequence. -/
theorem liveKv_of_holds {c : KvCache T} {layer : ℕ} {seq : List UInt32}
    (hlen : c.table.len = seq.length) (h : Holds rowOf c layer seq seq.length) :
    liveKv c layer = rowsOf rowOf layer seq := by
  unfold liveKv rowsOf
  rw [hlen]
  exact List.map_congr_left fun pos hpos => h pos (List.mem_range.mp hpos)

variable {before ids : List UInt32} {layer : ℕ} {c : Cache T}

/-- Rows outside the slots of a write, or in another layer, stay. -/
theorem WroteRows.kept {n : ℕ} {src : ℕ → Row × Row} {c' : Cache T}
    (h : WroteRows cfg dtype layer n src c c') (hsafe : RunsSafe 0 (lastSlots c.kvs.table n))
    {l s : ℕ} (hs : s < numSlots cfg) (hout : l = layer → s ∉ lastSlots c.kvs.table n) :
    c'.kvs.pool.kv l s = c.kvs.pool.kv l s := by
  rw [h.kv l s hs]
  split_ifs with hl
  · rw [writeRows_eq_scatter _ hsafe, scatter_of_notMem _ (hout hl), hl]
  · rfl

/-- The slots of a write get its rows. -/
theorem WroteRows.written {n j s : ℕ} {src : ℕ → Row × Row} {c' : Cache T}
    (h : WroteRows cfg dtype layer n src c c') (hsafe : RunsSafe 0 (lastSlots c.kvs.table n))
    (hnd : (lastSlots c.kvs.table n).Nodup) (hs : (lastSlots c.kvs.table n)[j]? = some s)
    (hlt : s < numSlots cfg) : c'.kvs.pool.kv layer s = src j := by
  rw [h.kv layer s hlt, if_pos rfl, writeRows_eq_scatter _ hsafe, scatter_getElem _ hnd hs,
    Nat.zero_add]

theorem Fills.len_le (h : Fills cfg dtype blockHash prompts rowOf before ids layer c) :
    c.kvs.table.len ≤ c.kvs.table.blocks.length * blockSize := by
  have hcap := h.formed.owned.len_le
  rwa [BlockTable.capacity, h.formed.owned.blockSize] at hcap

theorem Fills.start (h : Fills cfg dtype blockHash prompts rowOf before ids layer c) :
    c.kvs.table.len - ids.length = before.length := by
  rw [h.len, Nat.add_sub_cancel]

theorem Fills.rowSlot_lt (h : Fills cfg dtype blockHash prompts rowOf before ids layer c) {pos : ℕ}
    (hpos : pos < c.kvs.table.len) : rowSlot c.kvs.table pos < numSlots cfg :=
  h.formed.rowSlot_lt (Nat.lt_of_lt_of_le hpos h.formed.owned.len_le)

/-- **A write completes the rows of its layer** and keeps all others: those of other layers, of
    earlier positions and of cached blocks. -/
theorem Fills.of_wrote (h : Fills cfg dtype blockHash prompts rowOf before ids layer c)
    (hl : layer < cfg.numHiddenLayers) {src : ℕ → Row × Row} {c' : Cache T}
    (hw : WroteRows cfg dtype layer ids.length src c c')
    (hsrc : ∀ j, j < ids.length → src j = rowOf layer (before ++ ids.take (j + 1))) :
    Fills cfg dtype blockHash prompts rowOf before ids (layer + 1) c' := by
  have htable := hw.wrote.table
  have hreg := hw.wrote.registry
  have hpriv := h.priv
  have hsafe := h.safe (Nat.zero_lt_of_lt hl)
  rw [← h.start] at hpriv
  have hnd := hpriv.nodup_lastSlots (by rw [h.len]; omega) h.len_le
  -- earlier positions keep their rows, also in this layer
  have hearlier : ∀ l, l < cfg.numHiddenLayers →
      Holds rowOf c'.kvs l (before ++ ids) before.length := by
    intro l hl pos hpos
    have hlen := h.len
    rw [htable, hw.kept hsafe (h.rowSlot_lt (by omega)) fun _ => ?_]
    · exact h.earlier l hl pos hpos
    · exact hpriv.rowSlot_notMem h.len_le (by rw [h.start]; exact hpos)
  refine ⟨⟨hw.formed, fun hash tokens id he => ?_⟩, by rw [htable]; exact h.len, h.fits,
    fun i id hi hb => ?_, by rw [htable]; exact h.safe, hearlier, fun l hl hlt pos hpos => ?_⟩
  · rw [hreg] at he
    obtain ⟨p, b, hp, hb, hhash, hblock⟩ := h.cached hash tokens id he
    refine ⟨p, b, hp, hb, hhash, fun l j hl hj => ?_⟩
    have hid : id ∈ c.kvs.registry.blockIds := PrefixRegistry.mem_blockIds.mpr ⟨hash, tokens, he⟩
    rw [hw.kept hsafe ?_ fun _ => ?_]
    · exact hblock l j hl hj
    · exact h.formed.slot_lt (h.formed.owned.tracks.inRange id (Multiset.mem_add.mpr (Or.inr hid))) hj
    · exact hpriv.cached_notMem h.len_le (by rw [h.len]; omega) hid hj
  · rw [htable] at hb
    rw [KvCache.owners, htable, hreg]
    exact h.priv i id hi hb
  · rw [List.length_append] at hpos
    by_cases hin : pos < before.length
    · exact hearlier l hlt pos hin
    have hslot : pos < c.kvs.table.len := by rw [h.len]; exact hpos
    rcases Nat.lt_succ_iff_lt_or_eq.mp hl with hl | rfl
    · rw [htable, hw.kept hsafe (h.rowSlot_lt hslot) fun heq => absurd heq (Nat.ne_of_lt hl)]
      exact h.full l hl hlt pos (by rw [List.length_append]; exact hpos)
    · have hget : (lastSlots c.kvs.table ids.length)[pos - before.length]? =
          some (rowSlot c.kvs.table pos) := by
        rw [lastSlots, h.start, List.getElem?_map, List.getElem?_range' (by omega), Option.map_some,
          Nat.one_mul, Nat.add_sub_cancel' (Nat.le_of_not_lt hin)]
      have htake : (before ++ ids).take (pos + 1) = before ++ ids.take (pos - before.length + 1) := by
        rw [List.take_append, List.take_of_length_le (by omega)]
        congr 2
        omega
      rw [htable, hw.written hsafe hnd hget (h.rowSlot_lt hslot), hsrc _ (by omega), htake]

/-- **Writing the rows of a layer.** -/
theorem wp_writeKv_fills [LawfulCandle T]
    (h : Fills cfg dtype blockHash prompts rowOf before ids layer c)
    (hl : layer < cfg.numHiddenLayers) {k v : T}
    (hrows : RowsFor cfg dtype ids.length (fun j => rowOf layer (before ++ ids.take (j + 1))) k v) :
    wp (Cache.writeKv layer k v)
      (fun _ c' => Fills cfg dtype blockHash prompts rowOf before ids (layer + 1) c')
      (fun _ _ => False) c := by
  have hfits := h.fits
  refine (wp_writeKv_rows h.formed hl hrows.toOfShape (by rw [h.len]; omega) (by omega)).mono
    (fun _ c' hw => ?_) fun _ _ hE => hE
  refine h.of_wrote hl hw fun j hj => ?_
  rw [PagedKvPool.batchKv, h.formed.kvHeads, h.formed.headDim]
  exact hrows.rows j hj

end Fill

end Flour.Kv
