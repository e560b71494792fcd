/-
  File:      Flour/Kv/Import.lean
  Subject:   An import whose blocks fit and are free does not fail, and leaves their rows live.

  * `Importable` -- a block of a bundle with one layer for each of the model's, all of the pool's
    shape and type; `importable_of_valid` -- the blocks of a decoded bundle that passed the checks.
  * `wp_importLayers_rows`, `wp_importBlock_rows` -- such a block is written into the block it gets,
    and nothing else is; `HoldsBlocks` is what the loop over the blocks keeps.
  * **`wp_importBlocks_rows`** -- with as many free blocks as the bundle has, all of it is imported,
    and its rows are those that the table maps.
-/
import Flour.Kv.Rows

namespace Flour.Kv

open Candle Flour.Lib Flour.Lib.Prog

section Import

variable {T : Type} [Candle T] [LawfulCandle T] {cfg : Config} {dtype : DType}

/-- A tensor of one imported block. -/
def BlockTensor (cfg : Config) (dtype : DType) (t : T) : Prop :=
  dims t = [cfg.numKeyValueHeads, blockSize, cfg.headDim] ∧ Candle.dtype t = dtype

/-- A block with the layers and the shape of the pool. -/
structure Importable (cfg : Config) (dtype : DType) (block : KvBundleBlock T) : Prop where
  layers : block.layers.length = cfg.numHiddenLayers
  k : ∀ lb ∈ block.layers, BlockTensor cfg dtype lb.k
  v : ∀ lb ∈ block.layers, BlockTensor cfg dtype lb.v

omit [LawfulCandle T] in
/-- The element type of the pool, where it has one. -/
theorem Formed.dtype_eq {c : Cache T} (h : Formed cfg dtype c) {dt : DType}
    (hdt : c.kvs.pool.dtype = some dt) : dt = dtype := by
  obtain ⟨t, ht, rfl⟩ := Option.map_eq_some_iff.mp hdt
  exact (h.pool.k t (List.mem_of_head? ht)).dtype

omit [LawfulCandle T] in
/-- It has one if it has layers. -/
theorem Formed.dtype_iff {c : Cache T} (h : Formed cfg dtype c) :
    c.kvs.pool.dtype = some dtype ↔ cfg.numHiddenLayers ≠ 0 := by
  have hlen : c.kvs.pool.numLayers = cfg.numHiddenLayers := h.pool.kLen
  rw [← hlen, Ne, ← PagedKvPool.dtype_eq_none_iff]
  constructor
  · intro hdt hnone
    rw [hdt] at hnone
    cases hnone
  · intro hdt
    obtain ⟨dt, hdt⟩ := Option.ne_none_iff_exists'.mp hdt
    rw [hdt, h.dtype_eq hdt]

omit [LawfulCandle T] in
/-- **What was decoded and checked** can be written. -/
theorem importable_of_valid {c : Cache T} (h : Formed cfg dtype c) {bundle : KvBundle T}
    {prompt : List UInt32} (hv : bundle.Valid) (ha : c.kvs.Accepts bundle prompt) :
    ∀ block ∈ bundle.blocks, Importable cfg dtype block := by
  intro block hblock
  have htensor : ∀ lb ∈ block.layers, ∀ t, t = lb.k ∨ t = lb.v → BlockTensor cfg dtype t := by
    intro lb hlb t ht
    obtain ⟨hd, hdt⟩ := hv.tensors block hblock lb hlb t ht
    rw [ha.numKvHeads, ha.blockSize, ha.headDim, h.kvHeads, h.headDim, h.owned.blockSize] at hd
    exact ⟨hd, hdt.trans (h.dtype_eq ha.dtype)⟩
  refine ⟨?_, fun lb hlb => htensor lb hlb _ (Or.inl rfl),
    fun lb hlb => htensor lb hlb _ (Or.inr rfl)⟩
  rw [hv.layers block hblock, ha.numLayers]
  exact h.pool.kLen

/-! ## 1. The rows of a block -/

omit [LawfulCandle T] in
/-- The K and the V row of position `j` of a layer of a block. -/
def layerKv (cfg : Config) (lb : KvLayerBlock T) (j : ℕ) : Row × Row :=
  (row cfg.numKeyValueHeads cfg.headDim lb.k j, row cfg.numKeyValueHeads cfg.headDim lb.v j)

/-- A layer of a block, of the pool's shape, with the rows `kv`. -/
structure LayerRows (cfg : Config) (dtype : DType) (lb : KvLayerBlock T) (kv : ℕ → Row × Row) :
    Prop where
  k : BlockTensor cfg dtype lb.k
  v : BlockTensor cfg dtype lb.v
  rows : ∀ j, j < blockSize → layerKv cfg lb j = kv j

/-- A block with one layer for each of the model's, with the rows `kv`. -/
structure BlockRows (cfg : Config) (dtype : DType) (block : KvBundleBlock T)
    (kv : ℕ → ℕ → Row × Row) : Prop where
  layers : block.layers.length = cfg.numHiddenLayers
  rows : ∀ layer lb, block.layers[layer]? = some lb → LayerRows cfg dtype lb (kv layer)

/-- What writing the layers of a block, from layer `n` on, to the physical block `id` does. -/
structure WroteLayers (cfg : Config) (id n : ℕ) (layers : List (KvLayerBlock T))
    (p p' : PagedKvPool T) : Prop where
  rows : ∀ i lb, layers[i]? = some lb → ∀ j, j < blockSize →
    p'.kv (n + i) (id * blockSize + j) = layerKv cfg lb j
  other : ∀ l s, s < numSlots cfg →
    l < n ∨ s < id * blockSize ∨ id * blockSize + blockSize ≤ s → p'.kv l s = p.kv l s

omit [LawfulCandle T] in
theorem slots_of_block {id : ℕ} (hid : id < divCeil cfg.maxSeqLen blockSize) :
    id * blockSize + blockSize ≤ numSlots cfg := by
  rw [← Nat.succ_mul]
  exact Nat.mul_le_mul_right _ hid

/-- **The layers of a block** are written, one after the other. -/
theorem wp_importLayers_rows {c : KvCache T} (hp : PoolShape cfg dtype c.pool) {id : ℕ}
    (hid : id < divCeil cfg.maxSeqLen blockSize) {layers : List (KvLayerBlock T)} {n : ℕ}
    (hn : n + layers.length = cfg.numHiddenLayers)
    (hl : ∀ lb ∈ layers, BlockTensor cfg dtype lb.k ∧ BlockTensor cfg dtype lb.v) :
    wp (forEach (fun e => KvCache.onPool (Prog.of fun p => p.writeBlock e.2 id e.1.k e.1.v))
      (layers.zipIdx n)) (fun _ c' => PoolShape cfg dtype c'.pool ∧
        WroteLayers cfg id n layers c.pool c'.pool) (fun _ _ => False) c := by
  induction layers generalizing n c with
  | nil => exact ⟨hp, fun i lb h => (by cases h), fun _ _ _ _ => rfl⟩
  | cons lb rest ih =>
    obtain ⟨⟨hk, hv⟩, hrest⟩ := List.forall_mem_cons.mp hl
    obtain ⟨hs, hheads, hdim⟩ := hp
    rw [List.length_cons] at hn
    have hfit := slots_of_block hid
    have hkd := hk.1
    have hvd := hv.1
    rw [← hheads, ← hdim] at hkd hvd
    obtain ⟨p₁, hw, hkv⟩ := hs.writeBlock_rows
      (show n < cfg.numHiddenLayers by omega) hkd hvd hk.2 hv.2 hfit
    obtain ⟨hs₁, hheads₁, hdim₁⟩ := hs.writeBlock hw
    have hrow : ∀ j, c.pool.blockKv lb.k lb.v j = layerKv cfg lb j := fun j => by
      unfold PagedKvPool.blockKv layerKv
      rw [hheads, hdim]
    rw [List.zipIdx_cons]
    show wp (KvCache.onPool (Prog.of fun p => p.writeBlock n id lb.k lb.v) >>= fun _ =>
      forEach _ (rest.zipIdx (n + 1))) _ _ c
    rw [wp_bind, KvCache.onPool, wp_zoom]
    refine (wp_of_eq_ok hw).mpr ((ih (c := { c with pool := p₁ })
      ⟨hs₁, hheads₁.trans hheads, hdim₁.trans hdim⟩ (by omega) hrest).mono (fun _ c' hc => ?_)
      fun _ _ hE => hE)
    obtain ⟨hp', hw'⟩ := hc
    refine ⟨hp', fun i lb' hlb j hj => ?_, fun l s hslot hout => ?_⟩
    · cases i with
      | zero =>
        cases hlb
        rw [Nat.add_zero, hw'.other n _ (by omega) (Or.inl (Nat.lt_succ_self n)),
          hkv _ _ (by omega), if_pos ⟨rfl, by omega, by omega⟩, Nat.add_sub_cancel_left, hrow]
      | succ i =>
        rw [← hw'.rows i lb' hlb j hj, Nat.add_right_comm, Nat.add_assoc]
    · rw [hw'.other l s hslot (hout.imp_left Nat.lt_succ_of_lt), hkv l s hslot, if_neg]
      rintro ⟨rfl, hlo, hhi⟩
      omega

/-- **A block** is imported when one is free: it is written to a block that is not in use. -/
theorem wp_importBlock_rows {c₀ c : KvCache T} {ids : List ℕ} (h : KvCache.Importing c₀ ids c)
    (hsize : c₀.allocator.size = divCeil cfg.maxSeqLen blockSize)
    (hp : PoolShape cfg dtype c.pool) (hfree : 0 < c.allocator.numFree) {block : KvBundleBlock T}
    (hb : Importable cfg dtype block) :
    wp (KvCache.importBlock cfg.numHiddenLayers block)
      (fun _ s => PoolShape cfg dtype s.2.pool ∧ ∃ id, id ∉ ids ∧ s.1 = ids ++ [id] ∧
        WroteLayers cfg id 0 block.layers c.pool s.2.pool) (fun _ _ => False) (ids, c) := by
  unfold KvCache.importBlock
  rw [if_neg (not_not.mpr hb.layers), wp_bind, wp_zoom]
  refine (KvCache.wp_takeBlock h.tracks).mono (fun r c₁ hr => ?_) fun _ _ hE => hE
  cases r with
  | none => exact absurd hr.2 (Nat.ne_of_gt hfree)
  | some id =>
    obtain ⟨a, rfl, ht, hs, -, hno⟩ := hr
    rw [Multiset.mem_add, not_or] at hno
    have hid := ht.inRange id (Multiset.mem_cons_self _ _)
    rw [hs, h.size, hsize] at hid
    show wp (Prog.modify _ >>= _) _ _ _
    rw [wp_bind, wp_modify, wp_bind, wp_zoom]
    refine (wp_importLayers_rows (c := { c with allocator := a }) hp hid
      ((Nat.zero_add _).trans hb.layers) fun lb hlb => ⟨hb.k lb hlb, hb.v lb hlb⟩).mono
      (fun _ c₂ hw => ?_) fun _ _ hE => hE
    rw [wp_zoom, KvCache.onTable, wp_modify]
    exact ⟨hw.1, id, fun hmem => hno.1 (Multiset.mem_coe.mpr hmem), rfl, hw.2⟩

/-- The blocks `done` were written to the physical blocks `ids`. -/
structure HoldsBlocks (cfg : Config) (done : List (KvBundleBlock T)) (ids : List ℕ)
    (p : PagedKvPool T) : Prop where
  length : ids.length = done.length
  rows : ∀ (b : ℕ) (block : KvBundleBlock T) (id : ℕ), done[b]? = some block → ids[b]? = some id →
    ∀ layer lb, block.layers[layer]? = some lb → ∀ j, j < blockSize →
      p.kv layer (id * blockSize + j) = layerKv cfg lb j

omit [LawfulCandle T] in
/-- Writing one more block to a block of its own. -/
theorem HoldsBlocks.push {done : List (KvBundleBlock T)} {ids : List ℕ} {p p' : PagedKvPool T}
    (h : HoldsBlocks cfg done ids p) (hin : ∀ id ∈ ids, id < divCeil cfg.maxSeqLen blockSize)
    {id : ℕ} (hno : id ∉ ids) {block : KvBundleBlock T}
    (hw : WroteLayers cfg id 0 block.layers p p') :
    HoldsBlocks cfg (done ++ [block]) (ids ++ [id]) p' := by
  refine ⟨by rw [List.length_append, List.length_append, h.length]; rfl,
    fun b block' id' hblock hid layer lb hlb j hj => ?_⟩
  by_cases hb : b < done.length
  · rw [List.getElem?_append_left hb] at hblock
    rw [List.getElem?_append_left (by rwa [h.length])] at hid
    have hmem := List.mem_of_getElem? hid
    have hfit := slots_of_block (hin id' hmem)
    rw [← h.rows b block' id' hblock hid layer lb hlb j hj]
    refine hw.other _ _ (by omega) (Or.inr ?_)
    rcases Nat.lt_or_gt_of_ne (fun he : id' = id => hno (he ▸ hmem)) with hlt | hgt
    · have hle := Nat.mul_le_mul_right blockSize hlt
      rw [Nat.succ_mul] at hle
      omega
    · have hle := Nat.mul_le_mul_right blockSize hgt
      rw [Nat.succ_mul] at hle
      omega
  · have hblen := (List.getElem?_eq_some_iff.mp hblock).1
    rw [List.length_append, List.length_singleton] at hblen
    obtain rfl : b = done.length := by omega
    rw [List.getElem?_concat_length] at hblock
    rw [← h.length, List.getElem?_concat_length] at hid
    cases hblock
    cases hid
    have hrows := hw.rows layer lb hlb j hj
    rwa [Nat.zero_add] at hrows

/-! ## 2. All blocks -/

omit [Candle T] [LawfulCandle T] in
/-- Registering does not fail, whatever the table is, and leaves pool and table as they are. -/
theorem wlp_registerBlocks {blockHash : BlockHash} (tokenIds : List UInt32) (n b : ℕ)
    (parent : UInt64) {c : KvCache T} :
    wlp (KvCache.registerBlocks blockHash tokenIds n b parent)
      (fun _ c' => c'.pool = c.pool ∧ c'.table = c.table) (fun _ _ => False) c := by
  induction n generalizing b parent c with
  | zero => exact Or.inr ⟨rfl, rfl⟩
  | succ n ih =>
    exact KvCache.wlp_registerBlocks_succ rfl (fun _ => ih _ _) fun _ _ _ _ _ =>
      (ih _ _).mono (fun _ _ hc => hc) fun _ _ hE => hE

/-- The blocks of a bundle hold the rows that the table maps. -/
def Mapped (cfg : Config) (dtype : DType) (blocks : List (KvBundleBlock T)) (c : KvCache T) : Prop :=
  ∀ (b : ℕ) (block : KvBundleBlock T), blocks[b]? = some block →
    BlockRows cfg dtype block fun layer j => c.pool.kv layer (rowSlot c.table (b * blockSize + j))

omit [LawfulCandle T] in
/-- What was written to the blocks of the table is mapped by it. -/
theorem HoldsBlocks.mapped {blocks : List (KvBundleBlock T)} {c : KvCache T}
    (h : HoldsBlocks cfg blocks c.table.blocks c.pool)
    (hb : ∀ block ∈ blocks, Importable cfg dtype block) : Mapped cfg dtype blocks c := by
  intro b block hblock
  have hi := hb block (List.mem_of_getElem? hblock)
  refine ⟨hi.layers, fun layer lb hlb => ?_⟩
  have hmem := List.mem_of_getElem? hlb
  refine ⟨hi.k lb hmem, hi.v lb hmem, fun j hj => ?_⟩
  have hlt : b < c.table.blocks.length := by
    rw [h.length]
    exact (List.getElem?_eq_some_iff.mp hblock).1
  have hid := List.getElem?_eq_getElem hlt
  rw [← h.rows b block _ hblock hid layer lb hlb j hj, rowSlot, translate_page hj,
    List.getD_eq_getElem?_getD, hid]
  rfl

/-- **An import that fits** returns, and maps the rows of its blocks. -/
theorem wp_importBlocks_rows {c₀ : KvCache T} (h₀ : c₀.Owned) (hb : c₀.table.blocks = [])
    (hlen : c₀.table.len = 0) (hsize : c₀.allocator.size = divCeil cfg.maxSeqLen blockSize)
    (hp : PoolShape cfg dtype c₀.pool) (blockHash : BlockHash) {bundle : KvBundle T}
    (hnum : bundle.blocks.length = bundle.header.tokenCount / blockSize)
    (hal : bundle.header.tokenCount % blockSize = 0)
    (hlayers : bundle.header.numLayers = cfg.numHiddenLayers)
    (hblocks : ∀ block ∈ bundle.blocks, Importable cfg dtype block)
    (hfree : bundle.header.tokenCount / blockSize ≤ c₀.allocator.numFree) :
    wp (KvCache.importBlocks blockHash bundle) (fun m c => (m = bundle.header.tokenCount ∧
      ∃ ids, KvCache.Imported blockHash bundle.header c₀ c ids) ∧ Mapped cfg dtype bundle.blocks c)
      (fun _ _ => False) c₀ := by
  have hk : c₀.pool.kPools.length = cfg.numHiddenLayers := hp.1.kLen
  have htotal := KvCache.wp_importBlocks h₀ hb hlen blockHash hnum hal (hlayers.trans hk.symm)
  have hok : wlp (KvCache.importBlocks blockHash bundle)
      (fun _ c => Mapped cfg dtype bundle.blocks c) (fun _ _ => False) c₀ := by
    have hstart : KvCache.Importing c₀ [] c₀ := .start h₀ hb
    refine wlp_bind (Or.inr ?_)
    rw [wp_get]
    dsimp only
    rw [h₀.blockSize, if_neg (Nat.not_lt_of_le hfree), hlayers]
    refine wlp_bind (Or.inr ?_)
    rw [wp_attempt]
    have hloop := wp_forEach (s := (([] : List ℕ), c₀)) (l := bundle.blocks)
      (f := KvCache.importBlock cfg.numHiddenLayers) (E := fun _ _ => False)
      (I := fun rest s => KvCache.Importing c₀ s.1 s.2 ∧ s.2.table.blocks = s.1 ∧
        PoolShape cfg dtype s.2.pool ∧ rest.length ≤ s.2.allocator.numFree ∧
        ∃ done, bundle.blocks = done ++ rest ∧ HoldsBlocks cfg done s.1 s.2.pool)
      (fun block rest s hI => ?_)
      ⟨hstart, hb, hp, hnum ▸ hfree, [], rfl, rfl, fun b block id h => (by cases h)⟩
    · refine hloop.mono (fun _ s hI => ?_) fun _ _ hE => hE.elim
      obtain ⟨-, htab, -, -, done, hdone, hholds⟩ := hI
      rw [List.append_nil] at hdone
      rw [← hdone, ← htab] at hholds
      refine wlp_bind (Or.inr ?_)
      rw [KvCache.onTable, wp_modify]
      refine wlp_bind ((wlp_registerBlocks _ _ _ _).mono (fun _ c hc => Or.inr ?_) fun _ _ hE => hE)
      refine HoldsBlocks.mapped ?_ hblocks
      rw [hc.1, hc.2]
      exact hholds
    · obtain ⟨hi, htab, hps, hle, done, hdone, hholds⟩ := hI
      have hblock := hblocks block (by rw [hdone]; exact List.mem_append_right _ List.mem_cons_self)
      rw [List.length_cons] at hle
      have hone := KvCache.wp_importBlock hi htab h₀.layers block
      rw [hk] at hone
      refine (hone.and (wp_importBlock_rows hi hsize hps (by omega) hblock)).mono (fun _ s' hs => ?_)
        fun _ _ hE => hE.2
      obtain ⟨⟨hi', htab', hl⟩, hps', id, hno, hids, hw⟩ := hs
      have hf := hi.free
      have hf' := hi'.free
      refine ⟨hi', htab', hps', by omega, done ++ [block], by rw [hdone, List.append_assoc]; rfl, ?_⟩
      rw [hids]
      refine hholds.push (fun id' hid' => ?_) hno hw
      rw [← hsize, ← hi.size]
      exact hi.tracks.inRange id' (Multiset.mem_add.mpr (Or.inl (Multiset.mem_coe.mpr hid')))
  exact (htotal.and_wlp hok).mono (fun _ _ hQ => hQ) fun _ _ hE => hE.2

/-- **After the checks and the reset**, a bundle that fits is imported. -/
theorem wp_importChecked_rows {c : Cache T} (hf : Formed cfg dtype c) {kvs₀ : KvCache T}
    (hr : KvCache.Reset c.kvs kvs₀) (blockHash : BlockHash) {bundle : KvBundle T}
    {prompt : List UInt32} (hv : bundle.Valid) (hacc : c.kvs.Accepts bundle prompt)
    (hfree : bundle.header.tokenCount / blockSize ≤ kvs₀.allocator.numFree) :
    wp (KvCache.importBlocks blockHash bundle) (fun m kvs => (m = bundle.header.tokenCount ∧
      ∃ ids, KvCache.Imported blockHash bundle.header kvs₀ kvs ids) ∧
        Mapped cfg dtype bundle.blocks kvs) (fun _ _ => False) kvs₀ := by
  have hnum := hacc.blocks
  have hal := hacc.aligned
  rw [hf.owned.blockSize] at hnum hal
  have hshape : PoolShape cfg dtype kvs₀.pool := by
    rw [hr.pool]
    exact ⟨hf.pool, hf.kvHeads, hf.headDim⟩
  exact wp_importBlocks_rows hr.owned hr.blocks hr.len (hr.size.trans hf.size) hshape blockHash hnum
    hal (hacc.numLayers.trans hf.pool.kLen) (importable_of_valid hf hv hacc) hfree

/-- What an import leaves, done or rolled back, has the shape it was made with. -/
theorem Formed.of_importBlocks {c : Cache T} (hf : Formed cfg dtype c) {kvs₀ kvs : KvCache T}
    (hr : KvCache.Reset c.kvs kvs₀) {blockHash : BlockHash} {bundle : KvBundle T}
    {r : Except String ℕ} (hrun : KvCache.importBlocks blockHash bundle kvs₀ = some (r, kvs))
    (howned : kvs.Owned) (hsize : kvs.allocator.size = kvs₀.allocator.size) :
    Formed cfg dtype { c with kvs } := by
  have hshape : PoolShape cfg dtype kvs₀.pool := by
    rw [hr.pool]
    exact ⟨hf.pool, hf.kvHeads, hf.headDim⟩
  obtain ⟨hpool, hheads, hdim⟩ := keeps_importBlocks bundle kvs₀ _ kvs hshape hrun
  exact ⟨⟨howned, hsize.trans (hr.size.trans hf.size), hf.maxSeqLen⟩, hpool, hheads, hdim, hf.small⟩

end Import

end Flour.Kv
