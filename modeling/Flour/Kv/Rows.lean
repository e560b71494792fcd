/-
  File:      Flour/Kv/Rows.lean
  Subject:   The K/V rows of the live sequence: what a write does to them and what a read returns.

  * `Formed` -- the cache with the tensors it was made with, all of the pool's shape;
  * `rowSlot` -- the slot of a live position; `liveKv` -- the rows at the slots of all of them;
  * **`wp_writeKv_rows`** -- a batch of the pool's shape is written, to the slots of the last
    positions; **`wp_kvBlocks_rows`** -- the views of a layer are its live rows, in order, and
    `Formed.gather` -- so is the gather of their slots;
  * `formed_steps` -- every run of cache operations keeps the shape, whatever is written or
    imported.
-/
import Flour.Kv.Gather
import Flour.Kv.OwnershipRun

namespace Flour.Kv

open Candle Flour.Lib Flour.Lib.Prog

section Formed

variable {T : Type} [Candle T]

def numSlots (cfg : Config) : ℕ := divCeil cfg.maxSeqLen blockSize * blockSize

/-- The cache has the shape it was made with. -/
structure Formed (cfg : Config) (dtype : DType) (c : Cache T) : Prop extends Sized cfg c where
  pool : c.kvs.pool.Shaped cfg.numHiddenLayers (numSlots cfg) dtype
  kvHeads : c.kvs.pool.kvHeads = cfg.numKeyValueHeads
  headDim : c.kvs.pool.headDim = cfg.headDim
  /-- The check of the rope tables. -/
  small : cfg.maxSeqLen < 2 ^ 32

/-- K and V tensors of `n` positions. -/
structure OfShape (cfg : Config) (dtype : DType) (n : ℕ) (k v : T) : Prop where
  kDims : dims k = [1, cfg.numKeyValueHeads, n, cfg.headDim]
  vDims : dims v = [1, cfg.numKeyValueHeads, n, cfg.headDim]
  kDtype : Candle.dtype k = dtype
  vDtype : Candle.dtype v = dtype

/-- The slot of a position of the sequence. -/
def rowSlot (t : BlockTable) (pos : ℕ) : ℕ := Lib.translate t.blocks blockSize pos

/-- The rows of the live sequence in a layer, in order. -/
def liveKv (c : KvCache T) (layer : ℕ) : List (Row × Row) :=
  (List.range c.table.len).map fun pos => c.pool.kv layer (rowSlot c.table pos)

/-- The rows of the views a layer reads. -/
def liveRows (blocks : List (T × T)) : List (Row × Row) := blocks.flatMap PagedKvPool.viewKv

/-- The rows of a view, one for each position. -/
theorem OfShape.viewKv_eq {cfg : Config} {dtype : DType} {n : ℕ} {k v : T}
    (h : OfShape cfg dtype n k v) :
    PagedKvPool.viewKv (k, v) = (List.range n).map fun i =>
      (batchRow cfg.numKeyValueHeads cfg.headDim k i,
        batchRow cfg.numKeyValueHeads cfg.headDim v i) := by
  unfold PagedKvPool.viewKv rows
  rw [h.kDims, h.vDims]
  exact List.zip_map'

theorem OfShape.length_viewKv {cfg : Config} {dtype : DType} {n : ℕ} {k v : T}
    (h : OfShape cfg dtype n k v) : (PagedKvPool.viewKv (k, v)).length = n := by
  rw [h.viewKv_eq, List.length_map, List.length_range]

theorem le_numSlots (cfg : Config) : cfg.maxSeqLen ≤ numSlots cfg := le_divCeil_mul (by decide) _

theorem formed_new [LawfulCandle T] {cfg : Config} {dtype : DType} {c : Cache T}
    (h : Cache.new cfg dtype = .ok c) : Formed cfg dtype c := by
  have hsized := sized_new h
  obtain ⟨_, hcheck, h⟩ := Flour.Lib.bind_eq_ok.mp h
  obtain ⟨kvs, hkvs, h⟩ := Flour.Lib.bind_eq_ok.mp h
  cases h
  obtain ⟨pool, hpool, hkvs⟩ := Flour.Lib.bind_eq_ok.mp hkvs
  cases hkvs
  obtain ⟨hshape, hheads, hdim⟩ := PagedKvPool.shaped_new hpool
  refine ⟨hsized, hshape, hheads, hdim, ?_⟩
  unfold Cache.checkTables at hcheck
  split_ifs at hcheck with hmod
  rw [← hmod]
  exact Nat.mod_lt _ (by decide)

theorem registry_new {cfg : Config} {dtype : DType} {c : Cache T}
    (h : Cache.new cfg dtype = .ok c) : c.kvs.registry = PrefixRegistry.new := by
  obtain ⟨_, _, h⟩ := Flour.Lib.bind_eq_ok.mp h
  obtain ⟨kvs, hkvs, h⟩ := Flour.Lib.bind_eq_ok.mp h
  cases h
  obtain ⟨pool, _, hkvs⟩ := Flour.Lib.bind_eq_ok.mp hkvs
  cases hkvs
  rfl

variable {cfg : Config} {dtype : DType} {c : Cache T}

/-- Operations on table, registry and allocator keep the shape. -/
theorem Formed.of_pool_eq {c' : Cache T} (h : Formed cfg dtype c) (howned : c'.kvs.Owned)
    (hpool : c'.kvs.pool = c.kvs.pool) (hsize : c'.kvs.allocator.size = c.kvs.allocator.size)
    (hmax : c'.maxSeqLen = c.maxSeqLen) : Formed cfg dtype c' := by
  refine ⟨⟨howned, hsize.trans h.size, hmax.trans h.maxSeqLen⟩, ?_, ?_, ?_, h.small⟩
  · rw [hpool]
    exact h.pool
  · rw [hpool]
    exact h.kvHeads
  · rw [hpool]
    exact h.headDim

/-- The shape of a batch of the pool. -/
theorem Formed.batch_iff (h : Formed cfg dtype c) {n : ℕ} {k v : T} :
    c.kvs.pool.Batch dtype n k v ↔ OfShape cfg dtype n k v := by
  constructor
  · intro hb
    have hk := hb.kDims
    have hv := hb.vDims
    rw [h.kvHeads, h.headDim] at hk hv
    exact ⟨hk, hv, hb.kDtype, hb.vDtype⟩
  · intro hs
    refine ⟨?_, ?_, hs.kDtype, hs.vDtype⟩
    · rw [h.kvHeads, h.headDim]
      exact hs.kDims
    · rw [h.kvHeads, h.headDim]
      exact hs.vDims

/-- The slots of a formed cache fit into a `u32`. -/
theorem Formed.numSlots_le (h : Formed cfg dtype c) : numSlots cfg ≤ 2 ^ 32 := by
  have hsmall := h.small
  unfold numSlots divCeil blockSize
  omega

/-- The slots of a block are slots of the pool. -/
theorem Formed.slot_lt (h : Formed cfg dtype c) {id j : ℕ} (hid : id < c.kvs.allocator.size)
    (hj : j < blockSize) : id * blockSize + j < numSlots cfg := by
  rw [h.size] at hid
  calc id * blockSize + j < (id + 1) * blockSize := by rw [Nat.succ_mul]; omega
    _ ≤ numSlots cfg := Nat.mul_le_mul_right _ hid

/-- Every position below the capacity of the table has a slot of the pool. -/
theorem Formed.rowSlot_lt (h : Formed cfg dtype c) {pos : ℕ} (hpos : pos < c.kvs.table.capacity) :
    rowSlot c.kvs.table pos < numSlots cfg := by
  unfold BlockTable.capacity at hpos
  rw [h.owned.blockSize] at hpos
  refine translate_lt (fun id hid => ?_) hpos
  rw [← h.size]
  exact h.owned.tracks.inRange id (Multiset.mem_add.mpr (Or.inl (Multiset.mem_coe.mpr hid)))

/-- The slots of a logical block are those of one physical block, in order. -/
theorem Formed.block_slots (h : Formed cfg dtype c) {b : ℕ}
    (hb : b * blockSize < c.kvs.table.capacity) :
    ∃ id, c.kvs.table.slot (b * blockSize) = some (id * blockSize) ∧
      (id + 1) * blockSize ≤ numSlots cfg ∧
      ∀ j, j < blockSize → rowSlot c.kvs.table (b * blockSize + j) = id * blockSize + j := by
  rw [← h.owned.blockSize] at hb
  obtain ⟨id, hid, hget, hslot⟩ := slot_of_block hb
  have hmem := h.owned.tracks.inRange id
    (Multiset.mem_add.mpr (Or.inl (Multiset.mem_coe.mpr (List.mem_of_getElem? hid))))
  rw [h.owned.blockSize] at hslot
  refine ⟨id, hslot, ?_, fun j hj => ?_⟩
  · rw [numSlots, ← h.size]
    exact Nat.mul_le_mul_right _ hmem
  · rw [rowSlot, translate_page hj, hget]

/-- **The slots of a range**: no cast loses anything. -/
theorem Formed.slots (h : Formed cfg dtype c) (start : ℕ) {stop : ℕ}
    (hstop : stop ≤ c.kvs.table.capacity) :
    c.kvs.table.slots start stop =
      some ((List.range' start (stop - start)).map (rowSlot c.kvs.table)) := by
  rw [BlockTable.slots_eq start hstop, Option.some.injEq]
  refine List.map_congr_left fun pos hpos => ?_
  rw [List.mem_range'_1] at hpos
  have hcap : pos < c.kvs.table.capacity := by omega
  have hlt := Nat.lt_of_lt_of_le (h.rowSlot_lt hcap) h.numSlots_le
  rw [h.owned.blockSize]
  exact Nat.mod_eq_of_lt hlt

end Formed

/-! ## 1. Writing -/

section Write

variable {T : Type} [Candle T] [LawfulCandle T] {cfg : Config} {dtype : DType} {c : Cache T}

/-- The slots of the last `n` positions. -/
def lastSlots (t : BlockTable) (n : ℕ) : List ℕ := (List.range' (t.len - n) n).map (rowSlot t)

/-- The state after the rows `src` were written to the slots of the last `n` positions. -/
structure WroteRows (cfg : Config) (dtype : DType) (layer n : ℕ) (src : ℕ → Row × Row)
    (c c' : Cache T) : Prop where
  formed : Formed cfg dtype c'
  wrote : KvCache.Wrote c.kvs c'.kvs
  kv : ∀ l s, s < numSlots cfg → c'.kvs.pool.kv l s =
    if l = layer then writeRows src 0 0 (lastSlots c.kvs.table n) (c.kvs.pool.kv layer) s
    else c.kvs.pool.kv l s

/-- **Writing a batch** of the pool's shape. -/
theorem wp_writeKv_rows (h : Formed cfg dtype c) {layer n : ℕ} (hl : layer < cfg.numHiddenLayers)
    {k v : T} (hs : OfShape cfg dtype n k v) (hn : n ≤ c.kvs.table.len)
    (hmax : n ≤ cfg.maxSeqLen) :
    wp (Cache.writeKv layer k v)
      (fun _ c' => WroteRows cfg dtype layer n (c.kvs.pool.batchKv k v) c c')
      (fun _ _ => False) c := by
  have hb := h.batch_iff.mpr hs
  have hcap := h.owned.len_le
  have hslots := h.slots (c.kvs.table.len - n) hcap
  rw [Nat.sub_sub_self hn] at hslots
  have hlen : (lastSlots c.kvs.table n).length = n := by
    rw [lastSlots, List.length_map, List.length_range']
  have hin : ∀ s ∈ lastSlots c.kvs.table n, s < numSlots cfg := by
    intro s hs
    obtain ⟨pos, hpos, rfl⟩ := List.mem_map.mp hs
    rw [List.mem_range'_1] at hpos
    exact h.rowSlot_lt (by omega)
  obtain ⟨p', hw, hshape, hheads, hdim, hkv⟩ := h.pool.write hl (by rwa [hlen])
    (by rw [hlen]; exact le_trans hmax (le_numSlots cfg)) hin
  have hlayout := PagedKvPool.write_layout hw
  have hd : (dims k)[2]? = some n := by rw [hb.kDims]; rfl
  refine Cache.wp_onKvs.mpr ?_
  unfold KvCache.writeCurrent
  rw [wp_bind, wp_get, hd, wp_bind, wp_ofOption_some, if_neg (Nat.not_lt_of_le hn), hslots, wp_bind,
    wp_ofOption_some, KvCache.onPool, wp_zoom]
  refine (wp_of_eq_ok hw).mpr ?_
  have hwrote : KvCache.Wrote c.kvs { c.kvs with pool := p' } := ⟨hlayout, rfl, rfl, rfl⟩
  exact ⟨⟨⟨hwrote.owned h.owned, h.size, h.maxSeqLen⟩, hshape, hheads.trans h.kvHeads,
    hdim.trans h.headDim, h.small⟩, hwrote, hkv⟩

end Write

/-! ## 2. Reading -/

section Read

variable {T : Type} [Candle T] [LawfulCandle T] {cfg : Config} {dtype : DType} {c : Cache T}

omit [LawfulCandle T] in
theorem Formed.liveBelow (h : Formed cfg dtype c) : c.kvs.table.LiveBelow (numSlots cfg) := by
  refine (BlockTable.liveBelow_iff h.owned.len_le).mpr fun pos hpos => ?_
  rw [h.owned.blockSize]
  exact h.rowSlot_lt (Nat.lt_of_lt_of_le hpos h.owned.len_le)

/-- **Reading a layer** returns its live rows, in order and in views that are not empty, and changes
    nothing. -/
theorem wp_kvBlocks_rows (h : Formed cfg dtype c) {layer : ℕ} (hl : layer < cfg.numHiddenLayers) :
    wp (Cache.kvBlocks layer) (fun blocks c' => c' = c ∧
      (∀ view ∈ blocks, ∃ n, 0 < n ∧ OfShape cfg dtype n view.1 view.2) ∧
      liveRows blocks = liveKv c.kvs layer) (fun _ _ => False) c := by
  have hbs := h.owned.blockSize
  have hsize : 0 < c.kvs.table.blockSize := hbs ▸ Nat.zero_lt_succ 15
  have hin := (BlockTable.liveBelow_iff h.owned.len_le).mp h.liveBelow
  refine Cache.wp_onKvs.mpr ((wp_gatherBlocks h.pool hl hsize h.owned.len_le hin).mono
    (fun blocks kvs hb => ?_) fun _ _ hE => hE)
  obtain ⟨rfl, hpages⟩ := hb
  refine ⟨rfl, fun view hview => ?_, ?_⟩
  · obtain ⟨n, hn, hbatch⟩ := batch_of_mem hview hpages
    exact ⟨n, hn, h.batch_iff.mp hbatch⟩
  · rw [liveRows, flatMap_viewKv (le_divCeil_mul hsize _) hpages, hbs]
    rfl

/-- The live rows of a layer are also what a gather of the live slots returns, if no slot is the
    masked index. -/
theorem Formed.gather [SelectCandle T] [LawfulSelect T] (h : Formed cfg dtype c) {layer : ℕ}
    (hl : layer < cfg.numHiddenLayers) (hmax : numSlots cfg ≤ u32Max) :
    ∃ slots k v, c.kvs.table.slots 0 c.kvs.table.len = some slots ∧
      c.kvs.pool.gather layer slots = some (.ok (k, v)) ∧
      OfShape cfg dtype c.kvs.table.len k v ∧
      PagedKvPool.viewKv (k, v) = liveKv c.kvs layer := by
  obtain ⟨slots, k, v, hslots, hgather, hbatch, hkv⟩ := gather_slots h.pool hl h.owned.len_le
    h.liveBelow fun pos s hpos hs => Nat.lt_of_lt_of_le (h.liveBelow pos s hpos hs) hmax
  rw [h.owned.blockSize] at hkv
  exact ⟨slots, k, v, hslots, hgather, h.batch_iff.mp hbatch, hkv⟩

end Read

/-! ## 3. Every run of cache operations -/

section Run

variable {T : Type} [Candle T] [LawfulCandle T] {cfg : Config} {dtype : DType}
  {blockHash : BlockHash}

/-- The tensors of the pool have the shape they were made with. -/
def PoolShape (cfg : Config) (dtype : DType) (p : PagedKvPool T) : Prop :=
  p.Shaped cfg.numHiddenLayers (numSlots cfg) dtype ∧ p.kvHeads = cfg.numKeyValueHeads ∧
    p.headDim = cfg.headDim

omit [Candle T] [LawfulCandle T] in
/-- What works on the allocator alone leaves the pool as it is. -/
theorem keeps_allocator {α : Type} {P : PagedKvPool T → Prop} (x : Prog BlockAllocator α) :
    Keeps (fun c : KvCache T => P c.pool)
      (zoom KvCache.allocator (fun c allocator => { c with allocator }) x) :=
  keeps_zoom (I := fun _ => True) (fun _ _ _ _ _ => trivial) (fun _ _ => trivial)
    fun _ _ h _ => h

theorem keeps_writeCurrent (layer : ℕ) (k v : T) :
    Keeps (fun c => PoolShape cfg dtype c.pool) (KvCache.writeCurrent layer k v) := by
  refine keeps_bind keeps_get fun c => keeps_bind (keeps_ofOption _) fun n => ?_
  refine keeps_ite (fun _ _ _ _ h => (by cases h)) (keeps_bind (keeps_ofOption _) fun slots => ?_)
  refine keeps_zoom (I := PoolShape cfg dtype) (keeps_of fun p r p' hp hw => ?_) (fun _ h => h)
    fun _ _ _ h => h
  obtain ⟨hs, hheads, hdim⟩ := hp.1.write_any hw
  exact ⟨hs, hheads.trans hp.2.1, hdim.trans hp.2.2⟩

omit [LawfulCandle T] in
theorem keeps_registerBlocks (tokenIds : List UInt32) (n b : ℕ) (parent : UInt64) :
    Keeps (fun c : KvCache T => PoolShape cfg dtype c.pool)
      (KvCache.registerBlocks blockHash tokenIds n b parent) := by
  induction n generalizing b parent with
  | zero => exact keeps_pure ()
  | succ n ih =>
    refine keeps_bind keeps_get fun c =>
      keeps_ite (ih _ _) (keeps_bind (keeps_ofOption _) fun id => ?_)
    refine keeps_bind (keeps_allocator _) fun _ => keeps_bind (keeps_modify fun _ h => h) fun _ => ?_
    exact ih _ _

omit [Candle T] [LawfulCandle T] in
/-- Giving references back leaves the pool as it is. -/
theorem keeps_release {P : PagedKvPool T → Prop} (l : List ℕ) :
    Keeps (fun c : KvCache T => P c.pool) (forEach KvCache.decref l) :=
  keeps_forEach (fun _ => keeps_allocator _) l

/-- **Importing one block** writes tensors of any kind, and the pool keeps its shape. -/
theorem keeps_importBlock (numLayers : ℕ) (block : KvBundleBlock T) :
    Keeps (fun s : List ℕ × KvCache T => PoolShape cfg dtype s.2.pool)
      (KvCache.importBlock numLayers block) := by
  have hsnd : ∀ {α : Type} {x : Prog (KvCache T) α},
      Keeps (fun c : KvCache T => PoolShape cfg dtype c.pool) x →
        Keeps (fun s : List ℕ × KvCache T => PoolShape cfg dtype s.2.pool)
          (zoom Prod.snd (fun s c => (s.1, c)) x) :=
    fun hx => keeps_zoom hx (fun _ h => h) fun _ _ _ h => h
  refine keeps_ite (keeps_fail _) (keeps_bind (hsnd (keeps_allocator _)) fun r => ?_)
  cases r with
  | none => exact keeps_fail _
  | some id =>
    refine keeps_bind (keeps_modify fun _ h => h) fun _ => keeps_bind (hsnd ?_) fun _ =>
      hsnd (keeps_modify fun _ h => h)
    refine keeps_forEach (fun e => ?_) _
    refine keeps_zoom (I := PoolShape cfg dtype) (keeps_of fun p r p' hp hw => ?_) (fun _ h => h)
      fun _ _ _ h => h
    obtain ⟨hs, hheads, hdim⟩ := hp.1.writeBlock hw
    exact ⟨hs, hheads.trans hp.2.1, hdim.trans hp.2.2⟩

theorem keeps_importBlocks (bundle : KvBundle T) :
    Keeps (fun c => PoolShape cfg dtype c.pool) (KvCache.importBlocks blockHash bundle) := by
  refine keeps_bind keeps_get fun c => keeps_ite (keeps_fail _) ?_
  refine keeps_bind (keeps_attempt (keeps_forEach (keeps_importBlock _) _)) fun r => ?_
  obtain ⟨r, allocated⟩ := r
  cases r with
  | error e =>
    exact keeps_bind (keeps_release _) fun _ => keeps_bind (keeps_modify fun _ h => h) fun _ =>
      keeps_fail _
  | ok u =>
    exact keeps_bind (keeps_modify fun _ h => h) fun _ =>
      keeps_bind (keeps_registerBlocks _ _ _ _) fun _ => keeps_pure _

/-- **An import** keeps the shape of the pool, whatever the bundle holds. -/
theorem keeps_importPrefixBundle (bundle : KvBundle T) (prompt : List UInt32) :
    Keeps (fun c => PoolShape cfg dtype c.pool)
      (KvCache.importPrefixBundle blockHash bundle prompt) := by
  refine keeps_bind ?_ fun _ => keeps_bind ?_ fun _ => keeps_importBlocks bundle
  · refine keeps_bind keeps_get fun c => ?_
    refine keeps_ite (keeps_fail _) (keeps_ite (keeps_fail _) (keeps_ite (keeps_fail _)
      (keeps_ite (keeps_fail _) (keeps_bind (keeps_ofOption _) fun _ => ?_))))
    exact keeps_ite (keeps_fail _) (keeps_ite (keeps_fail _) (keeps_ite (keeps_fail _)
      (keeps_ite (keeps_fail _) (keeps_ite (keeps_fail _) (keeps_pure _)))))
  · exact keeps_bind keeps_get fun c => keeps_bind (keeps_release _) fun _ =>
      keeps_modify fun _ h => h

/-- An operation keeps the shape the cache was made with. -/
theorem Formed.step {c c' : Cache T} (h : Formed cfg dtype c) {op : Op T}
    (hs : (cacheLts T blockHash).step c op c') : Formed cfg dtype c' := by
  obtain ⟨hk, hpool⟩ := kept_step h.owned hs
  obtain ⟨hop, r, hrun⟩ := hs
  have hshape : PoolShape cfg dtype c'.kvs.pool := by
    have h₀ : PoolShape cfg dtype c.kvs.pool := ⟨h.pool, h.kvHeads, h.headDim⟩
    have hkvs : ∀ {α : Type} {x : Prog (KvCache T) α},
        Keeps (fun c : KvCache T => PoolShape cfg dtype c.pool) x →
          Keeps (fun c : Cache T => PoolShape cfg dtype c.kvs.pool) (Cache.onKvs x) :=
      fun hx => keeps_zoom hx (fun _ h => h) fun _ _ _ h => h
    cases op with
    | writeKv layer k v => exact hkvs (keeps_writeCurrent layer k v) c r c' h₀ hrun
    | importPrefixBundle bundle prompt =>
      exact keeps_bind (hkvs (keeps_importPrefixBundle bundle prompt)) (fun _ => keeps_pure ()) c r c'
        h₀ hrun
    | _ =>
      rw [hpool trivial]
      exact h₀
  exact ⟨⟨hk.owned, hk.size.trans h.size, hk.maxSeqLen.trans h.maxSeqLen⟩, hshape.1, hshape.2.1,
    hshape.2.2, h.small⟩

/-- **Every state reached** by cache operations has this shape. -/
theorem formed_steps {c₀ c : Cache T} (hnew : Cache.new cfg dtype = .ok c₀) {ops : List (Op T)}
    (hr : (cacheLts T blockHash).Steps c₀ ops c) : Formed cfg dtype c :=
  hr.invariant (I := fun _ c => Formed cfg dtype c) (formed_new hnew) fun _ _ _ _ _ h hs => h.step hs

end Run

end Flour.Kv
