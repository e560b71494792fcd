/-
  File:      Flour/Kv/Gather.lean
  Subject:   The two ways to read the live rows of a layer: `KvCache::gather_blocks` of
             `src/models/common/cache.rs`, one view for each physical block, and
             `PagedKvPool::gather` of `src/models/common/paged.rs`, by the slots of all positions.

  * `SelectCandle` -- `index_select`, with its behaviour on the shapes of a pool.
  * `PageView` -- a view inside one physical block; `wp_gatherFrom` -- what `gather_blocks` returns
    is one of them for each logical block, in order.
  * **`gatherBlocks_eq_gather`** -- the views hold, one after the other, the rows that `gather`
    returns for the slots of the live positions, for any block size and any table. The slots have
    to be below `u32Max`: they are cast to the element type of an index tensor.
-/
import Flour.Kv.KvCache

namespace Flour.Kv

open Candle Flour.Lib Flour.Lib.Prog

/-! ## 1. Selection by index -/

/-- The index that selects zeros. -/
def u32Max : ℕ := 2 ^ 32 - 1

/-- Selection along an axis, by an index tensor of `u32` values, given as their list. -/
class SelectCandle (T : Type) [Candle T] where
  indexSelect : T → List ℕ → ℕ → Except String T

open SelectCandle

/-- What reading a pool relies on: an index of the axis selects what stands there, and a view is
    within its axis. -/
class LawfulSelect (T : Type) [Candle T] [SelectCandle T] : Prop where
  indexSelect_slots {t : T} {ids : List ℕ} {a b c : ℕ} (h : dims t = [a, b, c])
    (hids : ∀ s ∈ ids, s < b ∧ s < u32Max) :
    ∃ t', indexSelect t ids 1 = .ok t' ∧ dims t' = [a, ids.length, c] ∧ dtype t' = dtype t ∧
      ∀ i j k s, i < a → ids[j]? = some s → k < c → elem t' [i, j, k] = elem t [i, s, k]
  narrow_le {t t' : T} {a b c s n : ℕ} (h : dims t = [a, b, c]) (ht : narrow t 1 s n = .ok t') :
    s + n ≤ b

section Select

variable {T : Type} [Candle T] [LawfulCandle T] [SelectCandle T] [LawfulSelect T]

/-- **A selection** has the rows of the listed slots, in the order of the list. -/
theorem rows_select {t : T} {ids : List ℕ} {a b c : ℕ} (h : dims t = [a, b, c])
    (hids : ∀ s ∈ ids, s < b ∧ s < u32Max) :
    ∃ u t', indexSelect t ids 1 = .ok u ∧ unsqueeze u 0 = .ok t' ∧
      dims t' = [1, a, ids.length, c] ∧ dtype t' = dtype t ∧ rows t' = ids.map (row a c t) := by
  obtain ⟨u, hu, hd, hdt, he⟩ := LawfulSelect.indexSelect_slots h hids
  obtain ⟨t', ht', hd', hdt', he'⟩ := LawfulCandle.unsqueeze_zero u
  have hdims : dims t' = [1, a, ids.length, c] := by rw [hd', hd]
  refine ⟨u, t', hu, ht', hdims, hdt'.trans hdt, ?_⟩
  unfold rows
  rw [hdims]
  refine List.ext_getElem (by simp) fun j hj hj' => ?_
  have hj : j < ids.length := by rwa [List.length_map] at hj'
  rw [List.getElem_map, List.getElem_map, List.getElem_range]
  unfold batchRow row
  refine List.map_congr_left fun i hi => List.map_congr_left fun k hk => ?_
  rw [he', he i j k _ (List.mem_range.mp hi) (List.getElem?_eq_getElem hj) (List.mem_range.mp hk)]

end Select

namespace Dense

/-- The elements of a selection along `axis`; the largest index selects zeros. -/
def selected (t : Dense) (ids : List ℕ) (axis : ℕ) (idx : List ℕ) : ℕ :=
  let s := ids.getD (idx.getD axis 0) 0
  if s = u32Max then 0 else t.elem (idx.set axis s)

instance : SelectCandle Dense where
  indexSelect t ids axis :=
    match t.dims[axis]? with
    | none => .error "dimension index out of range in index-select"
    | some d =>
      if ids.all fun s => s < d || s = u32Max then
        .ok { t with dims := t.dims.set axis ids.length, contiguous := true,
                     elem := t.selected ids axis }
      else .error "invalid index in index-select"

instance : LawfulSelect Dense where
  indexSelect_slots {t ids a b c} h hids := by
    have h : t.dims = [a, b, c] := h
    have hall : ids.all (fun s => s < b || s = u32Max) = true := by
      simp only [List.all_eq_true, Bool.or_eq_true, decide_eq_true_eq]
      exact fun s hs => Or.inl (hids s hs).1
    refine ⟨{ t with dims := [a, ids.length, c], contiguous := true, elem := t.selected ids 1 }, ?_,
      rfl, rfl, fun i j k s _ hs _ => ?_⟩
    · simp [SelectCandle.indexSelect, h, hall]
    · have hlt := (hids s (List.mem_of_getElem? hs)).2
      simp [Candle.elem, selected, hs, Nat.ne_of_lt hlt]
  narrow_le {t t' a b c s n} h ht := by
    have h : t.dims = [a, b, c] := h
    by_contra hn
    simp [Candle.narrow, h, hn] at ht

end Dense

namespace PagedKvPool

variable {T : Type} [Candle T] [SelectCandle T]

/-- The listed slots, as `(1, kv_heads, n, head_dim)`. -/
def gather (p : PagedKvPool T) (layer : ℕ) (slots : List ℕ) : Option (Except String (T × T)) :=
  match p.kPools[layer]?, p.vPools[layer]? with
  | some kPool, some vPool => some do
    let k ← indexSelect kPool slots 1
    let v ← indexSelect vPool slots 1
    let k ← unsqueeze k 0
    let v ← unsqueeze v 0
    .ok (k, v)
  | _, _ => none

/-- **A gather of in-range slots** succeeds, has the shape of a batch and their rows. -/
theorem Shaped.gather [LawfulCandle T] [LawfulSelect T] {p : PagedKvPool T}
    {numLayers numSlots : ℕ} {dt : DType} (h : p.Shaped numLayers numSlots dt) {layer : ℕ}
    (hl : layer < numLayers) {slots : List ℕ} (hslots : ∀ s ∈ slots, s < numSlots ∧ s < u32Max) :
    ∃ k v, p.gather layer slots = some (.ok (k, v)) ∧ p.Batch dt slots.length k v ∧
      viewKv (k, v) = slots.map (p.kv layer) := by
  obtain ⟨kPool, vPool, hk, hv, hkp, hvp⟩ := h.getElem hl
  obtain ⟨ku, k, hku, hkk, hkd, hkdt, hkr⟩ := rows_select hkp.dims hslots
  obtain ⟨vu, v, hvu, hvv, hvd, hvdt, hvr⟩ := rows_select hvp.dims hslots
  refine ⟨k, v, ?_, ⟨hkd, hvd, hkdt.trans hkp.dtype, hvdt.trans hvp.dtype⟩, ?_⟩
  · unfold PagedKvPool.gather
    simp only [hk, hv, Option.some.injEq, bind_eq_ok]
    exact ⟨ku, hku, vu, hvu, k, hkk, v, hvv, rfl⟩
  · unfold viewKv
    rw [hkr, hvr, List.zip_map']
    exact List.map_congr_left fun s _ => by simp [kv, hk, hv]

end PagedKvPool

/-! ## 2. The views of the blocks -/

/-- A view of the first `n` slots of the physical block `id`. -/
structure PageView {T : Type} [Candle T] (p : PagedKvPool T) (dt : DType) (size layer id n : ℕ)
    (view : T × T) : Prop where
  pos : 0 < n
  le : n ≤ size
  isView : p.blockView layer (id * size) n = some (.ok view)
  batch : p.Batch dt n view.1 view.2
  rows : PagedKvPool.viewKv view = (List.range n).map fun j => p.kv layer (id * size + j)

/-- How many positions of a logical block are live. -/
def BlockTable.liveIn (t : BlockTable) (b : ℕ) : ℕ := min t.blockSize (t.len - b * t.blockSize)

/-- A view of the live positions of a logical block, inside the physical block it is mapped to. -/
def IsPageOf {T : Type} [Candle T] (p : PagedKvPool T) (t : BlockTable) (dt : DType) (layer b : ℕ)
    (view : T × T) : Prop :=
  ∃ id, t.blocks[b]? = some id ∧ PageView p dt t.blockSize layer id (t.liveIn b) view

section Pages

variable {T : Type} [Candle T] {c : KvCache T} {numLayers numSlots layer : ℕ} {dt : DType}

/-- The first position of a live block is the first slot of its physical block. -/
theorem slot_of_block {t : BlockTable} {b : ℕ} (hb : b * t.blockSize < t.capacity) :
    ∃ id, t.blocks[b]? = some id ∧ t.blocks.getD b 0 = id ∧
      t.slot (b * t.blockSize) = some (id * t.blockSize) := by
  have hsize : 0 < t.blockSize := Nat.pos_of_ne_zero fun h0 => by
    rw [BlockTable.capacity, h0, Nat.mul_zero, Nat.mul_zero] at hb
    exact Nat.lt_irrefl 0 hb
  have hlt : b < t.blocks.length := Nat.lt_of_mul_lt_mul_right hb
  have hid := List.getElem?_eq_getElem hlt
  have hget : t.blocks.getD b 0 = t.blocks[b] := List.getD_eq_getElem _ _ hlt
  refine ⟨t.blocks[b], hid, hget, ?_⟩
  have hpage := translate_page hsize t.blocks b
  rw [Nat.add_zero, Nat.add_zero, hget] at hpage
  rw [BlockTable.slot_eq hb, hpage]

/-- The rows of such views, for all logical blocks, are those of the live positions, in order. -/
theorem flatMap_viewKv {m : ℕ} {views : List (T × T)} (hm : c.table.len ≤ m * c.table.blockSize)
    (h : List.Forall₂ (IsPageOf c.pool c.table dt layer) (List.range m) views) :
    views.flatMap PagedKvPool.viewKv = (List.range c.table.len).map fun pos =>
      c.pool.kv layer (translate c.table.blocks c.table.blockSize pos) := by
  rw [← flatMap_pages _ _ hm]
  generalize List.range m = bs at h
  induction h with
  | nil => rfl
  | @cons b view bs views hb _ ih =>
    obtain ⟨id, hid, hview⟩ := hb
    have hget : c.table.blocks.getD b 0 = id := by
      rw [List.getD_eq_getElem?_getD, hid]
      rfl
    rw [List.flatMap_cons, List.flatMap_cons, ih, hview.rows, hget]
    rfl

/-- Each of them has the shape of a batch, and is not empty. -/
theorem batch_of_mem {bs : List ℕ} {views : List (T × T)} {view : T × T} (hview : view ∈ views)
    (h : List.Forall₂ (IsPageOf c.pool c.table dt layer) bs views) :
    ∃ n, 0 < n ∧ c.pool.Batch dt n view.1 view.2 := by
  obtain ⟨i, hi⟩ := List.getElem?_of_mem hview
  obtain ⟨hlt, rfl⟩ := List.getElem?_eq_some_iff.mp hi
  obtain ⟨id, -, hpage⟩ := h.get (h.length_eq ▸ hlt) hlt
  exact ⟨_, hpage.pos, hpage.batch⟩

variable [LawfulCandle T]

/-- **One view for each logical block**, if the slots of the live positions are in the pool. -/
theorem wp_gatherFrom (hp : c.pool.Shaped numLayers numSlots dt) (hl : layer < numLayers)
    (hsize : 0 < c.table.blockSize) (hlen : c.table.len ≤ c.table.capacity)
    (hin : ∀ pos < c.table.len, translate c.table.blocks c.table.blockSize pos < numSlots)
    {bs : List ℕ} (hbs : ∀ b ∈ bs, b * c.table.blockSize < c.table.len) :
    wp (KvCache.gatherFrom layer bs) (fun views c' => c' = c ∧
        List.Forall₂ (IsPageOf c.pool c.table dt layer) bs views) (fun _ _ => False) c := by
  induction bs with
  | nil => exact ⟨rfl, .nil⟩
  | cons b rest ih =>
    obtain ⟨hb, hrest⟩ := List.forall_mem_cons.mp hbs
    obtain ⟨id, hid, hget, hstart⟩ := slot_of_block (Nat.lt_of_lt_of_le hb hlen)
    have hpos : 0 < c.table.liveIn b := by
      unfold BlockTable.liveIn
      omega
    have hle : c.table.liveIn b ≤ c.table.blockSize := Nat.min_le_left _ _
    -- the last live position of the block has the last slot of the view
    have hfit : id * c.table.blockSize + c.table.liveIn b ≤ numSlots := by
      have hlast := hin (b * c.table.blockSize + (c.table.liveIn b - 1)) (by
        unfold BlockTable.liveIn
        omega)
      rw [translate_page (by omega), hget] at hlast
      omega
    obtain ⟨view, hview, hbatch, hrows⟩ := hp.blockView hl hfit
    rw [KvCache.gatherFrom, wp_bind, wp_get]
    dsimp only
    rw [hstart, wp_bind, wp_ofOption_some, wp_bind, KvCache.onPool, wp_zoom]
    refine (wp_of_eq_ok (by rw [← BlockTable.liveIn, hview]; rfl)).mpr ?_
    rw [wp_bind]
    refine (ih hrest).mono (fun views c' hviews => ?_) fun _ _ hE => hE
    exact ⟨hviews.1, .cons ⟨id, hid, hpos, hle, hview, hbatch, hrows⟩ hviews.2⟩

theorem wp_gatherBlocks (hp : c.pool.Shaped numLayers numSlots dt) (hl : layer < numLayers)
    (hsize : 0 < c.table.blockSize) (hlen : c.table.len ≤ c.table.capacity)
    (hin : ∀ pos < c.table.len, translate c.table.blocks c.table.blockSize pos < numSlots) :
    wp (KvCache.gatherBlocks layer) (fun views c' => c' = c ∧
        List.Forall₂ (IsPageOf c.pool c.table dt layer)
          (List.range (divCeil c.table.len c.table.blockSize)) views) (fun _ _ => False) c := by
  unfold KvCache.gatherBlocks
  rw [wp_bind, wp_get]
  exact wp_gatherFrom hp hl hsize hlen hin fun b hb =>
    (lt_divCeil_iff hsize).mp (List.mem_range.mp hb)

end Pages

/-! ## 3. Views and gather -/

namespace PagedKvPool

variable {T : Type} [Candle T] {p : PagedKvPool T} {dt : DType} {n : ℕ} {view : T × T}

theorem length_rows {t : T} {a b c : ℕ} (h : dims t = [a, b, n, c]) : (rows t).length = n := by
  unfold rows
  rw [h, List.length_map, List.length_range]

theorem Batch.map_fst (h : p.Batch dt n view.1 view.2) :
    (viewKv view).map Prod.fst = rows view.1 :=
  List.map_fst_zip (by rw [length_rows h.kDims, length_rows h.vDims])

theorem Batch.map_snd (h : p.Batch dt n view.1 view.2) :
    (viewKv view).map Prod.snd = rows view.2 :=
  List.map_snd_zip (by rw [length_rows h.kDims, length_rows h.vDims])

/-- A view that was returned is within its axis. -/
theorem Shaped.blockView_le [SelectCandle T] [LawfulSelect T] {numLayers numSlots : ℕ}
    (h : p.Shaped numLayers numSlots dt) {layer start : ℕ} (hl : layer < numLayers)
    (hview : p.blockView layer start n = some (.ok view)) : start + n ≤ numSlots := by
  obtain ⟨kPool, vPool, hk, hv, hkp, hvp⟩ := h.getElem hl
  unfold PagedKvPool.blockView at hview
  simp only [hk, hv, Option.some.injEq, bind_eq_ok] at hview
  obtain ⟨_, ⟨_, hnarrow, -⟩, -⟩ := hview
  exact LawfulSelect.narrow_le hkp.dims hnarrow

end PagedKvPool

namespace BlockTable

/-- The slots of the live positions are below `n`. -/
def LiveBelow (t : BlockTable) (n : ℕ) : Prop :=
  ∀ pos s, pos < t.len → t.slot pos = some s → s < n

theorem liveBelow_iff {t : BlockTable} (hlen : t.len ≤ t.capacity) {n : ℕ} :
    t.LiveBelow n ↔ ∀ pos < t.len, translate t.blocks t.blockSize pos < n := by
  constructor
  · exact fun h pos hpos => h pos _ hpos (slot_eq (Nat.lt_of_lt_of_le hpos hlen))
  · intro h pos s hpos hs
    rw [slot_eq (Nat.lt_of_lt_of_le hpos hlen)] at hs
    cases hs
    exact h pos hpos

end BlockTable

section Gather

variable {T : Type} [Candle T] [LawfulCandle T] [SelectCandle T] [LawfulSelect T] {c : KvCache T}
  {numLayers numSlots layer : ℕ} {dt : DType}

omit [LawfulCandle T] in
/-- What was returned was read inside the pool. -/
theorem wlp_gatherFrom_le (hp : c.pool.Shaped numLayers numSlots dt) (hl : layer < numLayers)
    (hlen : c.table.len ≤ c.table.capacity) {bs : List ℕ}
    (hbs : ∀ b ∈ bs, b * c.table.blockSize < c.table.len) :
    wlp (KvCache.gatherFrom layer bs) (fun _ _ => ∀ b ∈ bs,
      c.table.blocks.getD b 0 * c.table.blockSize + c.table.liveIn b ≤ numSlots)
      (fun _ _ => True) c := by
  induction bs with
  | nil => exact Or.inr fun _ hb => absurd hb List.not_mem_nil
  | cons b rest ih =>
    obtain ⟨hb, hrest⟩ := List.forall_mem_cons.mp hbs
    obtain ⟨id, -, hget, hstart⟩ := slot_of_block (Nat.lt_of_lt_of_le hb hlen)
    refine wlp_bind (Or.inr ?_)
    rw [wp_get]
    dsimp only
    rw [hstart]
    refine wlp_bind (Or.inr ?_)
    rw [wp_ofOption_some]
    refine wlp_bind (wlp_zoom ?_)
    rw [← BlockTable.liveIn]
    cases hview : c.pool.blockView layer (id * c.table.blockSize) (c.table.liveIn b) with
    | none => exact Or.inl (by rw [Prog.of, hview]; rfl)
    | some r =>
      cases r with
      | error e => exact Or.inr ((wp_of_eq_error (by rw [hview]; rfl)).mpr trivial)
      | ok view =>
        refine Or.inr ((wp_of_eq_ok (by rw [hview]; rfl)).mpr (wlp_bind ?_))
        refine (ih hrest).mono (fun _ _ h => Or.inr ?_) fun _ _ _ => trivial
        exact List.forall_mem_cons.mpr ⟨hget ▸ hp.blockView_le hl hview, h⟩

/-- The views are returned if, and only if, the slots of the live positions are in the pool. -/
theorem gatherBlocks_returns_iff (hp : c.pool.Shaped numLayers numSlots dt) (hl : layer < numLayers)
    (hsize : 0 < c.table.blockSize) (hlen : c.table.len ≤ c.table.capacity) :
    (∃ views c', KvCache.gatherBlocks layer c = some (.ok views, c')) ↔
      c.table.LiveBelow numSlots := by
  have hbs : ∀ b ∈ List.range (divCeil c.table.len c.table.blockSize),
      b * c.table.blockSize < c.table.len := fun b hb =>
    (lt_divCeil_iff hsize).mp (List.mem_range.mp hb)
  rw [BlockTable.liveBelow_iff hlen]
  constructor
  · rintro ⟨views, c', hrun⟩ pos hpos
    have hle := (wlp_gatherFrom_le hp hl hlen hbs).of_ok hrun
    have hpage : pos / c.table.blockSize < divCeil c.table.len c.table.blockSize :=
      Nat.div_lt_of_lt_mul (Nat.mul_comm _ _ ▸ Nat.lt_of_lt_of_le hpos (le_divCeil_mul hsize _))
    have hmod := Nat.mod_lt pos hsize
    have hdiv := Nat.div_add_mod' pos c.table.blockSize
    have hfit := hle _ (List.mem_range.mpr hpage)
    unfold BlockTable.liveIn at hfit
    unfold Lib.translate
    omega
  · intro hin
    obtain ⟨views, c', hrun, -⟩ := (wp_gatherBlocks hp hl hsize hlen hin).returns
    exact ⟨views, c', hrun⟩

/-- What is returned is one view for each logical block. -/
theorem pages_of_gatherBlocks (hp : c.pool.Shaped numLayers numSlots dt) (hl : layer < numLayers)
    (hsize : 0 < c.table.blockSize) (hlen : c.table.len ≤ c.table.capacity) {views : List (T × T)}
    {c' : KvCache T} (hrun : KvCache.gatherBlocks layer c = some (.ok views, c')) :
    c' = c ∧ List.Forall₂ (IsPageOf c.pool c.table dt layer)
      (List.range (divCeil c.table.len c.table.blockSize)) views := by
  have hin := (gatherBlocks_returns_iff hp hl hsize hlen).mp ⟨views, c', hrun⟩
  exact (wp_of_ok hrun).mp
    (wp_gatherBlocks hp hl hsize hlen ((BlockTable.liveBelow_iff hlen).mp hin))

omit [LawfulCandle T] [SelectCandle T] [LawfulSelect T] in
/-- The K rows and the V rows of such views. -/
theorem flatMap_rows {bs : List ℕ} {views : List (T × T)}
    (h : List.Forall₂ (IsPageOf c.pool c.table dt layer) bs views) :
    views.flatMap (fun view => rows view.1) =
        (views.flatMap PagedKvPool.viewKv).map Prod.fst ∧
      views.flatMap (fun view => rows view.2) =
        (views.flatMap PagedKvPool.viewKv).map Prod.snd := by
  rw [List.map_flatMap, List.map_flatMap]
  refine ⟨List.flatMap_congr fun view hview => ?_, List.flatMap_congr fun view hview => ?_⟩
  · obtain ⟨n, -, hn⟩ := batch_of_mem hview h
    exact hn.map_fst.symm
  · obtain ⟨n, -, hn⟩ := batch_of_mem hview h
    exact hn.map_snd.symm

/-- The gather of the slots of all live positions: no cast changes a slot. -/
theorem gather_slots (hp : c.pool.Shaped numLayers numSlots dt) (hl : layer < numLayers)
    (hlen : c.table.len ≤ c.table.capacity) (hin : c.table.LiveBelow numSlots)
    (hmax : c.table.LiveBelow u32Max) :
    ∃ slots k v, c.table.slots 0 c.table.len = some slots ∧
      c.pool.gather layer slots = some (.ok (k, v)) ∧ c.pool.Batch dt c.table.len k v ∧
      PagedKvPool.viewKv (k, v) = (List.range c.table.len).map fun pos =>
        c.pool.kv layer (translate c.table.blocks c.table.blockSize pos) := by
  rw [BlockTable.liveBelow_iff hlen] at hin hmax
  have hslots := BlockTable.slots_eq 0 hlen
  have hcast : (List.range' 0 (c.table.len - 0)).map (fun pos =>
      translate c.table.blocks c.table.blockSize pos % 2 ^ 32) =
        (List.range c.table.len).map (translate c.table.blocks c.table.blockSize) := by
    rw [Nat.sub_zero, ← List.range_eq_range']
    refine List.map_congr_left fun pos hpos => Nat.mod_eq_of_lt ?_
    exact Nat.lt_of_lt_of_le (hmax pos (List.mem_range.mp hpos)) (by decide)
  rw [hcast] at hslots
  have hbelow : ∀ s ∈ (List.range c.table.len).map (translate c.table.blocks c.table.blockSize),
      s < numSlots ∧ s < u32Max := by
    intro s hs
    obtain ⟨pos, hpos, rfl⟩ := List.mem_map.mp hs
    exact ⟨hin pos (List.mem_range.mp hpos), hmax pos (List.mem_range.mp hpos)⟩
  obtain ⟨k, v, hgather, hbatch, hkv⟩ := hp.gather hl hbelow
  rw [List.length_map, List.length_range] at hbatch
  refine ⟨_, k, v, hslots, hgather, hbatch, ?_⟩
  rw [hkv, List.map_map]
  rfl

/-- **The two read paths agree**, for any order of the physical blocks, any block size and any live
    length up to the capacity, as long as no live slot is cut off by its cast to an index. Views are
    returned exactly if all live slots are in the pool. They are then one for each logical block:
    not empty, of at most a block of rows, inside its physical block; and one after the other they
    have the K and the V rows, as many as are live, that the gather of all slots has. -/
theorem gatherBlocks_eq_gather (hp : c.pool.Shaped numLayers numSlots dt) (hl : layer < numLayers)
    (hsize : 1 ≤ c.table.blockSize) (hlen : c.table.len ≤ c.table.capacity)
    (hmax : c.table.LiveBelow u32Max) :
    ((∃ views c', KvCache.gatherBlocks layer c = some (.ok views, c')) ↔
      c.table.LiveBelow numSlots) ∧
    ∀ views c', KvCache.gatherBlocks layer c = some (.ok views, c') →
      c' = c ∧ views.length = divCeil c.table.len c.table.blockSize ∧
      (∀ b view, views[b]? = some view → IsPageOf c.pool c.table dt layer b view) ∧
      ∃ slots k v, c.table.slots 0 c.table.len = some slots ∧
        c.pool.gather layer slots = some (.ok (k, v)) ∧
        views.flatMap (fun view => rows view.1) = rows k ∧ (rows k).length = c.table.len ∧
        views.flatMap (fun view => rows view.2) = rows v ∧ (rows v).length = c.table.len := by
  have hreturns := gatherBlocks_returns_iff hp hl hsize hlen
  refine ⟨hreturns, fun views c' hrun => ?_⟩
  obtain ⟨rfl, hpages⟩ := pages_of_gatherBlocks hp hl hsize hlen hrun
  refine ⟨rfl, by rw [← hpages.length_eq, List.length_range], fun b view hview => ?_, ?_⟩
  · obtain ⟨hlt, rfl⟩ := List.getElem?_eq_some_iff.mp hview
    have hpage := hpages.get (hpages.length_eq ▸ hlt) hlt
    rwa [List.get_eq_getElem, List.getElem_range] at hpage
  · obtain ⟨slots, k, v, hslots, hgather, hbatch, hkv⟩ :=
      gather_slots hp hl hlen (hreturns.mp ⟨views, c', hrun⟩) hmax
    have hsame : views.flatMap PagedKvPool.viewKv = PagedKvPool.viewKv (k, v) := by
      rw [flatMap_viewKv (le_divCeil_mul hsize _) hpages, hkv]
    obtain ⟨hk, hv⟩ := flatMap_rows hpages
    rw [hsame] at hk hv
    exact ⟨slots, k, v, hslots, hgather,
      hk.trans (PagedKvPool.Batch.map_fst hbatch),
      PagedKvPool.length_rows hbatch.kDims,
      hv.trans (PagedKvPool.Batch.map_snd hbatch),
      PagedKvPool.length_rows hbatch.vDims⟩

end Gather

/-- A pool of one layer, all of whose rows are their slot numbers, with a table of blocks. -/
def slotCache (numSlots : ℕ) (table : BlockTable) : KvCache Dense :=
  let t : Dense := ⟨[1, numSlots, 1], .i64, true, fun idx => idx.getD 1 0⟩
  { pool := { kPools := [t], vPools := [t], kvHeads := 1, headDim := 1 }
    allocator := BlockAllocator.new (numSlots / table.blockSize)
    table
    registry := PrefixRegistry.new }

theorem shaped_slotCache (numSlots : ℕ) (table : BlockTable) :
    (slotCache numSlots table).pool.Shaped 1 numSlots .i64 :=
  ⟨rfl, rfl, fun _ ht => List.mem_singleton.mp ht ▸ ⟨rfl, rfl, rfl⟩,
    fun _ ht => List.mem_singleton.mp ht ▸ ⟨rfl, rfl, rfl⟩⟩

/-- Three live positions in two blocks, the second one before the first. -/
theorem gatherBlocks_eq_gather_once : ∃ views k v,
    KvCache.gatherBlocks 0 (slotCache 4 ⟨[1, 0], 2, 3⟩) =
      some (.ok views, slotCache 4 ⟨[1, 0], 2, 3⟩) ∧
    (slotCache 4 ⟨[1, 0], 2, 3⟩).pool.gather 0 [2, 3, 0] = some (.ok (k, v)) ∧
    views.length = 2 ∧ views.flatMap (fun view => rows view.1) = rows k ∧ (rows k).length = 3 := by
  have hbelow : ∀ n, 4 ≤ n → (slotCache 4 ⟨[1, 0], 2, 3⟩).table.LiveBelow n := fun n hn =>
    (BlockTable.liveBelow_iff (by decide)).mpr fun pos hpos => by
      have hall : ∀ pos < 3, translate [1, 0] 2 pos < 4 := by decide
      exact Nat.lt_of_lt_of_le (hall pos hpos) hn
  obtain ⟨hreturns, hagree⟩ := gatherBlocks_eq_gather (shaped_slotCache 4 ⟨[1, 0], 2, 3⟩)
    Nat.one_pos (by decide) (by decide) (hbelow _ (by decide))
  obtain ⟨views, c', hrun⟩ := hreturns.mpr (hbelow 4 (Nat.le_refl 4))
  obtain ⟨rfl, hlen, -, slots, k, v, hslots, hgather, hk, hcount, -⟩ := hagree views c' hrun
  obtain rfl : [2, 3, 0] = slots := Option.some.inj ((show _ = some [2, 3, 0] by decide).symm.trans
    hslots)
  exact ⟨views, k, v, hrun, hgather, hlen, hk, hcount⟩

/-- Layer 0 of a pool with all live slots in it, where a gather has other rows than the views. -/
def ReadsDiffer (c : KvCache Dense) (numSlots : ℕ) : Prop :=
  c.pool.Shaped 1 numSlots .i64 ∧ c.table.len ≤ c.table.capacity ∧ c.table.LiveBelow numSlots ∧
    ∃ views slots k v, KvCache.gatherBlocks 0 c = some (.ok views, c) ∧
      c.table.slots 0 c.table.len = some slots ∧ c.pool.gather 0 slots = some (.ok (k, v)) ∧
      views.flatMap (fun view => rows view.1) ≠ rows k

theorem readsDiffer_of {c : KvCache Dense} {n : ℕ} {slots : List ℕ} {k v : Dense}
    (hp : c.pool.Shaped 1 n .i64) (hsize : 0 < c.table.blockSize)
    (hlen : c.table.len ≤ c.table.capacity)
    (hin : ∀ pos < c.table.len, translate c.table.blocks c.table.blockSize pos < n)
    (hslots : c.table.slots 0 c.table.len = some slots)
    (hgather : c.pool.gather 0 slots = some (.ok (k, v)))
    (hviews : wp (KvCache.gatherBlocks 0) (fun views _ =>
      views.flatMap (fun view => rows view.1) ≠ rows k) (fun _ _ => False) c) : ReadsDiffer c n := by
  obtain ⟨views, c', hrun, hrows⟩ := hviews.returns
  obtain ⟨rfl, -⟩ := pages_of_gatherBlocks hp Nat.one_pos hsize hlen hrun
  exact ⟨hp, hlen, (BlockTable.liveBelow_iff hlen).mpr hin, views, slots, k, v, hrun, hslots, hgather,
    hrows⟩

/-- Slot `2 ^ 32` is cut off by its cast, and the gather has the row of slot 0; the slot before it is
    the masked index, and the gather has a row of zeros. -/
theorem gather_cuts_slot :
    ReadsDiffer (slotCache (2 ^ 32 + 1) ⟨[2 ^ 32], 1, 1⟩) (2 ^ 32 + 1) ∧
      ReadsDiffer (slotCache (2 ^ 32 + 1) ⟨[2 ^ 32 - 1], 1, 1⟩) (2 ^ 32 + 1) :=
  ⟨readsDiffer_of (shaped_slotCache _ _) (by decide) (by decide) (by decide +kernel) rfl
      rfl (by decide +kernel),
    readsDiffer_of (shaped_slotCache _ _) (by decide) (by decide)
      (by decide +kernel) rfl rfl (by decide +kernel)⟩

end Flour.Kv
