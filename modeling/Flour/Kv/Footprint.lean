/-
  File:      Flour/Kv/Footprint.lean
  Subject:   Which rows an import writes, whatever the tensors of its bundle are.

  `write_block` places a block tensor by the number of rows that the tensor itself has, and nothing
  compares this number with the size of a block:

  * `Store`, `Effect` -- what an import stores, given the free blocks: tensor by tensor, up to the
    first one that is refused;
  * `wp_writeBlock_effect`, `wp_importBlock_effect`, `wlp_importBlocks_effect` -- the code stores this,
    and no other row changes (`Leaves`);
  * `Contained` -- what an import should do: change rows of blocks that it allocates only, write all
    of them when it returns, and refuse tensors of another size than that of a block;
  * **`import_contained_iff`** -- it does so exactly if every tensor that it stores has one row for
    each slot of a block, or it fails later and what was misplaced was there already.
-/
import Flour.Kv.Import
import Flour.Lib.Patches

namespace Flour.Kv

open Candle Flour.Lib Flour.Lib.Prog

/-! ## 1. Stores -/

/-- The pool has a tensor for K and one for V. -/
inductive Half where
  | k
  | v
deriving DecidableEq

/-- Where a row is: half, layer and slot. -/
abbrev Place := Half × ℕ × ℕ

/-- A block tensor that is stored: its rows go to the slots from `id * count` on. -/
structure Store (T : Type) where
  half : Half
  layer : ℕ
  id : ℕ
  count : ℕ
  src : T

/-- What the writes of an import do: the blocks they take, what they store, and whether they get to
    their end. -/
structure Effect (T : Type) where
  taken : List ℕ
  stores : List (Store T)
  done : Bool

section Defs

variable {T : Type} [Candle T]

def PagedKvPool.rowAt (p : PagedKvPool T) : Place → Row
  | (.k, layer, s) => (p.kv layer s).1
  | (.v, layer, s) => (p.kv layer s).2

/-- The tensors of one half. -/
def PagedKvPool.pools (p : PagedKvPool T) : Half → List T
  | .k => p.kPools
  | .v => p.vPools

def PagedKvPool.setPool (p : PagedKvPool T) (half : Half) (layer : ℕ) (t : T) : PagedKvPool T :=
  match half with
  | .k => { p with kPools := p.kPools.set layer t }
  | .v => { p with vPools := p.vPools.set layer t }

def Store.patch (cfg : Config) (st : Store T) : Patch Place Row := fun (half, layer, s) =>
  if half = st.half ∧ layer = st.layer ∧ st.id * st.count ≤ s ∧ s < st.id * st.count + st.count then
    some (row cfg.numKeyValueHeads cfg.headDim st.src (s - st.id * st.count))
  else none

namespace Effect

/-- Nothing to do. -/
def skip : Effect T := ⟨[], [], true⟩

/-- A refusal. -/
def stop : Effect T := ⟨[], [], false⟩

/-- The second one happens if the first one gets to its end. -/
def andThen (e e' : Effect T) : Effect T :=
  if e.done then ⟨e.taken ++ e'.taken, e.stores ++ e'.stores, e'.done⟩ else e

variable (cfg : Config) (dtype : DType) (p : PagedKvPool T)

/-- The K and the V tensor of a layer, for block `id`. -/
def ofLayer (id layer : ℕ) (lb : KvLayerBlock T) : Effect T :=
  match p.checkBlock lb.k lb.v with
  | .error _ => stop
  | .ok (k, v, count) =>
    if Candle.dtype k = dtype ∧ id * count + count ≤ numSlots cfg then
      if Candle.dtype v = dtype then
        ⟨[], [⟨.k, layer, id, count, k⟩, ⟨.v, layer, id, count, v⟩], true⟩
      else ⟨[], [⟨.k, layer, id, count, k⟩], false⟩
    else stop

def ofLayers (id : ℕ) : ℕ → List (KvLayerBlock T) → Effect T
  | _, [] => skip
  | layer, lb :: rest => (ofLayer cfg dtype p id layer lb).andThen (ofLayers id (layer + 1) rest)

def ofBlock (id : ℕ) (block : KvBundleBlock T) : Effect T :=
  if block.layers.length ≠ cfg.numHiddenLayers then stop
  else andThen ⟨[id], [], true⟩ (ofLayers cfg dtype p id 0 block.layers)

/-- The blocks of a bundle, for the blocks of the free list. -/
def ofBlocks : List ℕ → List (KvBundleBlock T) → Effect T
  | _, [] => skip
  | [], _ :: _ => stop
  | id :: free, block :: rest => (ofBlock cfg dtype p id block).andThen (ofBlocks free rest)

end Effect

end Defs

/-! ## 2. The code stores this -/

section Leaves

variable {T : Type} [Candle T] {cfg : Config} {dtype : DType} {p p' p'' : PagedKvPool T}

/-- The pool after the stores. -/
structure Leaves (cfg : Config) (dtype : DType) (stores : List (Store T)) (p p' : PagedKvPool T) :
    Prop where
  shape : PoolShape cfg dtype p'
  rows : ∀ place : Place, place.2.2 < numSlots cfg →
    p'.rowAt place = patched (stores.map (Store.patch cfg)) p.rowAt place

theorem Leaves.refl (h : PoolShape cfg dtype p) : Leaves cfg dtype [] p p := ⟨h, fun _ _ => rfl⟩

theorem Leaves.trans {stores stores' : List (Store T)} (h : Leaves cfg dtype stores p p')
    (h' : Leaves cfg dtype stores' p' p'') : Leaves cfg dtype (stores ++ stores') p p'' := by
  refine ⟨h'.shape, fun place hs => ?_⟩
  rw [h'.rows place hs, List.map_append, patched_append]
  exact patched_congr (h.rows place hs)

/-- The checks of a block read the shape of a row only. -/
theorem checkBlock_congr (h : PoolShape cfg dtype p) (h' : PoolShape cfg dtype p') (k v : T) :
    p'.checkBlock k v = p.checkBlock k v := by
  unfold PagedKvPool.checkBlock
  rw [h'.2.1, h'.2.2, h.2.1, h.2.2]

/-- **A block that passes the checks** has the heads and the head size of the pool. -/
theorem checkBlock_ok {k v kt vt : T} {count : ℕ} (h : p.checkBlock k v = .ok (kt, vt, count)) :
    PagedKvPool.normalizeBlock k = .ok kt ∧ PagedKvPool.normalizeBlock v = .ok vt ∧
      dims kt = [p.kvHeads, count, p.headDim] ∧ dims vt = [p.kvHeads, count, p.headDim] := by
  unfold PagedKvPool.checkBlock at h
  obtain ⟨kt', hk, h⟩ := bind_eq_ok.mp h
  obtain ⟨vt', hv, h⟩ := bind_eq_ok.mp h
  obtain ⟨⟨a, b, c⟩, hkd, h⟩ := bind_eq_ok.mp h
  obtain ⟨⟨a', b', c'⟩, hvd, h⟩ := bind_eq_ok.mp h
  dsimp only at h
  split_ifs at h with h1 h2
  cases h
  simp only [ne_eq, not_not, not_or, Prod.mk.injEq] at h1 h2
  have hdims : ∀ {t : T} {x y z : ℕ}, PagedKvPool.dims3 t = .ok (x, y, z) → dims t = [x, y, z] := by
    intro t x y z ht
    unfold PagedKvPool.dims3 at ht
    split at ht
    · rename_i hd
      cases ht
      exact hd
    · cases ht
  refine ⟨hk, hv, ?_, ?_⟩
  · rw [hdims hkd, h2.1, h2.2]
  · rw [hdims hvd, ← h1.1, ← h1.2.1, ← h1.2.2, h2.1, h2.2]

variable [LawfulCandle T]

/-- A block tensor is stored if it has the pool's type and its rows fit, and only then. -/
theorem store_rows {kvHeads slots headDim n : ℕ} (off : ℕ) {t src : T}
    (h : PoolTensor kvHeads slots headDim dtype t) (hs : dims src = [kvHeads, n, headDim]) :
    if Candle.dtype src = dtype ∧ off + n ≤ slots then
      ∃ t', (contiguous src >>= fun src => sliceSet t src 1 off) = .ok t' ∧
        PoolTensor kvHeads slots headDim dtype t' ∧
        ∀ j, j < slots → row kvHeads headDim t' j =
          if off ≤ j ∧ j < off + n then row kvHeads headDim src (j - off)
          else row kvHeads headDim t j
    else ∃ e, (contiguous src >>= fun src => sliceSet t src 1 off) = .error e := by
  obtain ⟨u, hu, hd, hdt, hc, he⟩ := LawfulCandle.contiguous_copy src
  have hbind : (contiguous src >>= fun src => sliceSet t src 1 off) = sliceSet t u 1 off := by
    rw [hu]
    rfl
  rw [hbind]
  split_ifs with hfit
  · obtain ⟨t', ht', -, -, -, hrow⟩ := row_sliceSet h.dims h.contiguous (hd.trans hs)
      (by rw [hdt, hfit.1, h.dtype]) hc hfit.2
    refine ⟨t', ht', PagedKvPool.poolTensor_sliceSet h ht', fun j hj => ?_⟩
    rw [hrow j hj]
    split_ifs
    · exact row_congr fun _ _ _ _ => he _
    · rfl
  · cases ht : sliceSet t u 1 off with
    | error e => exact ⟨e, rfl⟩
    | ok t' =>
      obtain ⟨n', hs', hdt', -, hoff⟩ :=
        (LawfulCandle.sliceSet_ok_iff h.dims h.contiguous).mp ⟨t', ht⟩
      rw [hd, hs] at hs'
      cases hs'
      exact absurd ⟨hdt.symm.trans (hdt'.trans h.dtype), hoff⟩ hfit

omit [LawfulCandle T] in
theorem poolShape_getElem (h : PoolShape cfg dtype p) (half : Half) {layer : ℕ}
    (hl : layer < cfg.numHiddenLayers) : ∃ t, (p.pools half)[layer]? = some t ∧
      PoolTensor cfg.numKeyValueHeads (numSlots cfg) cfg.headDim dtype t := by
  obtain ⟨hs, hheads, hdim⟩ := h
  obtain ⟨kPool, vPool, hk, hv, hkp, hvp⟩ := hs.getElem hl
  rw [hheads, hdim] at hkp hvp
  cases half with
  | k => exact ⟨kPool, hk, hkp⟩
  | v => exact ⟨vPool, hv, hvp⟩

omit [LawfulCandle T] in
theorem poolShape_setPool (h : PoolShape cfg dtype p) (half : Half) (layer : ℕ) {t : T}
    (ht : PoolTensor cfg.numKeyValueHeads (numSlots cfg) cfg.headDim dtype t) :
    PoolShape cfg dtype (p.setPool half layer t) := by
  obtain ⟨hs, hheads, hdim⟩ := h
  rw [← hheads, ← hdim] at ht
  have hset : ∀ {ts : List T}, (∀ u ∈ ts, PoolTensor p.kvHeads (numSlots cfg) p.headDim dtype u) →
      ∀ u ∈ ts.set layer t, PoolTensor p.kvHeads (numSlots cfg) p.headDim dtype u :=
    fun hts u hu => (List.mem_or_eq_of_mem_set hu).elim (hts u) fun h => h ▸ ht
  cases half with
  | k => exact ⟨⟨List.length_set.trans hs.kLen, hs.vLen, hset hs.k, hs.v⟩, hheads, hdim⟩
  | v => exact ⟨⟨hs.kLen, List.length_set.trans hs.vLen, hs.k, hset hs.v⟩, hheads, hdim⟩

omit [LawfulCandle T] in
theorem rowAt_pools (h : PoolShape cfg dtype p) {half : Half} {layer : ℕ} {t : T}
    (ht : (p.pools half)[layer]? = some t) (s : ℕ) :
    p.rowAt (half, layer, s) = row cfg.numKeyValueHeads cfg.headDim t s := by
  obtain ⟨-, hheads, hdim⟩ := h
  cases half <;> simp [PagedKvPool.pools] at ht <;>
    simp [PagedKvPool.rowAt, PagedKvPool.kv, ht, hheads, hdim]

omit [Candle T] [LawfulCandle T] in
theorem pools_setPool (p : PagedKvPool T) (half half' : Half) (layer : ℕ) (t : T) :
    (p.setPool half layer t).pools half' =
      if half' = half then (p.pools half).set layer t else p.pools half' := by
  cases half <;> cases half' <;> rfl

omit [LawfulCandle T] in
theorem rowAt_setPool_ne (p : PagedKvPool T) {half : Half} {layer : ℕ} (t : T) {place : Place}
    (h : ¬ (place.1 = half ∧ place.2.1 = layer)) :
    (p.setPool half layer t).rowAt place = p.rowAt place := by
  obtain ⟨half', l, s⟩ := place
  cases half <;> cases half' <;> simp [PagedKvPool.setPool, PagedKvPool.rowAt, PagedKvPool.kv] at h ⊢
  all_goals rw [List.getElem?_set_ne (Ne.symm h)]

/-- **One tensor** is stored, or the pool refuses it. -/
theorem Leaves.store (h : PoolShape cfg dtype p) {half : Half} {layer : ℕ} {t : T}
    (ht : (p.pools half)[layer]? = some t)
    (hpool : PoolTensor cfg.numKeyValueHeads (numSlots cfg) cfg.headDim dtype t)
    (id : ℕ) {count : ℕ} {src : T}
    (hs : dims src = [cfg.numKeyValueHeads, count, cfg.headDim]) :
    if Candle.dtype src = dtype ∧ id * count + count ≤ numSlots cfg then
      ∃ t', (contiguous src >>= fun src => sliceSet t src 1 (id * count)) = .ok t' ∧
        Leaves cfg dtype [⟨half, layer, id, count, src⟩] p (p.setPool half layer t')
    else ∃ e, (contiguous src >>= fun src => sliceSet t src 1 (id * count)) = .error e := by
  have hstore := store_rows (id * count) hpool hs
  split_ifs at hstore ⊢
  swap
  · exact hstore
  obtain ⟨t', hset, hpool', hrow⟩ := hstore
  have hshape := poolShape_setPool h half layer hpool'
  refine ⟨t', hset, hshape, fun place hplace => ?_⟩
  obtain ⟨half', l, s⟩ := place
  show _ = (Store.patch cfg _ _).getD _
  simp only [Store.patch]
  by_cases hp : half' = half ∧ l = layer
  · obtain ⟨rfl, rfl⟩ := hp
    have ht' : ((p.setPool half' l t').pools half')[l]? = some t' := by
      rw [pools_setPool, if_pos rfl, List.getElem?_set_self (List.getElem?_eq_some_iff.mp ht).1]
    rw [rowAt_pools hshape ht', rowAt_pools h ht, hrow s hplace]
    by_cases hin : id * count ≤ s ∧ s < id * count + count <;> simp [hin]
  · rw [rowAt_setPool_ne p t' hp, if_neg fun hin => hp ⟨hin.1, hin.2.1⟩]
    rfl

/-- **One layer of a block.** -/
theorem wp_writeBlock_effect (h : PoolShape cfg dtype p) {id layer : ℕ}
    (hl : layer < cfg.numHiddenLayers) (lb : KvLayerBlock T) :
    let e := Effect.ofLayer cfg dtype p id layer lb
    wp (Prog.of fun p : PagedKvPool T => p.writeBlock layer id lb.k lb.v)
      (fun _ p' => e.done = true ∧ Leaves cfg dtype e.stores p p')
      (fun _ p' => e.done = false ∧ Leaves cfg dtype e.stores p p') p := by
  intro e
  have he : e = Effect.ofLayer cfg dtype p id layer lb := rfl
  clear_value e
  unfold Effect.ofLayer at he
  obtain ⟨kPool, hk, hkp⟩ := poolShape_getElem h .k hl
  obtain ⟨vPool, hv, hvp⟩ := poolShape_getElem h .v hl
  have hkp' : p.kPools[layer]? = some kPool := hk
  have hvp' : p.vPools[layer]? = some vPool := hv
  cases hcheck : p.checkBlock lb.k lb.v with
  | error err =>
    have hw : p.writeBlock layer id lb.k lb.v = some (.error err, p) := by
      simp only [PagedKvPool.writeBlock, hcheck]
    rw [hcheck] at he
    rw [wp_of_eq_error hw, he]
    exact ⟨rfl, .refl h⟩
  | ok r =>
    obtain ⟨kt, vt, count⟩ := r
    obtain ⟨-, -, hkd, hvd⟩ := checkBlock_ok hcheck
    rw [h.2.1, h.2.2] at hkd hvd
    rw [hcheck] at he
    dsimp only at he
    have hkstore := Leaves.store h hk hkp id hkd
    by_cases hfit : Candle.dtype kt = dtype ∧ id * count + count ≤ numSlots cfg
    swap
    · rw [if_neg hfit] at hkstore he
      obtain ⟨err, hkw⟩ := hkstore
      have hw : p.writeBlock layer id lb.k lb.v = some (.error err, p) := by
        simp only [PagedKvPool.writeBlock, hcheck, hkp', hvp', hkw]
      rw [wp_of_eq_error hw, he]
      exact ⟨rfl, .refl h⟩
    rw [if_pos hfit] at hkstore he
    obtain ⟨kPool', hkw, hkleaves⟩ := hkstore
    have hv' : ((p.setPool .k layer kPool').pools .v)[layer]? = some vPool := hv
    have hvstore := Leaves.store hkleaves.shape hv' hvp id hvd
    by_cases hvdt : Candle.dtype vt = dtype
    · rw [if_pos ⟨hvdt, hfit.2⟩] at hvstore
      rw [if_pos hvdt] at he
      obtain ⟨vPool', hvw, hvleaves⟩ := hvstore
      have hw : p.writeBlock layer id lb.k lb.v =
          some (.ok (), (p.setPool .k layer kPool').setPool .v layer vPool') := by
        simp only [PagedKvPool.writeBlock, hcheck, hkp', hvp', hkw, hvw]
        rfl
      rw [wp_of_eq_ok hw, he]
      exact ⟨rfl, hkleaves.trans hvleaves⟩
    · rw [if_neg fun h => hvdt h.1] at hvstore
      rw [if_neg hvdt] at he
      obtain ⟨err, hvw⟩ := hvstore
      have hw : p.writeBlock layer id lb.k lb.v = some (.error err, p.setPool .k layer kPool') := by
        simp only [PagedKvPool.writeBlock, hcheck, hkp', hvp', hkw, hvw]
        rfl
      rw [wp_of_eq_error hw, he]
      exact ⟨rfl, hkleaves⟩

omit [LawfulCandle T] in
/-- What is stored does not depend on what the pool holds. -/
theorem ofLayer_congr (h : PoolShape cfg dtype p) (h' : PoolShape cfg dtype p') (id layer : ℕ)
    (lb : KvLayerBlock T) :
    Effect.ofLayer cfg dtype p' id layer lb = Effect.ofLayer cfg dtype p id layer lb := by
  unfold Effect.ofLayer
  rw [checkBlock_congr h h']

omit [Candle T] [LawfulCandle T] in
@[simp] theorem Effect.andThen_of_done {e : Effect T} (h : e.done = true) (e' : Effect T) :
    e.andThen e' = ⟨e.taken ++ e'.taken, e.stores ++ e'.stores, e'.done⟩ := if_pos h

omit [Candle T] [LawfulCandle T] in
@[simp] theorem Effect.andThen_of_stopped {e : Effect T} (h : e.done = false) (e' : Effect T) :
    e.andThen e' = e := if_neg (by rw [h]; exact Bool.false_ne_true)

omit [LawfulCandle T] in
/-- Layers take no block. -/
theorem ofLayers_taken (id n : ℕ) (layers : List (KvLayerBlock T)) :
    (Effect.ofLayers cfg dtype p id n layers).taken = [] := by
  have hone : ∀ layer lb, (Effect.ofLayer cfg dtype p id layer lb).taken = [] := fun layer lb => by
    unfold Effect.ofLayer
    split
    · rfl
    · split_ifs <;> rfl
  induction layers generalizing n with
  | nil => rfl
  | cons lb rest ih =>
    rw [Effect.ofLayers, Effect.andThen]
    split_ifs
    · simp [hone, ih]
    · exact hone n lb

/-- **The layers of a block**, one after the other. -/
theorem wp_importLayers_effect (h₀ : PoolShape cfg dtype p) (id : ℕ) {layers : List (KvLayerBlock T)}
    {n : ℕ} (hn : n + layers.length = cfg.numHiddenLayers) {c : KvCache T}
    (hp : PoolShape cfg dtype c.pool) :
    let e := Effect.ofLayers cfg dtype p id n layers
    wp (forEach (fun e => KvCache.onPool (Prog.of fun p => p.writeBlock e.2 id e.1.k e.1.v))
        (layers.zipIdx n))
      (fun _ c' => e.done = true ∧ Leaves cfg dtype e.stores c.pool c'.pool ∧
        c'.allocator = c.allocator)
      (fun _ c' => e.done = false ∧ Leaves cfg dtype e.stores c.pool c'.pool) c := by
  induction layers generalizing n c with
  | nil => exact ⟨rfl, .refl hp, rfl⟩
  | cons lb rest ih =>
    intro e
    rw [List.length_cons] at hn
    have he : e = (Effect.ofLayer cfg dtype c.pool id n lb).andThen
        (Effect.ofLayers cfg dtype p id (n + 1) rest) := by
      rw [ofLayer_congr h₀ hp]
      rfl
    clear_value e
    rw [List.zipIdx_cons]
    show wp (KvCache.onPool (Prog.of fun p => p.writeBlock n id lb.k lb.v) >>= fun _ =>
      forEach _ (rest.zipIdx (n + 1))) _ _ c
    rw [wp_bind, KvCache.onPool, wp_zoom]
    refine (wp_writeBlock_effect hp (show n < cfg.numHiddenLayers by omega) lb).mono
      (fun _ p₁ h₁ => ?_) fun _ p₁ h₁ => ?_
    · obtain ⟨hdone, hl⟩ := h₁
      rw [Effect.andThen_of_done hdone] at he
      rw [he]
      exact (ih (c := { c with pool := p₁ }) (by omega) hl.shape).mono
        (fun _ _ h₂ => ⟨h₂.1, hl.trans h₂.2.1, h₂.2.2⟩) fun _ _ h₂ => ⟨h₂.1, hl.trans h₂.2⟩
    · rw [he, Effect.andThen_of_stopped h₁.1]
      exact h₁

/-- **One block**, for the first of the free ones. -/
theorem wp_importBlock_effect (h₀ : PoolShape cfg dtype p) {c₀ c : KvCache T} {ids : List ℕ}
    (h : KvCache.Importing c₀ ids c) (hp : PoolShape cfg dtype c.pool) {id : ℕ} {free : List ℕ}
    (hfree : c.allocator.free = id :: free) (block : KvBundleBlock T) :
    let e := Effect.ofBlock cfg dtype p id block
    wp (KvCache.importBlock cfg.numHiddenLayers block)
      (fun _ s => e.done = true ∧ s.1 = ids ++ e.taken ∧
        Leaves cfg dtype e.stores c.pool s.2.pool ∧ s.2.allocator.free = free)
      (fun _ s => e.done = false ∧ s.1 = ids ++ e.taken ∧
        Leaves cfg dtype e.stores c.pool s.2.pool) (ids, c) := by
  intro e
  have he : e = Effect.ofBlock cfg dtype p id block := rfl
  clear_value e
  unfold Effect.ofBlock at he
  unfold KvCache.importBlock
  by_cases hlen : block.layers.length = cfg.numHiddenLayers
  · rw [if_neg (not_not.mpr hlen), Effect.andThen_of_done rfl] at he
    rw [if_neg (not_not.mpr hlen), wp_bind, wp_zoom]
    refine (KvCache.wp_takeBlock h.tracks).mono (fun r c₁ hr => ?_) fun _ _ hE => hE
    cases r with
    | none =>
      have hno := hr.2
      rw [BlockAllocator.numFree, hfree] at hno
      cases hno
    | some id' =>
      obtain ⟨a, rfl, -, -, htaken, -⟩ := hr
      rw [hfree] at htaken
      obtain ⟨rfl, hfree'⟩ := List.cons.inj htaken
      have htake : ids ++ [id] = ids ++ e.taken := by simp [he, ofLayers_taken]
      dsimp only
      rw [wp_bind, wp_modify, wp_bind, wp_zoom]
      rw [he] at htake ⊢
      refine (wp_importLayers_effect h₀ id ((Nat.zero_add _).trans hlen)
        (c := { c with allocator := a }) hp).mono (fun _ c₂ h₂ => ?_) fun _ c₂ h₂ => ?_
      · obtain ⟨hdone, hl, ha⟩ := h₂
        rw [wp_zoom, KvCache.onTable, wp_modify]
        exact ⟨hdone, htake, hl, (congrArg BlockAllocator.free ha).trans hfree'.symm⟩
      · exact ⟨h₂.1, htake, h₂.2⟩
  · rw [if_pos hlen] at he
    rw [if_pos hlen, wp_fail, he]
    exact ⟨rfl, (List.append_nil _).symm, .refl hp⟩

/-- **All blocks**, for those of the free list. -/
theorem wp_importLoop_effect (h₀ : PoolShape cfg dtype p) {c₀ c : KvCache T} {ids : List ℕ}
    (hlayers : c₀.pool.vPools.length = c₀.pool.kPools.length)
    (hk : c₀.pool.kPools.length = cfg.numHiddenLayers) {blocks : List (KvBundleBlock T)}
    {free : List ℕ} (hle : blocks.length ≤ free.length) (h : KvCache.Importing c₀ ids c)
    (htab : c.table.blocks = ids) (hp : PoolShape cfg dtype c.pool) (hfree : c.allocator.free = free) :
    let e := Effect.ofBlocks cfg dtype p free blocks
    wp (forEach (KvCache.importBlock cfg.numHiddenLayers) blocks)
      (fun _ s => e.done = true ∧ s.1 = ids ++ e.taken ∧ Leaves cfg dtype e.stores c.pool s.2.pool)
      (fun _ s => e.done = false ∧ s.1 = ids ++ e.taken ∧ Leaves cfg dtype e.stores c.pool s.2.pool)
      (ids, c) := by
  induction blocks generalizing ids c free with
  | nil => exact ⟨by simp [Effect.ofBlocks, Effect.skip], by simp [Effect.ofBlocks, Effect.skip],
      by simpa [Effect.ofBlocks, Effect.skip] using Leaves.refl hp⟩
  | cons block rest ih =>
    cases free with
    | nil => exact absurd hle (Nat.not_succ_le_zero _)
    | cons id free =>
      intro e
      have he : e = (Effect.ofBlock cfg dtype p id block).andThen
        (Effect.ofBlocks cfg dtype p free rest) := rfl
      clear_value e
      show wp (KvCache.importBlock cfg.numHiddenLayers block >>= fun _ => forEach _ rest) _ _ _
      have hone := KvCache.wp_importBlock h htab hlayers block
      rw [hk] at hone
      rw [wp_bind]
      refine (hone.and (wp_importBlock_effect h₀ h hp hfree block)).mono (fun _ s hs => ?_)
        fun _ s hs => ?_
      · obtain ⟨⟨hi, htab', -⟩, hdone, htaken, hl, hfree'⟩ := hs
        obtain ⟨ids', c'⟩ := s
        dsimp only at htaken
        rw [he, Effect.andThen_of_done hdone]
        refine (ih (Nat.le_of_succ_le_succ hle) hi htab' hl.shape hfree').mono (fun _ s' h' => ?_)
          fun _ s' h' => ?_
        all_goals
          obtain ⟨hdone', htaken', hl'⟩ := h'
          exact ⟨hdone', by rw [htaken', htaken, List.append_assoc], hl.trans hl'⟩
      · rw [he, Effect.andThen_of_stopped hs.2.1]
        exact hs.2

/-! ## 3. What is stored -/

/-- A tensor of the layer, in its normal form. -/
def StoresOf (p : PagedKvPool T) (lb : KvLayerBlock T) (st : Store T) : Prop :=
  ∃ kt vt, p.checkBlock lb.k lb.v = .ok (kt, vt, st.count) ∧
    (st.half = .k ∧ st.src = kt ∨ st.half = .v ∧ st.src = vt)

/-- Both tensors of a layer are stored, for block `id`. -/
def WholeIn (p : PagedKvPool T) (id layer : ℕ) (lb : KvLayerBlock T) (stores : List (Store T)) : Prop :=
  ∀ half, ∃ st ∈ stores, st.half = half ∧ st.layer = layer ∧ st.id = id ∧ StoresOf p lb st

omit [LawfulCandle T] in
theorem WholeIn.mono {id layer : ℕ} {lb : KvLayerBlock T} {stores stores' : List (Store T)}
    (h : WholeIn p id layer lb stores) (hsub : stores ⊆ stores') : WholeIn p id layer lb stores' :=
  fun half =>
    let ⟨st, hst, hof⟩ := h half
    ⟨st, hsub hst, hof⟩

omit [LawfulCandle T] in
/-- What an effect stores is one of the tensors, and what one stores that gets to its end is all. -/
theorem mem_ofLayer {id layer : ℕ} {lb : KvLayerBlock T} {st : Store T}
    (h : st ∈ (Effect.ofLayer cfg dtype p id layer lb).stores) :
    st.id = id ∧ st.layer = layer ∧ StoresOf p lb st := by
  unfold Effect.ofLayer at h
  cases hcheck : p.checkBlock lb.k lb.v with
  | error err =>
    rw [hcheck] at h
    cases h
  | ok r =>
    obtain ⟨kt, vt, count⟩ := r
    rw [hcheck] at h
    dsimp only at h
    have hst : st = ⟨.k, layer, id, count, kt⟩ ∨ st = ⟨.v, layer, id, count, vt⟩ := by
      split_ifs at h
      · simpa using h
      · exact Or.inl (List.mem_singleton.mp h)
      · cases h
    rcases hst with rfl | rfl
    · exact ⟨rfl, rfl, kt, vt, hcheck, Or.inl ⟨rfl, rfl⟩⟩
    · exact ⟨rfl, rfl, kt, vt, hcheck, Or.inr ⟨rfl, rfl⟩⟩

omit [LawfulCandle T] in
theorem ofLayer_done {id layer : ℕ} {lb : KvLayerBlock T}
    (h : (Effect.ofLayer cfg dtype p id layer lb).done = true) :
    WholeIn p id layer lb (Effect.ofLayer cfg dtype p id layer lb).stores := by
  unfold Effect.ofLayer at h ⊢
  cases hcheck : p.checkBlock lb.k lb.v with
  | error err =>
    rw [hcheck] at h
    cases h
  | ok r =>
    obtain ⟨kt, vt, count⟩ := r
    rw [hcheck] at h
    dsimp only at h ⊢
    split_ifs at h ⊢
    · intro half
      cases half with
      | k => exact ⟨⟨.k, layer, id, count, kt⟩, by simp, rfl, rfl, rfl, kt, vt, hcheck,
          Or.inl ⟨rfl, rfl⟩⟩
      | v => exact ⟨⟨.v, layer, id, count, vt⟩, by simp, rfl, rfl, rfl, kt, vt, hcheck,
          Or.inr ⟨rfl, rfl⟩⟩
    · cases h

omit [Candle T] [LawfulCandle T] in
theorem Effect.mem_andThen {e e' : Effect T} {st : Store T} (h : st ∈ (e.andThen e').stores) :
    st ∈ e.stores ∨ st ∈ e'.stores := by
  unfold Effect.andThen at h
  split_ifs at h
  · exact List.mem_append.mp h
  · exact Or.inl h

omit [LawfulCandle T] in
theorem mem_ofLayers {id n : ℕ} {layers : List (KvLayerBlock T)} {st : Store T}
    (h : st ∈ (Effect.ofLayers cfg dtype p id n layers).stores) :
    st.id = id ∧ ∃ i lb, st.layer = n + i ∧ layers[i]? = some lb ∧ StoresOf p lb st := by
  induction layers generalizing n with
  | nil => cases h
  | cons lb rest ih =>
    rcases Effect.mem_andThen h with h | h
    · obtain ⟨hid, hlayer, hst⟩ := mem_ofLayer h
      exact ⟨hid, 0, lb, hlayer, rfl, hst⟩
    · obtain ⟨hid, i, lb', hlayer, hi, hst⟩ := ih h
      rw [Nat.add_right_comm] at hlayer
      exact ⟨hid, i + 1, lb', hlayer, hi, hst⟩

omit [Candle T] [LawfulCandle T] in
/-- Two parts get to their end iff both do. -/
theorem Effect.andThen_done {e e' : Effect T} (h : (e.andThen e').done = true) :
    e.done = true ∧ e'.done = true ∧
      e.andThen e' = ⟨e.taken ++ e'.taken, e.stores ++ e'.stores, e'.done⟩ := by
  cases he : e.done with
  | false =>
    rw [Effect.andThen_of_stopped he, he] at h
    cases h
  | true =>
    rw [Effect.andThen_of_done he] at h
    exact ⟨rfl, h, Effect.andThen_of_done he e'⟩

omit [LawfulCandle T] in
theorem ofLayers_done {id n : ℕ} {layers : List (KvLayerBlock T)}
    (h : (Effect.ofLayers cfg dtype p id n layers).done = true) {i : ℕ} {lb : KvLayerBlock T}
    (hi : layers[i]? = some lb) :
    WholeIn p id (n + i) lb (Effect.ofLayers cfg dtype p id n layers).stores := by
  induction layers generalizing n i with
  | nil => cases hi
  | cons lb' rest ih =>
    obtain ⟨hone, hrest, heq⟩ := Effect.andThen_done h
    rw [Effect.ofLayers, heq]
    cases i with
    | zero =>
      cases hi
      exact (ofLayer_done hone).mono (List.subset_append_left _ _)
    | succ i =>
      have hwhole := ih hrest hi
      rw [Nat.add_right_comm] at hwhole
      exact hwhole.mono (List.subset_append_right _ _)

omit [LawfulCandle T] in
theorem mem_ofBlock {id : ℕ} {block : KvBundleBlock T} {st : Store T}
    (h : st ∈ (Effect.ofBlock cfg dtype p id block).stores) :
    (Effect.ofBlock cfg dtype p id block).taken = [id] ∧ st.id = id ∧
      ∃ lb, block.layers[st.layer]? = some lb ∧ StoresOf p lb st := by
  unfold Effect.ofBlock at h ⊢
  split_ifs at h ⊢ with hlen
  · cases h
  · rw [Effect.andThen_of_done rfl] at h ⊢
    obtain ⟨hid, i, lb, hlayer, hi, hst⟩ := mem_ofLayers h
    rw [Nat.zero_add] at hlayer
    exact ⟨by simp [ofLayers_taken], hid, lb, hlayer ▸ hi, hst⟩

omit [LawfulCandle T] in
theorem ofBlock_done {id : ℕ} {block : KvBundleBlock T}
    (h : (Effect.ofBlock cfg dtype p id block).done = true) :
    (Effect.ofBlock cfg dtype p id block).taken = [id] ∧ block.layers.length = cfg.numHiddenLayers ∧
      ∀ layer lb, block.layers[layer]? = some lb →
        WholeIn p id layer lb (Effect.ofBlock cfg dtype p id block).stores := by
  unfold Effect.ofBlock at h ⊢
  split_ifs at h ⊢ with hlen
  · cases h
  · rw [Effect.andThen_of_done rfl] at h ⊢
    refine ⟨by simp [ofLayers_taken], not_not.mp hlen, fun layer lb hlb => ?_⟩
    have hwhole := ofLayers_done h hlb
    rw [Nat.zero_add] at hwhole
    exact hwhole.mono (by simp)

omit [LawfulCandle T] in
@[simp] theorem ofBlocks_nil (free : List ℕ) :
    Effect.ofBlocks cfg dtype p free ([] : List (KvBundleBlock T)) = .skip := by
  cases free <;> rfl

omit [LawfulCandle T] in
/-- **What is stored comes from the bundle**: from a block for which a block is taken. -/
theorem mem_ofBlocks {free : List ℕ} {blocks : List (KvBundleBlock T)} {st : Store T}
    (h : st ∈ (Effect.ofBlocks cfg dtype p free blocks).stores) :
    ∃ (b : ℕ) (block : KvBundleBlock T) (lb : KvLayerBlock T), blocks[b]? = some block ∧
      (Effect.ofBlocks cfg dtype p free blocks).taken[b]? = some st.id ∧
      block.layers[st.layer]? = some lb ∧ StoresOf p lb st := by
  induction blocks generalizing free with
  | nil =>
    rw [ofBlocks_nil] at h
    cases h
  | cons block rest ih =>
    cases free with
    | nil => cases h
    | cons id free =>
      rw [Effect.ofBlocks] at h ⊢
      cases hdone : (Effect.ofBlock cfg dtype p id block).done with
      | false =>
        rw [Effect.andThen_of_stopped hdone] at h ⊢
        obtain ⟨htaken, hid, lb, hlb, hst⟩ := mem_ofBlock h
        exact ⟨0, block, lb, rfl, by simp [htaken, hid], hlb, hst⟩
      | true =>
        rw [Effect.andThen_of_done hdone] at h ⊢
        obtain ⟨htaken, -⟩ := ofBlock_done hdone
        rcases List.mem_append.mp h with h | h
        · obtain ⟨-, hid, lb, hlb, hst⟩ := mem_ofBlock h
          exact ⟨0, block, lb, rfl, by simp [htaken, hid], hlb, hst⟩
        · obtain ⟨b, block', lb, hb, hid, hlb, hst⟩ := ih h
          exact ⟨b + 1, block', lb, hb, by simp [htaken, hid], hlb, hst⟩

omit [LawfulCandle T] in
/-- **What gets to its end stores the bundle**: all of it, in a block for each of its blocks. -/
theorem ofBlocks_done {free : List ℕ} {blocks : List (KvBundleBlock T)}
    (h : (Effect.ofBlocks cfg dtype p free blocks).done = true) :
    (Effect.ofBlocks cfg dtype p free blocks).taken.length = blocks.length ∧
      ∀ (b : ℕ) (block : KvBundleBlock T) (id : ℕ), blocks[b]? = some block →
        (Effect.ofBlocks cfg dtype p free blocks).taken[b]? = some id →
        block.layers.length = cfg.numHiddenLayers ∧ ∀ layer lb, block.layers[layer]? = some lb →
          WholeIn p id layer lb (Effect.ofBlocks cfg dtype p free blocks).stores := by
  induction blocks generalizing free with
  | nil =>
    rw [ofBlocks_nil]
    exact ⟨rfl, fun b block id hb => (by cases hb)⟩
  | cons block rest ih =>
    cases free with
    | nil => cases h
    | cons id free =>
      obtain ⟨hone, hrest, heq⟩ := Effect.andThen_done h
      rw [Effect.ofBlocks, heq]
      obtain ⟨htaken, hlayers, hwhole⟩ := ofBlock_done hone
      obtain ⟨hlength, hall⟩ := ih hrest
      refine ⟨by simp [htaken, hlength, Nat.add_comm], fun b block' id' hb hid => ?_⟩
      rw [htaken] at hid
      cases b with
      | zero =>
        cases hb
        cases hid
        exact ⟨hlayers, fun layer lb hlb => (hwhole layer lb hlb).mono (List.subset_append_left _ _)⟩
      | succ b =>
        obtain ⟨hlayers', hwhole'⟩ := hall b block' id' hb hid
        exact ⟨hlayers', fun layer lb hlb =>
          (hwhole' layer lb hlb).mono (List.subset_append_right _ _)⟩

omit [LawfulCandle T] in
/-- The blocks that are taken are the first free ones. -/
theorem ofBlocks_taken (free : List ℕ) (blocks : List (KvBundleBlock T)) :
    (Effect.ofBlocks cfg dtype p free blocks).taken <+: free := by
  induction blocks generalizing free with
  | nil => simp [Effect.skip]
  | cons block rest ih =>
    cases free with
    | nil => exact List.prefix_rfl
    | cons id free =>
      rw [Effect.ofBlocks]
      cases hdone : (Effect.ofBlock cfg dtype p id block).done with
      | true =>
        obtain ⟨htaken, -⟩ := ofBlock_done hdone
        simpa [Effect.andThen_of_done hdone, htaken] using ih free
      | false =>
        rw [Effect.andThen_of_stopped hdone]
        unfold Effect.ofBlock
        split_ifs
        · exact List.nil_prefix
        · simp [Effect.andThen_of_done, ofLayers_taken]

end Leaves

/-! ## 4. What an import should do -/

section Import

variable {T : Type} [Candle T]

namespace KvCache

/-- An import up to its rollback, or its registrations: it returns the blocks it has allocated. -/
def importAllocated (bundle : KvBundle T) (prompt : List UInt32) : Prog (KvCache T) (List ℕ) := do
  checkBundle bundle prompt
  resetSequence
  let c ← Prog.get
  if c.allocator.numFree < bundle.header.tokenCount / c.table.blockSize then pure []
  else do
    let (_, allocated) ← Prog.attempt []
      (Prog.forEach (importBlock bundle.header.numLayers) bundle.blocks)
    pure allocated

/-- The blocks that an import allocates. -/
def allocatedBy (c : KvCache T) (bundle : KvBundle T) (prompt : List UInt32) : List ℕ :=
  match importAllocated bundle prompt c with
  | some (.ok allocated, _) => allocated
  | _ => []

omit [Candle T] in
/-- The free blocks of the sequence that an import starts. -/
def freeAfterReset (c : KvCache T) : List ℕ :=
  match resetSequence c with
  | some (_, c₀) => c₀.allocator.free
  | none => []

/-- An import begins to write if its checks pass and there are blocks for the bundle. -/
structure Begins (c : KvCache T) (bundle : KvBundle T) (prompt : List UInt32) : Prop where
  accepts : c.Accepts bundle prompt
  room : bundle.header.tokenCount / Kv.blockSize ≤ c.freeAfterReset.length

end KvCache

/-- The row at position `j` of a block tensor, with or without a batch axis. -/
def blockRow (cfg : Config) (t : T) (j : ℕ) : Row :=
  match PagedKvPool.normalizeBlock t with
  | .ok t => row cfg.numKeyValueHeads cfg.headDim t j
  | .error _ => []

/-- A tensor of exactly one block of the pool. -/
def OneBlock (cfg : Config) (t : T) : Prop :=
  dims t = [cfg.numKeyValueHeads, blockSize, cfg.headDim] ∨
    dims t = [1, cfg.numKeyValueHeads, blockSize, cfg.headDim]

/-- **What an import should do** that takes the cache from `c` to `c'`: change no row outside of the
    blocks that it allocates; and, if it returns, have written all of their rows, from tensors of
    one block each. -/
structure Contained (cfg : Config) (bundle : KvBundle T) (allocated : List ℕ) (c c' : KvCache T)
    (r : Except String ℕ) : Prop where
  frame : ∀ layer s, s < numSlots cfg → s / blockSize ∉ allocated →
    c'.pool.kv layer s = c.pool.kv layer s
  length : ∀ n, r = .ok n → allocated.length = bundle.blocks.length
  written : ∀ n, r = .ok n → ∀ (b : ℕ) (block : KvBundleBlock T) (id : ℕ),
    bundle.blocks[b]? = some block → allocated[b]? = some id →
      block.layers.length = cfg.numHiddenLayers ∧
      ∀ layer lb, block.layers[layer]? = some lb → ∀ j, j < blockSize →
        c'.pool.kv layer (id * blockSize + j) = (blockRow cfg lb.k j, blockRow cfg lb.v j)
  sized : ∀ n, r = .ok n → ∀ block ∈ bundle.blocks, ∀ lb ∈ block.layers,
    OneBlock cfg lb.k ∧ OneBlock cfg lb.v

variable (cfg : Config) (dtype : DType)

/-- What the writes of an import do. -/
def importEffect (c : KvCache T) (bundle : KvBundle T) : Effect T :=
  Effect.ofBlocks cfg dtype c.pool c.freeAfterReset bundle.blocks

/-- Every tensor that is stored has one row for each slot of a block. -/
def WellSized (c : KvCache T) (bundle : KvBundle T) : Prop :=
  ∀ st ∈ (importEffect cfg dtype c bundle).stores, st.count = blockSize

/-- The import is refused later, and a row that it stores outside of the blocks it takes, and does
    not store again, is the row that was there. -/
def Unseen (c : KvCache T) (bundle : KvBundle T) : Prop :=
  (importEffect cfg dtype c bundle).done = false ∧ ∀ place : Place, place.2.2 < numSlots cfg →
    place.2.2 / blockSize ∉ (importEffect cfg dtype c bundle).taken → ∀ row,
      lastPatch ((importEffect cfg dtype c bundle).stores.map (Store.patch cfg)) place = some row →
        row = c.pool.rowAt place

variable {cfg dtype}

theorem importEffect_taken (c : KvCache T) (bundle : KvBundle T) :
    (importEffect cfg dtype c bundle).taken <+: c.freeAfterReset := ofBlocks_taken _ _

variable [LawfulCandle T] {blockHash : BlockHash} {c : Cache T} {bundle : KvBundle T}
  {prompt : List UInt32} {r : Except String ℕ} {c' : KvCache T}

/-- **The writes of an import**, after its checks and its reset. -/
theorem wlp_importBlocks_effect {c₀ : KvCache T} (h₀ : c₀.Owned) (hb : c₀.table.blocks = [])
    (hp : PoolShape cfg dtype c₀.pool) (blockHash : BlockHash) {bundle : KvBundle T}
    (hnum : bundle.blocks.length = bundle.header.tokenCount / blockSize)
    (hlayers : bundle.header.numLayers = cfg.numHiddenLayers)
    (hfree : bundle.header.tokenCount / blockSize ≤ c₀.allocator.numFree) :
    let e := Effect.ofBlocks cfg dtype c₀.pool c₀.allocator.free bundle.blocks
    (∃ r c₁, Prog.attempt [] (Prog.forEach (KvCache.importBlock bundle.header.numLayers)
      bundle.blocks) c₀ = some (.ok (r, e.taken), c₁)) ∧
    wlp (KvCache.importBlocks blockHash bundle)
      (fun _ c => e.done = true ∧ Leaves cfg dtype e.stores c₀.pool c.pool)
      (fun _ c => e.done = false ∧ Leaves cfg dtype e.stores c₀.pool c.pool) c₀ := by
  intro e
  have hloop : wp (forEach (KvCache.importBlock bundle.header.numLayers) bundle.blocks)
      (fun _ s => e.done = true ∧ s.1 = e.taken ∧ Leaves cfg dtype e.stores c₀.pool s.2.pool)
      (fun _ s => e.done = false ∧ s.1 = e.taken ∧ Leaves cfg dtype e.stores c₀.pool s.2.pool)
      (([] : List ℕ), c₀) := by
    rw [hlayers]
    exact wp_importLoop_effect hp h₀.layers hp.1.kLen (hnum.trans_le hfree) (.start h₀ hb) hb hp rfl
  refine ⟨?_, ?_⟩
  · rcases hloop.exists with ⟨_, ⟨ids, c₁⟩, hrun, -, rfl, -⟩ | ⟨_, ⟨ids, c₁⟩, hrun, -, rfl, -⟩
    all_goals exact ⟨_, c₁, Option.map_eq_some_iff.mpr ⟨_, hrun, rfl⟩⟩
  · refine wlp_bind (Or.inr ?_)
    rw [wp_get]
    dsimp only
    rw [h₀.blockSize, if_neg (Nat.not_lt_of_le hfree)]
    refine wlp_bind (Or.inr ?_)
    rw [wp_attempt]
    refine hloop.mono (fun _ s hs => ?_) fun err s hs => ?_
    · obtain ⟨hdone, -, hl⟩ := hs
      refine wlp_bind (Or.inr ?_)
      rw [KvCache.onTable, wp_modify]
      refine wlp_bind ((wlp_registerBlocks _ _ _ _).mono (fun _ c hc => Or.inr ?_) fun _ _ hE => hE.elim)
      refine ⟨hdone, ?_⟩
      rw [hc.1]
      exact hl
    · obtain ⟨hdone, -, hl⟩ := hs
      have hkeeps : Keeps (fun c : KvCache T => c.pool = s.2.pool) (forEach KvCache.decref s.1) :=
        keeps_release (P := fun p => p = s.2.pool) _
      refine wlp_bind (((wlp_trivial _).and_keeps hkeeps rfl).mono (fun _ c hc => ?_)
        fun _ c hc => ⟨hdone, by rw [hc.2]; exact hl⟩)
      refine wlp_bind (Or.inr ?_)
      rw [KvCache.onTable, wp_modify]
      refine Or.inr ⟨hdone, ?_⟩
      rw [hc.2]
      exact hl

/-- What an import that ended has done: it stopped at a check and wrote nothing, or it began to
    write. -/
structure ImportBegan (cfg : Config) (dtype : DType) (c : KvCache T) (bundle : KvBundle T)
    (allocated : List ℕ) (r : Except String ℕ) (c' : KvCache T) : Prop where
  allocated : allocated = (importEffect cfg dtype c bundle).taken
  leaves : Leaves cfg dtype (importEffect cfg dtype c bundle).stores c.pool c'.pool
  returned : (∃ n, r = .ok n) ↔ (importEffect cfg dtype c bundle).done = true

/-- How an import ends. -/
inductive ImportEnds (cfg : Config) (dtype : DType) (c : KvCache T) (bundle : KvBundle T)
    (prompt : List UInt32) : Except String ℕ → KvCache T → Prop
  | stopped {err : String} {c' : KvCache T} (hno : ¬ c.Begins bundle prompt)
      (hpool : c'.pool = c.pool) : ImportEnds cfg dtype c bundle prompt (.error err) c'
  | began {r : Except String ℕ} {c' : KvCache T} (hb : c.Begins bundle prompt)
      (h : ImportBegan cfg dtype c bundle (c.allocatedBy bundle prompt) r c') :
      ImportEnds cfg dtype c bundle prompt r c'

omit [Candle T] [LawfulCandle T] in
/-- The reset that an import begins with. -/
theorem KvCache.reset_free {c : KvCache T} (h : c.Owned) : ∃ c₀,
    KvCache.resetSequence c = some (.ok (), c₀) ∧ KvCache.Reset c c₀ ∧
    c.freeAfterReset = c₀.allocator.free := by
  obtain ⟨_, c₀, hreset, hr⟩ := (KvCache.wp_resetSequence h (E := fun _ _ => False)).returns
  refine ⟨c₀, hreset, hr, ?_⟩
  unfold KvCache.freeAfterReset
  rw [hreset]

omit [LawfulCandle T] in
/-- The blocks of the loop over the bundle, once an import began it. -/
theorem KvCache.allocatedBy_eq {c c₀ c₁ : KvCache T} {out : Except String Unit} {allocated : List ℕ}
    (hcheck : KvCache.checkBundle bundle prompt c = some (.ok (), c))
    (hreset : KvCache.resetSequence c = some (.ok (), c₀)) (ho : c₀.Owned)
    (hroom : bundle.header.tokenCount / blockSize ≤ c₀.allocator.numFree)
    (hloop : Prog.attempt [] (Prog.forEach (KvCache.importBlock bundle.header.numLayers)
      bundle.blocks) c₀ = some (.ok (out, allocated), c₁)) :
    c.allocatedBy bundle prompt = allocated := by
  have hrun : KvCache.importAllocated bundle prompt c = some (.ok allocated, c₁) := by
    refine Prog.bind_eq_ok.mpr ⟨_, _, hcheck, Prog.bind_eq_ok.mpr ⟨_, _, hreset, ?_⟩⟩
    refine Prog.bind_eq_ok.mpr ⟨c₀, c₀, rfl, ?_⟩
    rw [ho.blockSize, if_neg (Nat.not_lt_of_le hroom)]
    exact Prog.bind_eq_ok.mpr ⟨_, _, hloop, rfl⟩
  unfold KvCache.allocatedBy
  rw [hrun]

/-- **An import** stops before it writes, or stores what `importEffect` says. -/
theorem import_ended (hf : Formed cfg dtype c)
    (h : KvCache.importPrefixBundle blockHash bundle prompt c.kvs = some (r, c')) :
    ImportEnds cfg dtype c.kvs bundle prompt r c' := by
  obtain ⟨c₀, hreset, hr, hfree⟩ := KvCache.reset_free hf.owned
  have hblockSize := hf.owned.blockSize
  have hpool : PoolShape cfg dtype c₀.pool := by
    rw [hr.pool]
    exact ⟨hf.pool, hf.kvHeads, hf.headDim⟩
  have heffect : importEffect cfg dtype c.kvs bundle =
      Effect.ofBlocks cfg dtype c₀.pool c₀.allocator.free bundle.blocks := by
    unfold importEffect
    rw [hfree, hr.pool]
  suffices hw : wlp (KvCache.importPrefixBundle blockHash bundle prompt)
      (fun n => ImportEnds cfg dtype c.kvs bundle prompt (.ok n))
      (fun err => ImportEnds cfg dtype c.kvs bundle prompt (.error err)) c.kvs by
    cases r with
    | ok n => exact hw.of_ok h
    | error err => exact hw.of_error h
  rcases hcheck : KvCache.checkBundle bundle prompt c.kvs with _ | ⟨err | _, c₁⟩
  · exact wlp_bind (Or.inl hcheck)
  · obtain ⟨rfl, hno⟩ := (KvCache.wlp_checkBundle bundle prompt).of_error hcheck
    exact wlp_bind (Or.inr ((wp_of_error hcheck).mpr (.stopped (fun hb => hno hb.accepts) rfl)))
  obtain ⟨rfl, hacc⟩ := (KvCache.wlp_checkBundle bundle prompt).of_ok hcheck
  refine wlp_bind (Or.inr ((wp_of_ok hcheck).mpr (wlp_bind (Or.inr ((wp_of_ok hreset).mpr ?_)))))
  by_cases hroom : bundle.header.tokenCount / blockSize ≤ c₀.allocator.numFree
  · have hnum := hacc.blocks
    rw [hblockSize] at hnum
    obtain ⟨⟨_, _, hloop⟩, hwrites⟩ := wlp_importBlocks_effect hr.owned hr.blocks hpool blockHash
      hnum (hacc.numLayers.trans hf.pool.kLen) hroom
    rw [← heffect] at hloop hwrites
    have hbegins : c.kvs.Begins bundle prompt := ⟨hacc, by rw [hfree]; exact hroom⟩
    have hallocated := KvCache.allocatedBy_eq hcheck hreset hr.owned hroom hloop
    rw [hr.pool] at hwrites
    exact hwrites.mono
      (fun n c' hc => .began hbegins ⟨hallocated, hc.2, fun _ => hc.1, fun _ => ⟨n, rfl⟩⟩)
      fun err c' hc => .began hbegins ⟨hallocated, hc.2, fun ⟨_, h⟩ => (by cases h), fun h => by
        rw [hc.1] at h
        cases h⟩
  · refine wlp_bind (Or.inr ?_)
    rw [wp_get]
    dsimp only
    rw [hr.owned.blockSize, if_pos (Nat.lt_of_not_le hroom)]
    exact Or.inr (.stopped (fun hb => hroom (by rw [BlockAllocator.numFree, ← hfree]; exact hb.room))
      hr.pool)

/-! ## 5. When an import does that -/

/-- A block tensor in its normal form has as many rows as a block iff it is one block. -/
theorem oneBlock_iff {t u : T} {count : ℕ} (h : PagedKvPool.normalizeBlock t = .ok u)
    (hu : dims u = [cfg.numKeyValueHeads, count, cfg.headDim]) : OneBlock cfg t ↔ count = blockSize := by
  unfold PagedKvPool.normalizeBlock at h
  unfold OneBlock
  split at h
  · rename_i hrank
    obtain ⟨d, ds, hds⟩ := List.exists_cons_of_length_eq_add_one hrank
    rw [hds, List.length_cons] at hrank
    by_cases hone : d = 1
    · subst hone
      obtain ⟨u', hu', hdims, -, -⟩ := LawfulCandle.squeeze_one hds
      cases h.symm.trans hu'
      rw [hu] at hdims
      simp [hds, ← hdims]
    · cases h.symm.trans (LawfulCandle.squeeze_ne_one hds hone)
      rw [hu] at hds
      cases hds
      simp at hrank
  · cases h
    simp [hu]
  · cases h

omit [LawfulCandle T] in
theorem kv_eq_rowAt (p : PagedKvPool T) (layer s : ℕ) :
    p.kv layer s = (p.rowAt (.k, layer, s), p.rowAt (.v, layer, s)) := rfl

omit [LawfulCandle T] in
/-- A store of one block covers the slots of its block. -/
theorem patch_of_wellSized {st : Store T} (hst : st.count = blockSize) {half : Half} {layer s : ℕ}
    {w : Row} (h : st.patch cfg (half, layer, s) = some w) :
    half = st.half ∧ layer = st.layer ∧ s / blockSize = st.id ∧
      w = row cfg.numKeyValueHeads cfg.headDim st.src (s % blockSize) := by
  unfold Store.patch at h
  dsimp only at h
  split_ifs at h with hin
  obtain ⟨rfl, rfl, hlo, hhi⟩ := hin
  rw [hst] at hlo hhi
  cases h
  have hdiv : s / blockSize = st.id := by
    refine Nat.div_eq_of_lt_le hlo ?_
    rwa [Nat.succ_mul]
  refine ⟨rfl, rfl, hdiv, ?_⟩
  have hmod := Nat.div_add_mod s blockSize
  rw [hdiv, Nat.mul_comm] at hmod
  rw [hst, show s - st.id * blockSize = s % blockSize by omega]

omit [LawfulCandle T] in
/-- **Nothing outside** of the blocks that are taken, if all stores have the size of a block. -/
theorem ImportBegan.frame (h : ImportBegan cfg dtype c.kvs bundle (c.kvs.allocatedBy bundle prompt) r c')
    (hw : WellSized cfg dtype c.kvs bundle) {half : Half} {layer s : ℕ} (hs : s < numSlots cfg)
    (hout : s / blockSize ∉ c.kvs.allocatedBy bundle prompt) :
    c'.pool.rowAt (half, layer, s) = c.kvs.pool.rowAt (half, layer, s) := by
  rw [h.leaves.rows _ hs, patched_eq_self_iff]
  intro w hlast
  obtain ⟨_, hmem, hpatch⟩ := exists_of_lastPatch hlast
  obtain ⟨st, hst, rfl⟩ := List.mem_map.mp hmem
  obtain ⟨-, -, hid, -⟩ := patch_of_wellSized (hw st hst) hpatch
  obtain ⟨b, -, -, -, htaken, -⟩ := mem_ofBlocks hst
  rw [h.allocated, hid] at hout
  exact absurd (List.mem_of_getElem? htaken) hout

omit [Candle T] [LawfulCandle T] in
/-- The free blocks are different blocks of the pool, and none of them is cached. -/
theorem KvCache.freeAfterReset_spec {c : KvCache T} (h : c.Owned) : c.freeAfterReset.Nodup ∧
    ∀ id ∈ c.freeAfterReset, id < c.allocator.size ∧ id ∉ c.registry.blockIds := by
  obtain ⟨c₀, -, hr, hfree⟩ := KvCache.reset_free h
  have ht := hr.owned.tracks
  rw [hfree, ← hr.size, ← hr.registry]
  refine ⟨ht.nodup, fun id hid => ?_⟩
  obtain ⟨hlt, hno⟩ := (ht.free id).mp hid
  exact ⟨hlt, fun hreg => hno (Multiset.mem_add.mpr (Or.inr hreg))⟩

omit [LawfulCandle T] in
/-- The tensor that is stored for a half of a layer. -/
theorem StoresOf.src_eq {p : PagedKvPool T} {lb : KvLayerBlock T} {st st' : Store T}
    (h : StoresOf p lb st) (h' : StoresOf p lb st') (hhalf : st'.half = st.half) :
    st'.src = st.src := by
  obtain ⟨kt, vt, hcheck, hsrc⟩ := h
  obtain ⟨kt', vt', hcheck', hsrc'⟩ := h'
  rw [hcheck] at hcheck'
  obtain ⟨rfl, rfl, -⟩ : kt = kt' ∧ vt = vt' ∧ st.count = st'.count := by simpa using hcheck'
  rw [hhalf] at hsrc'
  rcases hsrc with ⟨hk, rfl⟩ | ⟨hv, rfl⟩
  · simpa [hk] using hsrc'
  · simpa [hv] using hsrc'

omit [LawfulCandle T] in
/-- A tensor that is stored is the one there at the end: no other one is stored to its block. -/
theorem ImportBegan.rowAt_stored (hf : Formed cfg dtype c)
    (h : ImportBegan cfg dtype c.kvs bundle (c.kvs.allocatedBy bundle prompt) r c')
    (hw : WellSized cfg dtype c.kvs bundle) {b j : ℕ} {block : KvBundleBlock T} {lb : KvLayerBlock T}
    {st : Store T} (hst : st ∈ (importEffect cfg dtype c.kvs bundle).stores)
    (hblock : bundle.blocks[b]? = some block)
    (hid : (c.kvs.allocatedBy bundle prompt)[b]? = some st.id)
    (hlb : block.layers[st.layer]? = some lb) (hof : StoresOf c.kvs.pool lb st) (hj : j < blockSize) :
    c'.pool.rowAt (st.half, st.layer, st.id * blockSize + j) =
      row cfg.numKeyValueHeads cfg.headDim st.src j := by
  obtain ⟨hnodup, hrange⟩ := KvCache.freeAfterReset_spec hf.owned
  rw [h.allocated] at hid
  have htaken : (importEffect cfg dtype c.kvs bundle).taken <+: _ := importEffect_taken _ _
  have hdiv := page_div hj st.id
  have hmod := Nat.mul_add_mod_of_lt (a := st.id) hj
  have hslot : st.id * blockSize + j < numSlots cfg :=
    hf.slot_lt (hrange st.id (htaken.subset (List.mem_of_getElem? hid))).1 hj
  rw [h.leaves.rows _ hslot]
  refine patched_eq_of_forall (fun p hp w hpatch => ?_) ⟨st.patch cfg, List.mem_map_of_mem hst, ?_⟩
  · obtain ⟨st', hst', rfl⟩ := List.mem_map.mp hp
    obtain ⟨hhalf, hlayer, hid', rfl⟩ := patch_of_wellSized (hw st' hst') hpatch
    obtain ⟨b', block', lb', hblock', htaken', hlb', hof'⟩ := mem_ofBlocks hst'
    rw [hdiv] at hid'
    -- the blocks that are taken are different ones
    have hbb : b' = b := (List.getElem?_inj (List.getElem?_eq_some_iff.mp htaken').1
      (hnodup.sublist htaken.sublist)).mp (htaken'.trans (hid' ▸ hid.symm))
    subst hbb
    cases hblock.symm.trans hblock'
    rw [← hlayer] at hlb'
    cases hlb.symm.trans hlb'
    rw [hmod, hof.src_eq hof' hhalf.symm]
  · unfold Store.patch
    simp [hw st hst, hj]

omit [LawfulCandle T] in
/-- **All of a block that is taken**, if all stores have the size of a block and none is refused. -/
theorem ImportBegan.written (hf : Formed cfg dtype c)
    (h : ImportBegan cfg dtype c.kvs bundle (c.kvs.allocatedBy bundle prompt) r c')
    (hw : WellSized cfg dtype c.kvs bundle) (hdone : (importEffect cfg dtype c.kvs bundle).done = true)
    {b id layer j : ℕ} {block : KvBundleBlock T} {lb : KvLayerBlock T}
    (hblock : bundle.blocks[b]? = some block)
    (hid : (c.kvs.allocatedBy bundle prompt)[b]? = some id)
    (hlb : block.layers[layer]? = some lb) (hj : j < blockSize) :
    c'.pool.kv layer (id * blockSize + j) = (blockRow cfg lb.k j, blockRow cfg lb.v j) := by
  have hwhole := ((ofBlocks_done hdone).2 b block id hblock (h.allocated ▸ hid)).2 layer lb hlb
  have hhalf : ∀ half, c'.pool.rowAt (half, layer, id * blockSize + j) =
      match half with | .k => blockRow cfg lb.k j | .v => blockRow cfg lb.v j := by
    intro half
    obtain ⟨st, hst, rfl, rfl, rfl, hof⟩ := hwhole half
    rw [h.rowAt_stored hf hw hst hblock hid hlb hof hj]
    obtain ⟨kt, vt, hcheck, hsrc⟩ := hof
    obtain ⟨hkt, hvt, -, -⟩ := checkBlock_ok hcheck
    rcases hsrc with ⟨hk, hsrc⟩ | ⟨hv, hsrc⟩
    · simp [hk, hsrc, blockRow, hkt]
    · simp [hv, hsrc, blockRow, hvt]
  rw [kv_eq_rowAt, hhalf .k, hhalf .v]

/-- Stored tensors have the size of a block iff the tensors of the bundle are one block each. -/
theorem StoresOf.count_eq {p : PagedKvPool T} (hheads : p.kvHeads = cfg.numKeyValueHeads)
    (hdim : p.headDim = cfg.headDim) {lb : KvLayerBlock T} {st : Store T} (h : StoresOf p lb st) :
    (OneBlock cfg lb.k ↔ st.count = blockSize) ∧ (OneBlock cfg lb.v ↔ st.count = blockSize) := by
  obtain ⟨kt, vt, hcheck, -⟩ := h
  obtain ⟨hk, hv, hkd, hvd⟩ := checkBlock_ok hcheck
  rw [hheads, hdim] at hkd hvd
  exact ⟨oneBlock_iff hk hkd, oneBlock_iff hv hvd⟩

/-- **Stores of one block each**: the import does what it should. -/
theorem ImportBegan.contained_of_wellSized (hf : Formed cfg dtype c)
    (h : ImportBegan cfg dtype c.kvs bundle (c.kvs.allocatedBy bundle prompt) r c')
    (hw : WellSized cfg dtype c.kvs bundle) :
    Contained cfg bundle (c.kvs.allocatedBy bundle prompt) c.kvs c' r := by
  have hall : ∀ n, r = .ok n → (importEffect cfg dtype c.kvs bundle).done = true :=
    fun n hr => h.returned.mp ⟨n, hr⟩
  refine ⟨fun layer s hs hout => ?_, fun n hr => ?_, fun n hr b block id hblock hid => ?_,
    fun n hr block hblock lb hlb => ?_⟩
  · rw [kv_eq_rowAt, kv_eq_rowAt, h.frame hw hs hout, h.frame hw hs hout]
  · rw [h.allocated]
    exact (ofBlocks_done (hall n hr)).1
  · exact ⟨((ofBlocks_done (hall n hr)).2 b block id hblock (h.allocated ▸ hid)).1,
      fun layer lb hlb j hj => h.written hf hw (hall n hr) hblock hid hlb hj⟩
  · -- every tensor of the bundle is stored
    obtain ⟨b, hblt, rfl⟩ := List.getElem_of_mem hblock
    obtain ⟨layer, hllt, rfl⟩ := List.getElem_of_mem hlb
    obtain ⟨hlength, hwhole⟩ := ofBlocks_done (hall n hr)
    have hid := List.getElem?_eq_getElem (hlength.symm ▸ hblt)
    obtain ⟨st, hst, -, -, -, hstores⟩ :=
      (hwhole b _ _ (List.getElem?_eq_getElem hblt) hid).2 layer _ (List.getElem?_eq_getElem hllt) .k
    obtain ⟨hk, hv⟩ := hstores.count_eq hf.kvHeads hf.headDim
    exact ⟨hk.mpr (hw st hst), hv.mpr (hw st hst)⟩

omit [LawfulCandle T] in
/-- The rows outside of the allocated blocks are unchanged iff what is stored there is unseen. -/
theorem ImportBegan.frame_iff
    (h : ImportBegan cfg dtype c.kvs bundle (c.kvs.allocatedBy bundle prompt) r c') :
    (∀ layer s, s < numSlots cfg → s / blockSize ∉ c.kvs.allocatedBy bundle prompt →
        c'.pool.kv layer s = c.kvs.pool.kv layer s) ↔
      ∀ place : Place, place.2.2 < numSlots cfg →
        place.2.2 / blockSize ∉ (importEffect cfg dtype c.kvs bundle).taken → ∀ row,
          lastPatch ((importEffect cfg dtype c.kvs bundle).stores.map (Store.patch cfg)) place =
            some row → row = c.kvs.pool.rowAt place := by
  rw [← h.allocated]
  constructor
  · rintro hframe ⟨half, layer, s⟩ hs hout
    have hkv := hframe layer s hs hout
    rw [kv_eq_rowAt, kv_eq_rowAt, Prod.mk.injEq] at hkv
    refine patched_eq_self_iff.mp ?_
    rw [← h.leaves.rows (half, layer, s) hs]
    cases half with
    | k => exact hkv.1
    | v => exact hkv.2
  · intro hsame layer s hs hout
    have hrow : ∀ half, c'.pool.rowAt (half, layer, s) = c.kvs.pool.rowAt (half, layer, s) :=
      fun half => by
        rw [h.leaves.rows _ hs]
        exact patched_eq_self_iff.mpr (hsame (half, layer, s) hs hout)
    rw [kv_eq_rowAt, kv_eq_rowAt, hrow, hrow]

/-- An import that began to write is contained iff what it stores is. -/
theorem ImportBegan.contained_iff (hf : Formed cfg dtype c)
    (h : ImportBegan cfg dtype c.kvs bundle (c.kvs.allocatedBy bundle prompt) r c') :
    Contained cfg bundle (c.kvs.allocatedBy bundle prompt) c.kvs c' r ↔
      WellSized cfg dtype c.kvs bundle ∨ Unseen cfg dtype c.kvs bundle := by
  constructor
  · intro hc
    cases hdone : (importEffect cfg dtype c.kvs bundle).done with
    | true =>
      left
      intro st hst
      obtain ⟨n, rfl⟩ := h.returned.mpr hdone
      obtain ⟨b, block, lb, hblock, -, hlb, hstores⟩ := mem_ofBlocks hst
      exact (hstores.count_eq hf.kvHeads hf.headDim).1.mp (hc.sized n rfl block
        (List.mem_of_getElem? hblock) lb (List.mem_of_getElem? hlb)).1
    | false => exact Or.inr ⟨hdone, h.frame_iff.mp hc.frame⟩
  · rintro (hw | ⟨hdone, hsame⟩)
    · exact h.contained_of_wellSized hf hw
    · have hno : ∀ n, r ≠ .ok n := fun n hr => by
        have hyes := h.returned.mp ⟨n, hr⟩
        rw [hdone] at hyes
        cases hyes
      exact ⟨h.frame_iff.mpr hsame, fun n hr => absurd hr (hno n), fun n hr => absurd hr (hno n),
        fun n hr => absurd hr (hno n)⟩

/-- **An import is contained** exactly if it stops before it writes, or every tensor that it stores
    has one row for each slot of a block, or it is refused later and the rows that it misplaced are
    those that were there. In every state reached, for every bundle and every prompt. -/
theorem import_contained_iff {c₀ : Cache T} (hnew : Cache.new cfg dtype = .ok c₀) {ops : List (Op T)}
    (hr : (cacheLts T blockHash).Steps c₀ ops c)
    (h : KvCache.importPrefixBundle blockHash bundle prompt c.kvs = some (r, c')) :
    Contained cfg bundle (c.kvs.allocatedBy bundle prompt) c.kvs c' r ↔
      (c.kvs.Begins bundle prompt →
        WellSized cfg dtype c.kvs bundle ∨ Unseen cfg dtype c.kvs bundle) := by
  have hf := formed_steps hnew hr
  cases import_ended hf h with
  | stopped hno hpool =>
    refine ⟨fun _ hb => absurd hb hno, fun _ => ⟨fun layer s _ _ => by rw [hpool], ?_, ?_, ?_⟩⟩
    all_goals
      intro n hn
      cases hn
  | began hb h => rw [h.contained_iff hf, forall_prop_of_true hb]

/-- What was decoded and passed the checks is stored by whole blocks. -/
theorem wellSized_of_valid (hf : Formed cfg dtype c) (hv : bundle.Valid)
    (ha : c.kvs.Accepts bundle prompt) : WellSized cfg dtype c.kvs bundle := by
  intro st hst
  obtain ⟨b, block, lb, hblock, -, hlb, hstores⟩ := mem_ofBlocks hst
  have hi := importable_of_valid hf hv ha block (List.mem_of_getElem? hblock)
  exact (hstores.count_eq hf.kvHeads hf.headDim).1.mp (Or.inl (hi.k lb (List.mem_of_getElem? hlb)).1)

/-- **The import of a decoded bundle** changes no row of a cached block. -/
theorem import_keeps_cached (hf : Formed cfg dtype c) (hv : bundle.Valid)
    (h : KvCache.importPrefixBundle blockHash bundle prompt c.kvs = some (r, c')) {id : ℕ}
    (hlt : id < c.kvs.allocator.size)
    (hid : c.kvs.Accepts bundle prompt → id ∈ c.kvs.registry.blockIds) (layer : ℕ) {j : ℕ}
    (hj : j < blockSize) :
    c'.pool.kv layer (id * blockSize + j) = c.kvs.pool.kv layer (id * blockSize + j) := by
  cases import_ended hf h with
  | stopped hno hpool => rw [hpool]
  | began hb h =>
    have hslot := hf.slot_lt hlt hj
    have hout : (id * blockSize + j) / blockSize ∉ c.kvs.allocatedBy bundle prompt := by
      rw [page_div hj, h.allocated]
      intro hmem
      exact ((KvCache.freeAfterReset_spec hf.owned).2 id
        ((importEffect_taken _ _).subset hmem)).2 (hid hb.accepts)
    have hw := wellSized_of_valid hf hv hb.accepts
    rw [kv_eq_rowAt, kv_eq_rowAt, h.frame hw hslot hout, h.frame hw hslot hout]

end Import

/-- A bundle of one block, whose tensors have `count` rows. -/
def bundleOf (count : ℕ) : KvBundle Dense :=
  let t : Dense := ⟨[1, count, 1], .f32, true, fun _ => 1⟩
  { header :=
      { modelId := "m", tokenCount := 16, tokenIds := (List.range 16).map fun i => UInt32.ofNat (i + 1)
        blockSize := 16, numLayers := 1, numKvHeads := 1, headDim := 1, dtype := .f32 }
    blocks := [⟨0, [⟨t, t⟩]⟩] }

/-- The prompt that it is for. -/
def bundlePrompt : List UInt32 := (bundleOf 16).header.tokenIds

set_option synthInstance.maxSize 512 in
/-- A sequence of 17 tokens, whose first block is cached: an import takes the second one. -/
theorem cached_block_run : ∃ c₀ c : Cache Dense, Cache.new sampleConfig .f32 = .ok c₀ ∧
    (cacheLts Dense sampleHash).Steps c₀ [.registerPrefix samplePrompt, .allocateKv 17] c ∧
    c.kvs.registry.blockIds = {0} ∧ c.kvs.allocatedBy (bundleOf 8) bundlePrompt = [1] ∧
    (∀ st ∈ (importEffect sampleConfig .f32 c.kvs (bundleOf 16)).stores, st.count = blockSize) ∧
    wp (KvCache.importPrefixBundle sampleHash (bundleOf 16) bundlePrompt) (fun n _ => n = 16)
      (fun _ _ => False) c.kvs ∧
    wp (KvCache.importPrefixBundle sampleHash (bundleOf 8) bundlePrompt)
      (fun n c' => n = 16 ∧ c'.pool.kv 0 8 ≠ c.kvs.pool.kv 0 8) (fun _ _ => False) c.kvs := by
  have hrun : wp (ofExcept (Cache.new sampleConfig .f32) : Prog Unit (Cache Dense))
      (fun c₀ _ => wp (Cache.allocateKv 17) (fun _ c₁ =>
        samplePrompt.length / blockSize ≤ c₁.kvs.table.blocks.length ∧
        wp (Op.run sampleHash (.registerPrefix samplePrompt)) (fun _ c =>
          c.kvs.registry.blockIds = {0} ∧ c.kvs.allocatedBy (bundleOf 8) bundlePrompt = [1] ∧
          (∀ st ∈ (importEffect sampleConfig .f32 c.kvs (bundleOf 16)).stores, st.count = blockSize) ∧
          wp (KvCache.importPrefixBundle sampleHash (bundleOf 16) bundlePrompt) (fun n _ => n = 16)
            (fun _ _ => False) c.kvs ∧
          wp (KvCache.importPrefixBundle sampleHash (bundleOf 8) bundlePrompt)
            (fun n c' => n = 16 ∧ c'.pool.kv 0 8 ≠ c.kvs.pool.kv 0 8) (fun _ _ => False) c.kvs)
          (fun _ _ => False) c₁) (fun _ _ => False) c₀) (fun _ _ => False) () := by
    decide +kernel
  obtain ⟨c₀, _, hnew, halloc⟩ := hrun.returns
  obtain ⟨_, c₁, halloc, hallowed, hregister⟩ := halloc.returns
  obtain ⟨_, c, hregister, hfacts⟩ := hregister.returns
  exact ⟨c₀, c, (ofExcept_eq_ok.mp hnew).1,
    .step (.step .refl ⟨trivial, _, halloc⟩) ⟨hallowed, _, hregister⟩, hfacts⟩

/-- A bundle of one block, beside a cached one. -/
theorem import_contained_beside_cached : ∃ (c₀ c : Cache Dense) (c' : KvCache Dense),
    Cache.new sampleConfig .f32 = .ok c₀ ∧
    (cacheLts Dense sampleHash).Steps c₀ [.registerPrefix samplePrompt, .allocateKv 17] c ∧
    KvCache.importPrefixBundle sampleHash (bundleOf 16) bundlePrompt c.kvs = some (.ok 16, c') ∧
    Contained sampleConfig (bundleOf 16) (c.kvs.allocatedBy (bundleOf 16) bundlePrompt) c.kvs c'
      (.ok 16) := by
  obtain ⟨c₀, c, hnew, hsteps, -, -, hw, himport, -⟩ := cached_block_run
  obtain ⟨_, c', himport, rfl⟩ := himport.returns
  exact ⟨c₀, c, c', hnew, hsteps, himport,
    (import_contained_iff hnew hsteps himport).mpr fun _ => Or.inl hw⟩

/-- **Tensors of half a block** are accepted, and go to the second half of the cached block. -/
theorem import_into_cached_block : ∃ (c₀ c : Cache Dense) (c' : KvCache Dense),
    Cache.new sampleConfig .f32 = .ok c₀ ∧
    (cacheLts Dense sampleHash).Steps c₀ [.registerPrefix samplePrompt, .allocateKv 17] c ∧
    c.kvs.registry.blockIds = {0} ∧ c.kvs.allocatedBy (bundleOf 8) bundlePrompt = [1] ∧
    KvCache.importPrefixBundle sampleHash (bundleOf 8) bundlePrompt c.kvs = some (.ok 16, c') ∧
    c'.pool.kv 0 8 ≠ c.kvs.pool.kv 0 8 ∧
    ¬ Contained sampleConfig (bundleOf 8) (c.kvs.allocatedBy (bundleOf 8) bundlePrompt) c.kvs c'
      (.ok 16) := by
  obtain ⟨c₀, c, hnew, hsteps, hids, hallocated, -, -, himport⟩ := cached_block_run
  obtain ⟨_, c', himport, rfl, hrow⟩ := himport.returns
  refine ⟨c₀, c, c', hnew, hsteps, hids, hallocated, himport, hrow, fun hc => ?_⟩
  rw [hallocated] at hc
  exact hrow (hc.frame 0 8 (by decide) (by decide))

end Flour.Kv
