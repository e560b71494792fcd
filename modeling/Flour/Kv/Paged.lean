/-
  File:      Flour/Kv/Paged.lean
  Subject:   `BlockTable` and `PagedKvPool` of `src/models/common/paged.rs`: the mapping from
             token positions to pool slots, and the pool of K/V rows.

  * An operation that can panic returns an `Option` (`none` is the panic); one that can fail returns
    its `Except` with the state it leaves behind, also when it fails half-way.
  * `coalesce` is the loop that extends a run of slots. Its test compares the loop index with the
    first slot, as the source does, and not the next slot with its predecessor.
  * `writeRows` -- what a write does to the rows, whatever the slots are (`writeRuns_rows`);
    `writeRows_eq_scatter` -- on lists of slots that the runs do not misplace (`RunsSafe`), it is
    the scatter of the rows to their slots.
-/
import Flour.Kv.Candle
import Flour.Lib.Except
import Flour.Lib.Paging
import Flour.Lib.Scatter

namespace Flour.Kv

open Candle Flour.Lib

/-! ## 1. The block table -/

structure BlockTable where
  blocks : List ℕ
  blockSize : ℕ
  len : ℕ
  deriving DecidableEq, Repr

namespace BlockTable

def new (blockSize : ℕ) : BlockTable := { blocks := [], blockSize, len := 0 }

def capacity (t : BlockTable) : ℕ := t.blocks.length * t.blockSize

def pushBlock (t : BlockTable) (id : ℕ) : BlockTable := { t with blocks := t.blocks ++ [id] }

def clear (t : BlockTable) : BlockTable := { t with blocks := [], len := 0 }

def advance (t : BlockTable) (n : ℕ) : BlockTable := { t with len := t.len + n }

/-- Physical pool slot of a logical position. -/
def slot (t : BlockTable) (pos : ℕ) : Option ℕ :=
  t.blocks[pos / t.blockSize]?.map fun id => id * t.blockSize + pos % t.blockSize

/-- Physical slots of the positions `start..stop`, cast to `u32`. -/
def slots (t : BlockTable) (start stop : ℕ) : Option (List ℕ) :=
  (List.range' start (stop - start)).mapM fun pos => (t.slot pos).map (· % 2 ^ 32)

end BlockTable

/-! ## 2. The pool -/

structure PagedKvPool (T : Type) where
  kPools : List T
  vPools : List T
  kvHeads : ℕ
  headDim : ℕ

/-- The loop `while i + n < slots.len() && i + n == start + n`, when `rest` are the slots from
    `i + n` on. -/
def coalesce (i start : ℕ) : List ℕ → ℕ → ℕ
  | [], n => n
  | _ :: rest, n => if i + n = start + n then coalesce i start rest (n + 1) else n

namespace PagedKvPool

variable {T : Type} [Candle T]

/-- One K and one V pool of zeros for each layer. -/
def zerosFor (ds : List ℕ) (dt : DType) : ℕ → Except String (List T × List T)
  | 0 => .ok ([], [])
  | n + 1 => do
    let k ← zeros ds dt
    let v ← zeros ds dt
    let (ks, vs) ← zerosFor ds dt n
    .ok (k :: ks, v :: vs)

def new (numLayers numSlots kvHeads headDim : ℕ) (dt : DType) : Except String (PagedKvPool T) := do
  let (kPools, vPools) ← zerosFor [kvHeads, numSlots, headDim] dt numLayers
  .ok { kPools, vPools, kvHeads, headDim }

def numLayers (p : PagedKvPool T) : ℕ := p.kPools.length

/-- Element type of the pool; without layers the source's index panics. -/
def dtype (p : PagedKvPool T) : Option DType := p.kPools.head?.map Candle.dtype

/-- Writes the rows `i..i + n` of `src` to the slots from `start` on. -/
def writeRun (src : T) (i n : ℕ) (pool : T) (start : ℕ) : Except String T := do
  let part ← narrow src 1 i n >>= contiguous
  sliceSet pool part 1 start

/-- The loop over the slots from index `i` on; the first `skip` of them were written as part of a
    run. Returns both pools as far as they were written. -/
def writeRuns (kt vt : T) : ℕ → ℕ → List ℕ → T → T → Except String Unit × T × T
  | _, _, [], kPool, vPool => (.ok (), kPool, vPool)
  | i, skip + 1, _ :: rest, kPool, vPool => writeRuns kt vt (i + 1) skip rest kPool vPool
  | i, 0, start :: rest, kPool, vPool =>
    let n := coalesce i start rest 1
    match writeRun kt i n kPool start with
    | .error e => (.error e, kPool, vPool)
    | .ok kPool =>
      match writeRun vt i n vPool start with
      | .error e => (.error e, kPool, vPool)
      | .ok vPool => writeRuns kt vt (i + 1) (n - 1) rest kPool vPool

/-- Writes the rows of `k` and `v` to the listed slots of one layer. -/
def write (p : PagedKvPool T) (layer : ℕ) (slots : List ℕ) (k v : T) :
    Option (Except String Unit × PagedKvPool T) :=
  match squeeze k 0, squeeze v 0 with
  | .error e, _ => some (.error e, p)
  | .ok _, .error e => some (.error e, p)
  | .ok kt, .ok vt =>
    match p.kPools[layer]?, p.vPools[layer]? with
    | some kPool, some vPool =>
      let (reply, kPool, vPool) := writeRuns kt vt 0 0 slots kPool vPool
      some (reply, { p with kPools := p.kPools.set layer kPool
                            vPools := p.vPools.set layer vPool })
    | _, _ => none

/-- A block tensor without its batch axis. -/
def normalizeBlock (t : T) : Except String T :=
  match (dims t).length with
  | 4 => squeeze t 0
  | 3 => .ok t
  | r => .error s!"write_block expects rank 3 or 4 tensor, got rank {r}"

def dims3 (t : T) : Except String (ℕ × ℕ × ℕ) :=
  match dims t with
  | [a, b, c] => .ok (a, b, c)
  | _ => .error (rankError t)

/-- The checks of `writeBlock`: the block tensors in their normal form, and the block size. -/
def checkBlock (p : PagedKvPool T) (k v : T) : Except String (T × T × ℕ) := do
  let kt ← normalizeBlock k
  let vt ← normalizeBlock v
  let (kh, blockSize, hd) ← dims3 kt
  let (vkh, vbs, vhd) ← dims3 vt
  if (kh, blockSize, hd) ≠ (vkh, vbs, vhd) then
    .error s!"write_block k/v shape mismatch: k={dims kt} v={dims vt}"
  else if kh ≠ p.kvHeads ∨ hd ≠ p.headDim then
    .error (s!"write_block expects (.., kv_heads={p.kvHeads}, block_size, head_dim={p.headDim}), " ++
      s!"got kv_heads={kh} head_dim={hd}")
  else .ok (kt, vt, blockSize)

/-- Overwrites one physical block with imported K/V. -/
def writeBlock (p : PagedKvPool T) (layer id : ℕ) (k v : T) :
    Option (Except String Unit × PagedKvPool T) :=
  match p.checkBlock k v with
  | .error e => some (.error e, p)
  | .ok (kt, vt, blockSize) =>
    match p.kPools[layer]?, p.vPools[layer]? with
    | some kPool, some vPool =>
      match contiguous kt >>= fun src => sliceSet kPool src 1 (id * blockSize) with
      | .error e => some (.error e, p)
      | .ok kPool =>
        let p := { p with kPools := p.kPools.set layer kPool }
        match contiguous vt >>= fun src => sliceSet vPool src 1 (id * blockSize) with
        | .error e => some (.error e, p)
        | .ok vPool => some (.ok (), { p with vPools := p.vPools.set layer vPool })
    | _, _ => none

/-- View of `n` contiguous slots from `start` on, as `(1, kv_heads, n, head_dim)`. -/
def blockView (p : PagedKvPool T) (layer start n : ℕ) : Option (Except String (T × T)) :=
  match p.kPools[layer]?, p.vPools[layer]? with
  | some kPool, some vPool => some do
    let k ← narrow kPool 1 start n >>= fun u => unsqueeze u 0
    let v ← narrow vPool 1 start n >>= fun u => unsqueeze u 0
    .ok (k, v)
  | _, _ => none

end PagedKvPool

/-! ## 3. What every write keeps -/

namespace PagedKvPool

/-- Same number of tensors, same shape of a row. -/
structure SameLayout {T : Type} (p p' : PagedKvPool T) : Prop where
  kLen : p'.kPools.length = p.kPools.length
  vLen : p'.vPools.length = p.vPools.length
  kvHeads : p'.kvHeads = p.kvHeads
  headDim : p'.headDim = p.headDim

section Layout

variable {T : Type}

theorem SameLayout.refl (p : PagedKvPool T) : SameLayout p p := ⟨rfl, rfl, rfl, rfl⟩

theorem SameLayout.trans {p p' p'' : PagedKvPool T} (h : SameLayout p p')
    (h' : SameLayout p' p'') : SameLayout p p'' :=
  ⟨h'.kLen.trans h.kLen, h'.vLen.trans h.vLen, h'.kvHeads.trans h.kvHeads,
    h'.headDim.trans h.headDim⟩

/-- Every layer below the number of K tensors has both of its tensors. -/
theorem getElem_layer {p : PagedKvPool T} (hv : p.vPools.length = p.kPools.length) {layer : ℕ}
    (hl : layer < p.kPools.length) :
    ∃ kPool vPool, p.kPools[layer]? = some kPool ∧ p.vPools[layer]? = some vPool := by
  have hl' : layer < p.vPools.length := hv ▸ hl
  exact ⟨p.kPools[layer], p.vPools[layer], List.getElem?_eq_getElem hl,
    List.getElem?_eq_getElem hl'⟩

variable [Candle T]

/-- A write to a layer of the pool does not panic, whatever is written. -/
theorem write_total {p : PagedKvPool T} (hv : p.vPools.length = p.kPools.length) {layer : ℕ}
    (hl : layer < p.kPools.length) (slots : List ℕ) (k v : T) :
    ∃ r p', p.write layer slots k v = some (r, p') ∧ SameLayout p p' := by
  obtain ⟨kPool, vPool, hk, hv'⟩ := getElem_layer hv hl
  unfold write
  rw [hk, hv']
  split
  · exact ⟨_, _, rfl, .refl p⟩
  · exact ⟨_, _, rfl, .refl p⟩
  · exact ⟨_, _, rfl, ⟨List.length_set, List.length_set, rfl, rfl⟩⟩

theorem write_layout {p p' : PagedKvPool T} {layer : ℕ} {slots : List ℕ} {k v : T}
    {r : Except String Unit} (h : p.write layer slots k v = some (r, p')) : SameLayout p p' := by
  unfold write at h
  split at h
  · cases h
    exact .refl p
  · cases h
    exact .refl p
  · split at h
    · cases h
      exact ⟨List.length_set, List.length_set, rfl, rfl⟩
    · cases h

/-- Neither does the import of a block. -/
theorem writeBlock_total {p : PagedKvPool T} (hv : p.vPools.length = p.kPools.length) {layer : ℕ}
    (hl : layer < p.kPools.length) (id : ℕ) (k v : T) :
    ∃ r p', p.writeBlock layer id k v = some (r, p') ∧ SameLayout p p' := by
  obtain ⟨kPool, vPool, hk, hv'⟩ := getElem_layer hv hl
  unfold writeBlock
  split
  · exact ⟨_, _, rfl, .refl p⟩
  rw [hk, hv']
  dsimp only
  split
  · exact ⟨_, _, rfl, .refl p⟩
  · split
    · exact ⟨_, _, rfl, ⟨List.length_set, rfl, rfl, rfl⟩⟩
    · exact ⟨_, _, rfl, ⟨List.length_set, List.length_set, rfl, rfl⟩⟩

/-- Without layers, and only then, the pool has no element type. -/
theorem dtype_eq_none_iff {p : PagedKvPool T} : p.dtype = none ↔ p.numLayers = 0 := by
  unfold dtype numLayers
  rw [Option.map_eq_none_iff, List.head?_eq_none_iff, List.length_eq_zero_iff]

theorem blockView_total {p : PagedKvPool T} (hv : p.vPools.length = p.kPools.length) {layer : ℕ}
    (hl : layer < p.kPools.length) (start n : ℕ) : ∃ r, p.blockView layer start n = some r := by
  obtain ⟨kPool, vPool, hk, hv'⟩ := getElem_layer hv hl
  unfold blockView
  rw [hk, hv']
  exact ⟨_, rfl⟩

end Layout

end PagedKvPool

namespace BlockTable

/-- The slot of a position below the capacity is its address in the physical blocks. -/
theorem slot_eq {t : BlockTable} {pos : ℕ} (h : pos < t.capacity) :
    t.slot pos = some (translate t.blocks t.blockSize pos) := by
  have hb : pos / t.blockSize < t.blocks.length := page_lt h
  unfold slot Lib.translate
  rw [List.getElem?_eq_getElem hb, List.getD_eq_getElem _ _ hb]
  rfl

/-- The slots of a range are the addresses of its positions, cut off at 32 bits. -/
theorem slots_eq {t : BlockTable} (start : ℕ) {stop : ℕ} (h : stop ≤ t.capacity) :
    t.slots start stop = some ((List.range' start (stop - start)).map fun pos =>
      translate t.blocks t.blockSize pos % 2 ^ 32) := by
  unfold slots
  generalize hn : stop - start = n
  have hle : start + n ≤ t.capacity ∨ n = 0 := by omega
  clear hn h
  induction n generalizing start with
  | zero => rfl
  | succ n ih =>
    have hstart : start < t.capacity := by omega
    rw [List.range'_succ, List.mapM_cons, slot_eq hstart, ih (start + 1) (by omega)]
    rfl

end BlockTable

/-! ## 4. What a write does to the rows -/

theorem coalesce_of_ne {i start : ℕ} (h : i ≠ start) (rest : List ℕ) (n : ℕ) :
    coalesce i start rest n = n := by
  cases rest with
  | nil => rfl
  | cons _ _ => exact if_neg (by omega)

/-- A run that starts at the slot of its own index takes in everything that follows. -/
theorem coalesce_self (i : ℕ) (rest : List ℕ) (n : ℕ) :
    coalesce i i rest n = n + rest.length := by
  induction rest generalizing n with
  | nil => rfl
  | cons _ rest ih =>
    rw [coalesce, if_pos rfl, ih, List.length_cons]
    omega

/-- What the loop of a write does to the rows of a pool. -/
def writeRows {R : Type} (src : ℕ → R) : ℕ → ℕ → List ℕ → (ℕ → R) → (ℕ → R)
  | _, _, [], f => f
  | i, skip + 1, _ :: rest, f => writeRows src (i + 1) skip rest f
  | i, 0, start :: rest, f =>
    let n := coalesce i start rest 1
    writeRows src (i + 1) (n - 1) rest (overwrite f start n fun j => src (i + j))

/-- Writing K and V is writing their pairs. -/
theorem writeRows_prod {R R' : Type} (a : ℕ → R) (b : ℕ → R') (slots : List ℕ) (i skip : ℕ)
    (f : ℕ → R × R') (s : ℕ) :
    writeRows (fun j => (a j, b j)) i skip slots f s =
      (writeRows a i skip slots (fun s => (f s).1) s,
        writeRows b i skip slots (fun s => (f s).2) s) := by
  induction slots generalizing i skip f with
  | nil => rfl
  | cons start rest ih =>
    cases skip with
    | succ skip => exact ih (i + 1) skip f
    | zero =>
      rw [writeRows, ih, writeRows, writeRows]
      congr 2 <;> (funext x; unfold overwrite; split <;> rfl)

/-- The slots, from index `i` on, that the runs do not misplace: where a slot equals its own
    index, all later slots do. -/
def RunsSafe : ℕ → List ℕ → Prop
  | _, [] => True
  | i, s :: rest => (s = i → rest = List.range' (i + 1) rest.length) ∧ RunsSafe (i + 1) rest

theorem runsSafe_iff_forall {slots : List ℕ} {i : ℕ} : RunsSafe i slots ↔
    ∀ j k, j ≤ k → k < slots.length → slots[j]? = some (i + j) → slots[k]? = some (i + k) := by
  induction slots generalizing i with
  | nil => exact ⟨fun _ _ _ _ hk => absurd hk (Nat.not_lt_zero _), fun _ => trivial⟩
  | cons s rest ih =>
    rw [RunsSafe, ih]
    constructor
    · rintro ⟨hself, hrest⟩ j k hjk hk hj
      rw [List.length_cons] at hk
      cases k with
      | zero =>
        obtain rfl := Nat.le_zero.mp hjk
        exact hj
      | succ k =>
        rw [List.getElem?_cons_succ]
        cases j with
        | zero =>
          rw [hself (Option.some.inj hj), List.getElem?_range' (by omega), Nat.one_mul,
            Nat.add_right_comm, Nat.add_assoc]
        | succ j =>
          rw [List.getElem?_cons_succ, Nat.add_comm j, ← Nat.add_assoc] at hj
          rw [hrest j k (by omega) (by omega) hj, Nat.add_comm k, Nat.add_assoc]
    · refine fun h => ⟨fun hs => List.ext_getElem? fun k => ?_, fun j k hjk hk hj => ?_⟩
      · by_cases hk : k < rest.length
        · have hlater := h 0 (k + 1) (Nat.zero_le _) (Nat.succ_lt_succ hk) (congrArg some hs)
          rw [List.getElem?_cons_succ] at hlater
          rw [hlater, List.getElem?_range' hk, Nat.one_mul, Nat.add_right_comm, Nat.add_assoc]
        · rw [List.getElem?_eq_none (by omega), List.getElem?_eq_none]
          rw [List.length_range']
          omega
      · have hlater := h (j + 1) (k + 1) (Nat.succ_le_succ hjk) (Nat.succ_lt_succ hk)
        rw [List.getElem?_cons_succ, List.getElem?_cons_succ] at hlater
        rw [Nat.add_assoc, Nat.add_comm 1] at hj ⊢
        exact hlater hj

/-- The slots that the rows go to in the loop of a write: those of a run from its first on, whatever
    the list says. -/
def runSlots : ℕ → ℕ → List ℕ → List ℕ
  | _, _, [] => []
  | i, skip + 1, _ :: rest => runSlots (i + 1) skip rest
  | i, 0, start :: rest =>
    let n := coalesce i start rest 1
    List.range' start n ++ runSlots (i + 1) (n - 1) rest

theorem runSlots_skip_all (i : ℕ) (slots : List ℕ) : runSlots i slots.length slots = [] := by
  induction slots generalizing i with
  | nil => rfl
  | cons _ rest ih => exact ih (i + 1)

theorem runSlots_self (i : ℕ) (rest : List ℕ) :
    runSlots i 0 (i :: rest) = List.range' i (rest.length + 1) := by
  rw [runSlots, coalesce_self, Nat.add_sub_cancel_left, runSlots_skip_all, List.append_nil, Nat.add_comm]

theorem runSlots_of_ne {i start : ℕ} (h : i ≠ start) (rest : List ℕ) :
    runSlots i 0 (start :: rest) = start :: runSlots (i + 1) 0 rest := by
  rw [runSlots, coalesce_of_ne h]
  rfl

/-- **The rows go to the listed slots** iff the list is safe. -/
theorem runSlots_eq_iff {slots : List ℕ} {i : ℕ} : runSlots i 0 slots = slots ↔ RunsSafe i slots := by
  induction slots generalizing i with
  | nil => exact iff_of_true rfl trivial
  | cons s rest ih =>
    rw [RunsSafe, ← ih]
    by_cases hs : s = i
    · subst hs
      rw [runSlots_self, List.range'_succ, List.cons.injEq, eq_self, true_and, true_imp_iff, eq_comm,
        iff_self_and]
      -- what follows in order is safe
      intro hr
      rw [ih, runsSafe_iff_forall]
      intro j k _ hk _
      rw [hr, List.getElem?_range' hk, Nat.one_mul]
    · rw [runSlots_of_ne (Ne.symm hs), List.cons.injEq, eq_self, true_and]
      exact (and_iff_right fun he => absurd he hs).symm

theorem writeRows_skip_all {R : Type} (src : ℕ → R) (i : ℕ) (slots : List ℕ) (f : ℕ → R) :
    writeRows src i slots.length slots f = f := by
  induction slots generalizing i with
  | nil => rfl
  | cons _ rest ih => exact ih (i + 1)

/-- **A write is a scatter** to the slots of its runs. -/
theorem writeRows_eq_runSlots {R : Type} (src : ℕ → R) (slots : List ℕ) (i : ℕ) (f : ℕ → R) :
    writeRows src i 0 slots f = scatter src i (runSlots i 0 slots) f := by
  induction slots generalizing i f with
  | nil => rfl
  | cons s rest ih =>
    rw [writeRows]
    by_cases hs : s = i
    · -- the run takes in the whole rest
      subst hs
      rw [coalesce_self, Nat.add_sub_cancel_left, writeRows_skip_all, runSlots_self, scatter_range',
        Nat.add_comm 1]
    · rw [coalesce_of_ne (Ne.symm hs), Nat.sub_self, ih, runSlots_of_ne (Ne.symm hs), scatter,
        overwrite_one]
      rfl

/-- **On safe lists a write is a scatter** to the listed slots. -/
theorem writeRows_eq_scatter {R : Type} (src : ℕ → R) {slots : List ℕ} {i : ℕ}
    (h : RunsSafe i slots) (f : ℕ → R) : writeRows src i 0 slots f = scatter src i slots f := by
  rw [writeRows_eq_runSlots, runSlots_eq_iff.mpr h]

/-- A slot that is not listed keeps its row, unless a run takes it in: one that starts at a slot
    equal to its index, and goes on to the end of the list. -/
theorem writeRows_of_notMem {R : Type} (src : ℕ → R) {slots : List ℕ} {i s : ℕ} (f : ℕ → R)
    (hout : s ∉ slots) (hrun : ∀ j, j < slots.length → slots[j]? = some (i + j) →
      ¬ (i + j ≤ s ∧ s < i + slots.length)) : writeRows src i 0 slots f s = f s := by
  induction slots generalizing i f with
  | nil => rfl
  | cons start rest ih =>
    obtain ⟨hne, hrest⟩ := not_or.mp (List.mem_cons.not.mp hout)
    rw [writeRows]
    by_cases hs : start = i
    · subst hs
      have hno := hrun 0 (Nat.zero_lt_succ _) rfl
      rw [List.length_cons, Nat.add_zero] at hno
      rw [coalesce_self, Nat.add_sub_cancel_left, writeRows_skip_all, overwrite, if_neg]
      omega
    · rw [coalesce_of_ne (Ne.symm hs), Nat.sub_self, ih _ hrest, overwrite_one, Function.update_of_ne hne]
      intro j hj hget
      have hno := hrun (j + 1) (Nat.succ_lt_succ hj) (by rw [List.getElem?_cons_succ, hget, Nat.add_assoc,
        Nat.add_comm 1])
      rw [List.length_cons] at hno
      omega

/-- A slot that a run takes in gets the row of its own number. -/
theorem writeRows_of_run {R : Type} (src : ℕ → R) {slots : List ℕ} {i j s : ℕ} (f : ℕ → R)
    (hget : slots[j]? = some (i + j)) (hlo : i + j ≤ s) (hhi : s < i + slots.length) :
    writeRows src i 0 slots f s = src s := by
  induction slots generalizing i j f with
  | nil => cases hget
  | cons start rest ih =>
    rw [List.length_cons] at hhi
    rw [writeRows]
    by_cases hs : start = i
    · subst hs
      rw [coalesce_self, Nat.add_sub_cancel_left, writeRows_skip_all, overwrite,
        if_pos ⟨by omega, by omega⟩, Nat.add_sub_cancel' (by omega)]
    · rw [coalesce_of_ne (Ne.symm hs), Nat.sub_self]
      cases j with
      | zero =>
        cases hget
        exact absurd rfl hs
      | succ j =>
        rw [List.getElem?_cons_succ] at hget
        exact ih (j := j) _ (by rw [hget, Nat.add_assoc, Nat.add_comm 1]) (by omega) (by omega)

section Writes

variable {T : Type} [Candle T] [LawfulCandle T]

/-- A pool tensor of the given shape. -/
structure PoolTensor (kvHeads numSlots headDim : ℕ) (dt : DType) (t : T) : Prop where
  dims : dims t = [kvHeads, numSlots, headDim]
  dtype : dtype t = dt
  contiguous : isContiguous t = true

/-- A run that fits is written, row by row. -/
theorem writeRun_rows {kvHeads numSlots headDim m i n start : ℕ} {dt : DType} {src pool : T}
    (hp : PoolTensor kvHeads numSlots headDim dt pool) (hd : dims src = [kvHeads, m, headDim])
    (hdt : Candle.dtype src = dt) (hi : i + n ≤ m) (hn : start + n ≤ numSlots) :
    ∃ pool', PagedKvPool.writeRun src i n pool start = .ok pool' ∧
      PoolTensor kvHeads numSlots headDim dt pool' ∧
      ∀ s, s < numSlots → row kvHeads headDim pool' s =
        overwrite (row kvHeads headDim pool) start n
          (fun j => row kvHeads headDim src (i + j)) s := by
  obtain ⟨part, hpart, hpd, hpdt, hpc, hprow⟩ := narrow_contiguous hd hi
  obtain ⟨pool', hset, hd', hdt', hc', hrow⟩ :=
    row_sliceSet hp.dims hp.contiguous hpd (by rw [hpdt, hdt, hp.dtype]) hpc hn
  refine ⟨pool', ?_, ⟨hd', by rw [hdt', hp.dtype], hc'⟩, fun s hs => ?_⟩
  · unfold PagedKvPool.writeRun
    rw [hpart]
    exact hset
  · rw [hrow s hs]
    unfold overwrite
    by_cases hin : start ≤ s ∧ s < start + n
    · rw [if_pos hin, if_pos hin, hprow _ (by omega)]
    · rw [if_neg hin, if_neg hin]

theorem writeRows_congr {R : Type} (src : ℕ → R) (slots : List ℕ) (i skip : ℕ) {f g : ℕ → R}
    {s : ℕ} (h : f s = g s) : writeRows src i skip slots f s = writeRows src i skip slots g s := by
  induction slots generalizing i skip f g with
  | nil => exact h
  | cons a rest ih =>
    cases skip with
    | succ skip => exact ih (i + 1) skip h
    | zero =>
      refine ih (i + 1) _ ?_
      unfold overwrite
      split
      · rfl
      · exact h

/-- The runs of a list of in-range slots stay in range: a run longer than one slot ends where
    the list does. -/
theorem coalesce_bounds {i start m numSlots : ℕ} {rest : List ℕ} (hs : start < numSlots)
    (hlen : i + (rest.length + 1) = m) (hm : m ≤ numSlots) :
    i + coalesce i start rest 1 ≤ m ∧ start + coalesce i start rest 1 ≤ numSlots ∧
      coalesce i start rest 1 - 1 ≤ rest.length := by
  by_cases h : i = start
  · subst h
    rw [coalesce_self]
    omega
  · rw [coalesce_of_ne h]
    omega

/-- **The loop of a write succeeds on in-range slots**, and does to the rows of both pools what
    `writeRows` says. -/
theorem writeRuns_rows {kvHeads numSlots headDim m : ℕ} {dt : DType} {kt vt : T}
    (hk : dims kt = [kvHeads, m, headDim]) (hkdt : Candle.dtype kt = dt)
    (hv : dims vt = [kvHeads, m, headDim]) (hvdt : Candle.dtype vt = dt) (hm : m ≤ numSlots)
    {slots : List ℕ} {i skip : ℕ} {kPool vPool : T}
    (hkp : PoolTensor kvHeads numSlots headDim dt kPool)
    (hvp : PoolTensor kvHeads numSlots headDim dt vPool)
    (hlen : i + slots.length = m) (hskip : skip ≤ slots.length)
    (hin : ∀ s ∈ slots, s < numSlots) :
    ∃ kPool' vPool', PagedKvPool.writeRuns kt vt i skip slots kPool vPool =
        (.ok (), kPool', vPool') ∧
      PoolTensor kvHeads numSlots headDim dt kPool' ∧
      PoolTensor kvHeads numSlots headDim dt vPool' ∧
      ∀ s, s < numSlots →
        row kvHeads headDim kPool' s =
          writeRows (row kvHeads headDim kt) i skip slots (row kvHeads headDim kPool) s ∧
        row kvHeads headDim vPool' s =
          writeRows (row kvHeads headDim vt) i skip slots (row kvHeads headDim vPool) s := by
  induction slots generalizing i skip kPool vPool with
  | nil => exact ⟨kPool, vPool, rfl, hkp, hvp, fun _ _ => ⟨rfl, rfl⟩⟩
  | cons start rest ih =>
    obtain ⟨hs, hrest⟩ := List.forall_mem_cons.mp hin
    rw [List.length_cons] at hlen hskip
    have hlen' : i + 1 + rest.length = m := by omega
    cases skip with
    | succ skip => exact ih hkp hvp hlen' (by omega) hrest
    | zero =>
      obtain ⟨h1, h2, h3⟩ := coalesce_bounds hs hlen hm
      obtain ⟨kPool₁, hkw, hkp₁, hkr⟩ := writeRun_rows hkp hk hkdt h1 h2
      obtain ⟨vPool₁, hvw, hvp₁, hvr⟩ := writeRun_rows hvp hv hvdt h1 h2
      obtain ⟨kPool', vPool', hrun, hkp', hvp', hrows⟩ := ih hkp₁ hvp₁ hlen' h3 hrest
      refine ⟨kPool', vPool', ?_, hkp', hvp', fun s hs' => ?_⟩
      · simp only [PagedKvPool.writeRuns, hkw, hvw, hrun]
      · obtain ⟨hks, hvs⟩ := hrows s hs'
        exact ⟨hks.trans (writeRows_congr _ _ _ _ (hkr s hs')),
          hvs.trans (writeRows_congr _ _ _ _ (hvr s hs'))⟩

/-! ## 5. The pool as rows -/

/-- A pool of the given number of layers and slots, all of whose tensors have its shape. -/
structure PagedKvPool.Shaped (p : PagedKvPool T) (numLayers numSlots : ℕ) (dt : DType) : Prop where
  kLen : p.kPools.length = numLayers
  vLen : p.vPools.length = numLayers
  k : ∀ t ∈ p.kPools, PoolTensor p.kvHeads numSlots p.headDim dt t
  v : ∀ t ∈ p.vPools, PoolTensor p.kvHeads numSlots p.headDim dt t

namespace PagedKvPool

/-- The K and the V row of a slot in a layer. -/
def kv (p : PagedKvPool T) (layer s : ℕ) : Row × Row :=
  (((p.kPools[layer]?).map fun t => row p.kvHeads p.headDim t s).getD [],
   ((p.vPools[layer]?).map fun t => row p.kvHeads p.headDim t s).getD [])

/-- The K and V tensors of `m` positions, as the layers hand them to a write. -/
structure Batch (p : PagedKvPool T) (dt : DType) (m : ℕ) (k v : T) : Prop where
  kDims : dims k = [1, p.kvHeads, m, p.headDim]
  vDims : dims v = [1, p.kvHeads, m, p.headDim]
  kDtype : Candle.dtype k = dt
  vDtype : Candle.dtype v = dt

/-- The K and the V row of position `j` of a batch. -/
def batchKv (p : PagedKvPool T) (k v : T) (j : ℕ) : Row × Row :=
  (batchRow p.kvHeads p.headDim k j, batchRow p.kvHeads p.headDim v j)

theorem zerosFor_shaped {kvHeads numSlots headDim : ℕ} {dt : DType} :
    ∀ {n : ℕ} {ks vs : List T}, zerosFor [kvHeads, numSlots, headDim] dt n = .ok (ks, vs) →
      ks.length = n ∧ vs.length = n ∧
      (∀ t ∈ ks, PoolTensor kvHeads numSlots headDim dt t) ∧
      ∀ t ∈ vs, PoolTensor kvHeads numSlots headDim dt t := by
  intro n
  induction n with
  | zero =>
    intro ks vs h
    cases h
    exact ⟨rfl, rfl, fun _ ht => absurd ht List.not_mem_nil, fun _ ht => absurd ht List.not_mem_nil⟩
  | succ n ih =>
    intro ks vs h
    simp only [zerosFor, bind_eq_ok] at h
    obtain ⟨k, hk, v, hv, ⟨ks', vs'⟩, hrest, hks⟩ := h
    cases hks
    obtain ⟨h1, h2, h3, h4⟩ := ih hrest
    have hkt := LawfulCandle.zeros_result hk
    have hvt := LawfulCandle.zeros_result hv
    refine ⟨by rw [List.length_cons, h1], by rw [List.length_cons, h2], ?_, ?_⟩
    · exact List.forall_mem_cons.mpr ⟨⟨hkt.1, hkt.2.1, hkt.2.2⟩, h3⟩
    · exact List.forall_mem_cons.mpr ⟨⟨hvt.1, hvt.2.1, hvt.2.2⟩, h4⟩

theorem shaped_new {numLayers numSlots kvHeads headDim : ℕ} {dt : DType} {p : PagedKvPool T}
    (h : new numLayers numSlots kvHeads headDim dt = .ok p) :
    p.Shaped numLayers numSlots dt ∧ p.kvHeads = kvHeads ∧ p.headDim = headDim := by
  simp only [new, bind_eq_ok] at h
  obtain ⟨⟨ks, vs⟩, hz, hp⟩ := h
  cases hp
  obtain ⟨h1, h2, h3, h4⟩ := zerosFor_shaped hz
  exact ⟨⟨h1, h2, h3, h4⟩, rfl, rfl⟩

section Shaped

variable {p : PagedKvPool T} {numLayers numSlots : ℕ} {dt : DType}

omit [LawfulCandle T] in
theorem Shaped.getElem (h : p.Shaped numLayers numSlots dt) {layer : ℕ} (hl : layer < numLayers) :
    ∃ kPool vPool, p.kPools[layer]? = some kPool ∧ p.vPools[layer]? = some vPool ∧
      PoolTensor p.kvHeads numSlots p.headDim dt kPool ∧
      PoolTensor p.kvHeads numSlots p.headDim dt vPool := by
  obtain ⟨kPool, vPool, hk, hv⟩ := getElem_layer (h.vLen.trans h.kLen.symm) (h.kLen ▸ hl)
  exact ⟨kPool, vPool, hk, hv, h.k _ (List.mem_of_getElem? hk), h.v _ (List.mem_of_getElem? hv)⟩

omit [LawfulCandle T] in
/-- Replacing the tensors of one layer by tensors of the pool's shape keeps its shape. -/
theorem Shaped.set (h : p.Shaped numLayers numSlots dt) (layer : ℕ) {kPool vPool : T}
    (hk : PoolTensor p.kvHeads numSlots p.headDim dt kPool)
    (hv : PoolTensor p.kvHeads numSlots p.headDim dt vPool) :
    ({ p with kPools := p.kPools.set layer kPool, vPools := p.vPools.set layer vPool } :
      PagedKvPool T).Shaped numLayers numSlots dt := by
  refine ⟨by simpa using h.kLen, by simpa using h.vLen, fun t ht => ?_, fun t ht => ?_⟩
  · rcases List.mem_or_eq_of_mem_set ht with ht | rfl
    · exact h.k t ht
    · exact hk
  · rcases List.mem_or_eq_of_mem_set ht with ht | rfl
    · exact h.v t ht
    · exact hv

/-- **A write to in-range slots succeeds**, and the rows of its layer become what `writeRows`
    says; the other layers keep theirs. -/
theorem Shaped.write (h : p.Shaped numLayers numSlots dt) {layer : ℕ} (hl : layer < numLayers)
    {slots : List ℕ} {k v : T} (hb : p.Batch dt slots.length k v)
    (hm : slots.length ≤ numSlots) (hin : ∀ s ∈ slots, s < numSlots) :
    ∃ p', p.write layer slots k v = some (.ok (), p') ∧ p'.Shaped numLayers numSlots dt ∧
      p'.kvHeads = p.kvHeads ∧ p'.headDim = p.headDim ∧
      ∀ l s, s < numSlots → p'.kv l s =
        if l = layer then writeRows (p.batchKv k v) 0 0 slots (p.kv layer) s else p.kv l s := by
  obtain ⟨kPool, vPool, hk, hv, hkp, hvp⟩ := h.getElem hl
  obtain ⟨kt, hkt, hkd, hkdt, hkr⟩ := squeeze_rows hb.kDims
  obtain ⟨vt, hvt, hvd, hvdt, hvr⟩ := squeeze_rows hb.vDims
  obtain ⟨kPool', vPool', hrun, hkp', hvp', hrows⟩ :=
    writeRuns_rows hkd (hkdt.trans hb.kDtype) hvd (hvdt.trans hb.vDtype) hm hkp hvp
      (Nat.zero_add _) (Nat.zero_le _) hin
  refine ⟨_, ?_, h.set layer hkp' hvp', rfl, rfl, fun l s hs => ?_⟩
  · unfold PagedKvPool.write
    rw [hkt, hvt, hk, hv]
    simp only [hrun]
  · by_cases hll : l = layer
    · subst hll
      have hkl : l < p.kPools.length := h.kLen ▸ hl
      have hvl : l < p.vPools.length := h.vLen ▸ hl
      have hkv : p.kv l = fun s =>
          (row p.kvHeads p.headDim kPool s, row p.kvHeads p.headDim vPool s) := by
        funext x
        simp [kv, hk, hv]
      have hsrc : p.batchKv k v = fun j =>
          (row p.kvHeads p.headDim kt j, row p.kvHeads p.headDim vt j) := by
        funext j
        rw [hkr, hvr]
        rfl
      rw [if_pos rfl, hkv, hsrc, writeRows_prod]
      simp [kv, hkl, hvl, hrows s hs]
    · rw [if_neg hll]
      simp [kv, List.getElem?_set_ne (Ne.symm hll)]

/-- A write into a pool tensor keeps its shape, whatever is written. -/
theorem poolTensor_sliceSet {kvHeads headDim off : ℕ} {t src t' : T}
    (h : PoolTensor kvHeads numSlots headDim dt t) (ht : sliceSet t src 1 off = .ok t') :
    PoolTensor kvHeads numSlots headDim dt t' := by
  obtain ⟨n, hs, _⟩ := (LawfulCandle.sliceSet_ok_iff h.dims h.contiguous).mp ⟨t', ht⟩
  obtain ⟨h1, h2, h3, _⟩ := LawfulCandle.sliceSet_result h.dims hs ht
  exact ⟨by rw [h1, h.dims], by rw [h2, h.dtype], by rw [h3, h.contiguous]⟩

/-- **Importing a block keeps the shape of the pool**, whatever the tensors are and wherever it
    fails. -/
theorem Shaped.writeBlock (h : p.Shaped numLayers numSlots dt) {layer id : ℕ} {k v : T}
    {reply : Except String Unit} {p' : PagedKvPool T}
    (hw : p.writeBlock layer id k v = some (reply, p')) :
    p'.Shaped numLayers numSlots dt ∧ p'.kvHeads = p.kvHeads ∧ p'.headDim = p.headDim := by
  unfold PagedKvPool.writeBlock at hw
  split at hw
  · cases hw
    exact ⟨h, rfl, rfl⟩
  rename_i kt vt blockSize hcheck
  split at hw
  rotate_left
  · cases hw
  rename_i kPool vPool hk hv
  have hkp := h.k _ (List.mem_of_getElem? hk)
  have hvp := h.v _ (List.mem_of_getElem? hv)
  split at hw
  · cases hw
    exact ⟨h, rfl, rfl⟩
  rename_i kPool' hkw
  obtain ⟨ksrc, _, hkw⟩ := bind_eq_ok.mp hkw
  have hkp' := poolTensor_sliceSet hkp hkw
  dsimp only at hw
  have hvl : p.vPools.set layer vPool = p.vPools := by
    obtain ⟨_, rfl⟩ := List.getElem?_eq_some_iff.mp hv
    exact List.set_getElem_self _
  split at hw
  · cases hw
    refine ⟨?_, rfl, rfl⟩
    have hset := h.set layer hkp' hvp
    rwa [hvl] at hset
  · rename_i vPool' hvw
    obtain ⟨vsrc, _, hvw⟩ := bind_eq_ok.mp hvw
    cases hw
    exact ⟨h.set layer hkp' (poolTensor_sliceSet hvp hvw), rfl, rfl⟩

/-- So does writing rows, wherever they lead. -/
theorem writeRuns_shaped {kvHeads headDim : ℕ} (kt vt : T) (slots : List ℕ) (i skip : ℕ)
    {kPool vPool : T} (hk : PoolTensor kvHeads numSlots headDim dt kPool)
    (hv : PoolTensor kvHeads numSlots headDim dt vPool) :
    PoolTensor kvHeads numSlots headDim dt (writeRuns kt vt i skip slots kPool vPool).2.1 ∧
      PoolTensor kvHeads numSlots headDim dt (writeRuns kt vt i skip slots kPool vPool).2.2 := by
  induction slots generalizing i skip kPool vPool with
  | nil => exact ⟨hk, hv⟩
  | cons start rest ih =>
    cases skip with
    | succ skip => exact ih (i + 1) skip hk hv
    | zero =>
      rw [writeRuns]
      cases hkw : writeRun kt i (coalesce i start rest 1) kPool start with
      | error e => exact ⟨hk, hv⟩
      | ok kPool' =>
        obtain ⟨_, _, hkset⟩ := bind_eq_ok.mp hkw
        have hk' := poolTensor_sliceSet hk hkset
        cases hvw : writeRun vt i (coalesce i start rest 1) vPool start with
        | error e => exact ⟨hk', hv⟩
        | ok vPool' =>
          obtain ⟨_, _, hvset⟩ := bind_eq_ok.mp hvw
          exact ih (i + 1) _ hk' (poolTensor_sliceSet hv hvset)

theorem Shaped.write_any (h : p.Shaped numLayers numSlots dt) {layer : ℕ} {slots : List ℕ} {k v : T}
    {reply : Except String Unit} {p' : PagedKvPool T}
    (hw : p.write layer slots k v = some (reply, p')) :
    p'.Shaped numLayers numSlots dt ∧ p'.kvHeads = p.kvHeads ∧ p'.headDim = p.headDim := by
  unfold PagedKvPool.write at hw
  split at hw
  · cases hw
    exact ⟨h, rfl, rfl⟩
  · cases hw
    exact ⟨h, rfl, rfl⟩
  · rename_i kt vt _ _
    split at hw
    · rename_i kPool vPool hk hv
      cases hw
      have hpools := writeRuns_shaped kt vt slots 0 0
        (h.k _ (List.mem_of_getElem? hk)) (h.v _ (List.mem_of_getElem? hv))
      exact ⟨h.set layer hpools.1 hpools.2, rfl, rfl⟩
    · cases hw

/-- The K and the V row of position `j` of the tensors of one block. -/
def blockKv (p : PagedKvPool T) (k v : T) (j : ℕ) : Row × Row :=
  (row p.kvHeads p.headDim k j, row p.kvHeads p.headDim v j)

/-- **A block of the pool's own shape** is imported, and replaces the rows of its slots. -/
theorem Shaped.writeBlock_rows (h : p.Shaped numLayers numSlots dt) {layer id blockSize : ℕ}
    {k v : T} (hl : layer < numLayers) (hk : dims k = [p.kvHeads, blockSize, p.headDim])
    (hv : dims v = [p.kvHeads, blockSize, p.headDim]) (hkdt : Candle.dtype k = dt)
    (hvdt : Candle.dtype v = dt) (hid : id * blockSize + blockSize ≤ numSlots) :
    ∃ p', p.writeBlock layer id k v = some (.ok (), p') ∧ ∀ l s, s < numSlots → p'.kv l s =
      if l = layer ∧ id * blockSize ≤ s ∧ s < id * blockSize + blockSize then
        p.blockKv k v (s - id * blockSize)
      else p.kv l s := by
  obtain ⟨kPool, vPool, hkp, hvp, hkt, hvt⟩ := h.getElem hl
  have hcheck : p.checkBlock k v = .ok (k, v, blockSize) := by
    unfold checkBlock
    refine bind_eq_ok.mpr ⟨k, by simp [normalizeBlock, hk], ?_⟩
    refine bind_eq_ok.mpr ⟨v, by simp [normalizeBlock, hv], ?_⟩
    refine bind_eq_ok.mpr ⟨(p.kvHeads, blockSize, p.headDim), by simp [dims3, hk], ?_⟩
    refine bind_eq_ok.mpr ⟨(p.kvHeads, blockSize, p.headDim), by simp [dims3, hv], ?_⟩
    simp
  obtain ⟨kc, hkc, hkd, hkcd, hkcc, hkce⟩ := LawfulCandle.contiguous_copy k
  obtain ⟨vc, hvc, hvd, hvcd, hvcc, hvce⟩ := LawfulCandle.contiguous_copy v
  obtain ⟨kPool', hkw, -, -, -, hkrow⟩ := row_sliceSet hkt.dims hkt.contiguous (hkd.trans hk)
    (by rw [hkcd, hkdt, hkt.dtype]) hkcc hid
  obtain ⟨vPool', hvw, -, -, -, hvrow⟩ := row_sliceSet hvt.dims hvt.contiguous (hvd.trans hv)
    (by rw [hvcd, hvdt, hvt.dtype]) hvcc hid
  have hkw : (contiguous k >>= fun src => sliceSet kPool src 1 (id * blockSize)) = .ok kPool' :=
    bind_eq_ok.mpr ⟨kc, hkc, hkw⟩
  have hvw : (contiguous v >>= fun src => sliceSet vPool src 1 (id * blockSize)) = .ok vPool' :=
    bind_eq_ok.mpr ⟨vc, hvc, hvw⟩
  refine ⟨{ p with kPools := p.kPools.set layer kPool', vPools := p.vPools.set layer vPool' }, ?_,
    fun l s hs => ?_⟩
  · unfold PagedKvPool.writeBlock
    simp only [hcheck, hkp, hvp, hkw, hvw]
  by_cases hll : l = layer
  · subst hll
    have hkl : l < p.kPools.length := h.kLen ▸ hl
    have hvl : l < p.vPools.length := h.vLen ▸ hl
    have hkv : p.kv l s = (row p.kvHeads p.headDim kPool s, row p.kvHeads p.headDim vPool s) := by
      simp [kv, hkp, hvp]
    have hset : PagedKvPool.kv { p with
        kPools := p.kPools.set l kPool', vPools := p.vPools.set l vPool' } l s =
          (row p.kvHeads p.headDim kPool' s, row p.kvHeads p.headDim vPool' s) := by
      simp [kv, hkl, hvl]
    rw [hset, hkrow s hs, hvrow s hs, hkv]
    by_cases hin : id * blockSize ≤ s ∧ s < id * blockSize + blockSize
    · rw [if_pos hin, if_pos hin, if_pos ⟨rfl, hin⟩, blockKv]
      exact Prod.ext (row_congr fun _ _ _ _ => hkce _) (row_congr fun _ _ _ _ => hvce _)
    · rw [if_neg hin, if_neg hin, if_neg fun hand => hin hand.2]
  · rw [if_neg fun hand => hll hand.1]
    simp [kv, List.getElem?_set_ne (Ne.symm hll)]

/-- The K/V rows of a view. -/
def viewKv (view : T × T) : List (Row × Row) := (rows view.1).zip (rows view.2)

/-- **A view of in-range slots** succeeds, has the shape of a batch and their rows. -/
theorem Shaped.blockView (h : p.Shaped numLayers numSlots dt) {layer start n : ℕ}
    (hl : layer < numLayers) (hn : start + n ≤ numSlots) :
    ∃ view, p.blockView layer start n = some (.ok view) ∧ p.Batch dt n view.1 view.2 ∧
      viewKv view = (List.range n).map fun j => p.kv layer (start + j) := by
  obtain ⟨kPool, vPool, hk, hv, hkp, hvp⟩ := h.getElem hl
  obtain ⟨k, hkv, hkd, hkdt, hkr⟩ := rows_view hkp.dims hn
  obtain ⟨v, hvv, hvd, hvdt, hvr⟩ := rows_view hvp.dims hn
  refine ⟨(k, v), ?_, ⟨hkd, hvd, hkdt.trans hkp.dtype, hvdt.trans hvp.dtype⟩, ?_⟩
  · unfold PagedKvPool.blockView
    simp only [hk, hv, Option.some.injEq, bind_eq_ok]
    exact ⟨k, bind_eq_ok.mp hkv, v, bind_eq_ok.mp hvv, rfl⟩
  · unfold viewKv
    rw [hkr, hvr, List.zip_map']
    exact List.map_congr_left fun j _ => by simp [kv, hk, hv]

end Shaped

end PagedKvPool

end Writes

end Flour.Kv
