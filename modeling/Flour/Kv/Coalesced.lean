/-
  File:      Flour/Kv/Coalesced.lean
  Subject:   For which lists of slots `PagedKvPool::write` writes every row to its slot.

  * `Scatters` -- what a write is for: row `i` at slot `i` of the list, and everything else as it
    was;
  * `writeRows_misplaced` -- on a list that is not safe, some listed slot keeps its old row or gets
    the row of another position. By induction on the list, the first run that takes in slots that
    do not follow is the last one the loop writes;
  * **`write_scatters_iff`** -- so a write scatters whatever is written iff the list is safe, or a
    row has no elements;
  * `write_misplaces` -- two slots, of which the second is not written.
-/
import Flour.Kv.Paged
import Mathlib.Data.Finset.Card
import Mathlib.Tactic.Ring

namespace Flour.Kv

open Candle Flour.Lib

/-! ## 1. Lists that are not safe -/

theorem runsSafe_range' (i n : ℕ) : RunsSafe i (List.range' i n) := by
  induction n generalizing i with
  | zero => trivial
  | succ n ih => exact ⟨fun _ => by rw [List.length_range'], ih (i + 1)⟩

/-- A slot of a list that a run from its own index would not reach. -/
theorem exists_ne_range' {i : ℕ} {slots : List ℕ} (h : slots ≠ List.range' i slots.length) :
    ∃ j s, slots[j]? = some s ∧ s ≠ i + j := by
  by_contra hall
  refine h (List.ext_getElem? fun j => ?_)
  by_cases hj : j < slots.length
  · rw [List.getElem?_range' hj, Nat.one_mul, List.getElem?_eq_getElem hj]
    by_contra hne
    exact hall ⟨j, slots[j], List.getElem?_eq_getElem hj, fun he => hne (congrArg some he)⟩
  · rw [List.getElem?_eq_none (by omega), List.getElem?_eq_none]
    rw [List.length_range']
    omega

/-- **A misplaced row**: on a list that is not safe, a listed slot keeps what it had or gets the row
    of another position, whatever is written. -/
theorem writeRows_misplaced {R : Type} {slots : List ℕ} (hnd : slots.Nodup) {i : ℕ}
    (h : ¬ RunsSafe i slots) :
    ∃ j s, slots[j]? = some s ∧ ((∀ (src : ℕ → R) f, writeRows src i 0 slots f s = f s) ∨
      ∃ j', j' ≠ i + j ∧ j' < i + slots.length ∧
        ∀ (src : ℕ → R) f, writeRows src i 0 slots f s = src j') := by
  induction slots generalizing i with
  | nil => exact absurd trivial h
  | cons start rest ih =>
    obtain ⟨hstart, hnd⟩ := List.nodup_cons.mp hnd
    by_cases hs : start = i
    · -- the run takes in the whole rest
      have hne : rest ≠ List.range' (i + 1) rest.length := by
        intro hr
        refine h ⟨fun _ => hr, ?_⟩
        rw [hr]
        exact runsSafe_range' _ _
      obtain ⟨j, s, hj, hsj⟩ := exists_ne_range' hne
      have hrun : ∀ (src : ℕ → R) f, writeRows src i 0 (start :: rest) f =
          overwrite f i (1 + rest.length) fun j => src (i + j) := by
        intro src f
        rw [writeRows, hs, coalesce_self, Nat.add_sub_cancel_left, writeRows_skip_all]
      refine ⟨j + 1, s, hj, ?_⟩
      by_cases hin : i ≤ s ∧ s < i + (1 + rest.length)
      · refine Or.inr ⟨s, by omega, by rw [List.length_cons]; omega, fun src f => ?_⟩
        rw [hrun, overwrite, if_pos hin, Nat.add_sub_of_le hin.1]
      · refine Or.inl fun src f => ?_
        rw [hrun, overwrite, if_neg hin]
    · -- one slot is written, and it is not the one the rest misplaces
      have hrest : ¬ RunsSafe (i + 1) rest := fun hr => h ⟨fun he => absurd he hs, hr⟩
      obtain ⟨j, s, hj, hbad⟩ := ih hnd hrest
      have hsne : s ≠ start := fun he => hstart (he ▸ List.mem_of_getElem? hj)
      have hrun : ∀ (src : ℕ → R) f, writeRows src i 0 (start :: rest) f =
          writeRows src (i + 1) 0 rest (Function.update f start (src i)) := by
        intro src f
        rw [writeRows, coalesce_of_ne (Ne.symm hs), Nat.sub_self, overwrite_one]
        rfl
      refine ⟨j + 1, s, hj, hbad.imp (fun hkeep src f => ?_) fun hmoved => ?_⟩
      · rw [hrun, hkeep, Function.update_of_ne hsne]
      · obtain ⟨j', hne, hlt, hother⟩ := hmoved
        refine ⟨j', by omega, by rw [List.length_cons]; omega, fun src f => ?_⟩
        rw [hrun, hother]

/-! ## 2. What a write is for -/

namespace PagedKvPool

section Scatter

variable {T : Type} [Candle T]

/-- The rows of `k` and `v` are written to their slots, one row to each as if one by one, and
    nothing else changes. -/
structure ScattersTo (p : PagedKvPool T) (numSlots layer : ℕ) (slots : List ℕ) (k v : T)
    (p' : PagedKvPool T) : Prop where
  listed : ∀ i s, slots[i]? = some s → p'.kv layer s = p.batchKv k v i
  unlisted : ∀ s, s < numSlots → s ∉ slots → p'.kv layer s = p.kv layer s
  others : ∀ l s, l ≠ layer → s < numSlots → p'.kv l s = p.kv l s
  oneByOne : ∀ s, s < numSlots → p'.kv layer s = scatter (p.batchKv k v) 0 slots (p.kv layer) s

def Scatters (p : PagedKvPool T) (numSlots layer : ℕ) (slots : List ℕ) (k v : T) : Prop :=
  ∃ p', p.write layer slots k v = some (.ok (), p') ∧ p.ScattersTo numSlots layer slots k v p'

variable [LawfulCandle T] {p : PagedKvPool T} {numLayers numSlots : ℕ} {dt : DType} {layer : ℕ}
  {slots : List ℕ}

theorem length_le_of_slots (hnd : slots.Nodup) (hin : ∀ s ∈ slots, s < numSlots) :
    slots.length ≤ numSlots := by
  have hcard := Finset.card_le_card (s := slots.toFinset) (t := Finset.range numSlots) fun s hs =>
    Finset.mem_range.mpr (hin s (List.mem_toFinset.mp hs))
  rwa [List.toFinset_card_of_nodup hnd, Finset.card_range] at hcard

/-- Where the rows after a write are those of a scatter, the write is one. -/
theorem scatters_of_rows (h : p.Shaped numLayers numSlots dt) (hl : layer < numLayers)
    (hnd : slots.Nodup) (hin : ∀ s ∈ slots, s < numSlots) {k v : T}
    (hb : p.Batch dt slots.length k v)
    (hrows : ∀ s, s < numSlots → writeRows (p.batchKv k v) 0 0 slots (p.kv layer) s =
      scatter (p.batchKv k v) 0 slots (p.kv layer) s) : p.Scatters numSlots layer slots k v := by
  obtain ⟨p', hw, _, _, _, hkv⟩ := h.write hl hb (length_le_of_slots hnd hin) hin
  have hlayer : ∀ s, s < numSlots →
      p'.kv layer s = scatter (p.batchKv k v) 0 slots (p.kv layer) s := by
    intro s hs
    rw [hkv layer s hs, if_pos rfl, hrows s hs]
  refine ⟨p', hw, fun i s hi => ?_, fun s hs hnot => ?_, fun l s hne hs => ?_, hlayer⟩
  · rw [hlayer s (hin s (List.mem_of_getElem? hi)), scatter_getElem _ hnd hi, Nat.zero_add]
  · rw [hlayer s hs, scatter_of_notMem _ hnot]
  · rw [hkv l s hs, if_neg hne]

/-! ## 3. Rows without elements -/

omit [LawfulCandle T] in
theorem row_of_empty {kvHeads headDim : ℕ} (h : kvHeads = 0 ∨ headDim = 0) (t : T) (j : ℕ) :
    row kvHeads headDim t j = List.replicate kvHeads [] ∧
      batchRow kvHeads headDim t j = List.replicate kvHeads [] := by
  unfold row batchRow
  rcases h with rfl | rfl
  · exact ⟨rfl, rfl⟩
  · simp

/-- Where all rows are the same, no write changes them. -/
theorem writeRows_const {R : Type} (r : R) (slots : List ℕ) (i skip : ℕ) :
    writeRows (fun _ => r) i skip slots (fun _ => r) = fun _ => r := by
  induction slots generalizing i skip with
  | nil => rfl
  | cons start rest ih =>
    cases skip with
    | succ skip => exact ih (i + 1) skip
    | zero =>
      have hover : ∀ n, overwrite (fun _ => r) start n (fun _ => r) = fun _ => r := by
        intro n
        funext s
        exact ite_self r
      rw [writeRows, hover, ih]

theorem scatter_const {R : Type} (r : R) (slots : List ℕ) (i : ℕ) :
    scatter (fun _ => r) i slots (fun _ => r) = fun _ => r := by
  induction slots generalizing i with
  | nil => rfl
  | cons start rest ih =>
    have hupdate : Function.update (fun _ : ℕ => r) start r = fun _ => r :=
      Function.update_eq_self start fun _ => r
    rw [scatter, hupdate, ih]

/-! ## 4. Exactly when a write is a scatter -/

/-- The first element of a row. -/
def corner (r : Row) : Option ℕ := r[0]?.bind (·[0]?)

omit [LawfulCandle T] in
theorem corner_row {kvHeads headDim : ℕ} (hh : 0 < kvHeads) (hd : 0 < headDim) (t : T) (j : ℕ) :
    corner (row kvHeads headDim t j) = some (elem t [0, j, 0]) ∧
      corner (batchRow kvHeads headDim t j) = some (elem t [0, 0, j, 0]) := by
  simp [corner, row, batchRow, List.getElem?_range hh, List.getElem?_range hd]

/-- A batch of rows of which one differs from all others. -/
theorem exists_marked (dt : DType) {kvHeads m headDim j : ℕ} (x y : ℕ) (hh : 0 < kvHeads)
    (hd : 0 < headDim) : ∃ k : T, dims k = [1, kvHeads, m, headDim] ∧ Candle.dtype k = dt ∧
      ∀ j', j' < m → elem k [0, 0, j', 0] = if j' = j then y else x := by
  have hlen : ((List.range (kvHeads * m * headDim)).map fun n =>
      if n / headDim % m = j then y else x).length = kvHeads * m * headDim := by
    rw [List.length_map, List.length_range]
  obtain ⟨t, _, htd, htt, helem⟩ := @LawfulCandle.fromVec_result T _ _ _ kvHeads m headDim dt hlen
  obtain ⟨k, _, hkd, hkt, hke⟩ := LawfulCandle.unsqueeze_zero t
  refine ⟨k, by rw [hkd, htd], hkt.trans htt, fun j' hj' => ?_⟩
  have hpos : (0 * m + j') * headDim + 0 < kvHeads * m * headDim := by
    rw [Nat.zero_mul, Nat.zero_add, Nat.add_zero]
    exact Nat.mul_lt_mul_of_pos_right (lt_of_lt_of_le hj' (Nat.le_mul_of_pos_left m hh)) hd
  have hentry := helem 0 j' 0 hh hj' hd
  rw [List.getElem?_map, List.getElem?_range hpos, Option.map_some, Option.some_inj, Nat.zero_mul,
    Nat.zero_add, Nat.add_zero, Nat.mul_div_cancel _ hd, Nat.mod_eq_of_lt hj'] at hentry
  rw [hke, ← hentry]

/-- On a list that is not safe, some write is no scatter: a row that differs from all others of its
    batch and from the old one is missing at its slot. -/
theorem exists_not_scatters (h : p.Shaped numLayers numSlots dt) (hl : layer < numLayers)
    (hnd : slots.Nodup) (hin : ∀ s ∈ slots, s < numSlots) (hh : 0 < p.kvHeads) (hd : 0 < p.headDim)
    (hsafe : ¬ RunsSafe 0 slots) :
    ∃ k v, p.Batch dt slots.length k v ∧ ¬ p.Scatters numSlots layer slots k v := by
  obtain ⟨j, s, hj, hbad⟩ := writeRows_misplaced (R := Row × Row) hnd hsafe
  have hs : s < numSlots := hin s (List.mem_of_getElem? hj)
  have hjm : j < slots.length := (List.getElem?_eq_some_iff.mp hj).1
  obtain ⟨kPool, vPool, hk, _, _, _⟩ := h.getElem hl
  have hold : corner (p.kv layer s).1 = some (elem kPool [0, s, 0]) := by
    rw [kv, hk, Option.map_some, Option.getD_some, (corner_row hh hd kPool s).1]
  obtain ⟨x, y, hy, hxy⟩ : ∃ x y : ℕ, y ≠ elem kPool [0, s, 0] ∧ x ≠ y := by
    by_cases he : elem kPool [0, s, 0] = 0
    · exact ⟨0, 1, by omega, by omega⟩
    · exact ⟨1, 0, by omega, by omega⟩
  obtain ⟨k, hkd, hkt, hke⟩ := exists_marked (T := T) dt (m := slots.length) (j := j) x y hh hd
  have hb : p.Batch dt slots.length k k := ⟨hkd, hkd, hkt, hkt⟩
  have hcorner : ∀ j', j' < slots.length →
      corner (p.batchKv k k j').1 = some (if j' = j then y else x) := by
    intro j' hj'
    rw [batchKv, (corner_row hh hd k j').2, hke j' hj']
  refine ⟨k, k, hb, fun hscatters => ?_⟩
  obtain ⟨p', hw, hscat⟩ := hscatters
  obtain ⟨p'', hw', _, _, _, hkv⟩ := h.write hl hb (length_le_of_slots hnd hin) hin
  obtain rfl : p'' = p' := by
    rw [hw] at hw'
    exact (Prod.mk.inj (Option.some.inj hw')).2.symm
  have hrow : writeRows (p.batchKv k k) 0 0 slots (p.kv layer) s = p.batchKv k k j := by
    rw [← hscat.listed j s hj, hkv layer s hs, if_pos rfl]
  have hwant := hcorner j hjm
  rw [if_pos rfl, ← hrow] at hwant
  rcases hbad with hkeep | ⟨j', hne, hlt, hother⟩
  · rw [hkeep, hold] at hwant
    exact hy (Option.some.inj hwant).symm
  · rw [Nat.zero_add] at hne hlt
    rw [hother, hcorner j' hlt, if_neg hne] at hwant
    exact hxy (Option.some.inj hwant)

/-- **A write is a scatter, whatever is written, iff no run misplaces a row**: where a slot equals
    its own index, all later slots do -- or the rows have no elements. -/
theorem write_scatters_iff (h : p.Shaped numLayers numSlots dt) (hl : layer < numLayers)
    (hnd : slots.Nodup) (hin : ∀ s ∈ slots, s < numSlots) :
    (∀ k v, p.Batch dt slots.length k v → p.Scatters numSlots layer slots k v) ↔
      RunsSafe 0 slots ∨ p.kvHeads = 0 ∨ p.headDim = 0 := by
  constructor
  · intro hall
    by_contra hnot
    rw [not_or, not_or] at hnot
    obtain ⟨hsafe, hh, hd⟩ := hnot
    obtain ⟨k, v, hb, hbad⟩ := exists_not_scatters h hl hnd hin (Nat.pos_of_ne_zero hh)
      (Nat.pos_of_ne_zero hd) hsafe
    exact hbad (hall k v hb)
  · rintro (hsafe | hempty) k v hb
    · refine scatters_of_rows h hl hnd hin hb fun s _ => ?_
      rw [writeRows_eq_scatter _ hsafe]
    · obtain ⟨kPool, vPool, hk, hv, _, _⟩ := h.getElem hl
      have hsrc : p.batchKv k v = fun _ =>
          (List.replicate p.kvHeads [], List.replicate p.kvHeads []) := by
        funext j
        rw [batchKv, (row_of_empty hempty k j).2, (row_of_empty hempty v j).2]
      have hold : p.kv layer = fun _ =>
          (List.replicate p.kvHeads [], List.replicate p.kvHeads []) := by
        funext s
        rw [kv, hk, hv, Option.map_some, Option.map_some, Option.getD_some, Option.getD_some,
          (row_of_empty hempty kPool s).1, (row_of_empty hempty vPool s).1]
      refine scatters_of_rows h hl hnd hin hb fun s _ => ?_
      rw [hsrc, hold, writeRows_const, scatter_const]

end Scatter

/-! ## 5. Two slots -/

/-- A pool of one layer, one head and three slots of one element. -/
def threeSlots : PagedKvPool Dense where
  kPools := [⟨[1, 3, 1], .f32, true, fun _ => 0⟩]
  vPools := [⟨[1, 3, 1], .f32, true, fun _ => 0⟩]
  kvHeads := 1
  headDim := 1

/-- Two rows, of elements 1 and 2. -/
def twoRows : Dense := ⟨[1, 1, 2, 1], .f32, true, fun idx => idx.getD 2 0 + 1⟩

theorem threeSlots_shaped : threeSlots.Shaped 1 3 .f32 :=
  ⟨rfl, rfl, fun t ht => by obtain rfl := List.mem_singleton.mp ht; exact ⟨rfl, rfl, rfl⟩,
    fun t ht => by obtain rfl := List.mem_singleton.mp ht; exact ⟨rfl, rfl, rfl⟩⟩

/-- Slots 2 and 0 are safe: neither is its own index. -/
theorem write_scatters_reversed : threeSlots.Scatters 3 0 [2, 0] twoRows twoRows := by
  have hiff : (∀ k v, threeSlots.Batch .f32 [2, 0].length k v →
      threeSlots.Scatters 3 0 [2, 0] k v) ↔
        RunsSafe 0 [2, 0] ∨ threeSlots.kvHeads = 0 ∨ threeSlots.headDim = 0 :=
    write_scatters_iff threeSlots_shaped (by decide) (by decide) (by decide)
  exact hiff.mpr (.inl ⟨by decide, by decide, trivial⟩) twoRows twoRows ⟨rfl, rfl, rfl, rfl⟩

/-- Slot 0 is its own index, so the run takes in the second row and writes it to slot 1: slot 2 is
    not written. -/
theorem write_misplaces : ¬ ∀ (slots : List ℕ) (k v : Dense), slots.Nodup → (∀ s ∈ slots, s < 3) →
    threeSlots.Batch .f32 slots.length k v → threeSlots.Scatters 3 0 slots k v := by
  intro h
  obtain ⟨p', hw, hscat⟩ := h [0, 2] twoRows twoRows (by decide) (by decide)
    ⟨rfl, rfl, rfl, rfl⟩
  have hrun : (threeSlots.write 0 [0, 2] twoRows twoRows).map (fun r => r.2.kv 0 2) =
      some ([[0]], [[0]]) := by decide +kernel
  rw [hw] at hrun
  have hrow : p'.kv 0 2 = ([[2]], [[2]]) := hscat.listed 1 2 rfl
  have hkept : p'.kv 0 2 = ([[0]], [[0]]) := Option.some.inj hrun
  rw [hrow] at hkept
  exact absurd hkept (by decide)

end PagedKvPool

end Flour.Kv
