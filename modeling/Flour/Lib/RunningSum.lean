/-
  File:      Flour/Lib/RunningSum.lean
  Subject:   Where the running sum of a list reaches a bound. Names nothing of the program.

  * `reach bound l c` -- the index of the first element at which the sum, started at `c`, is at
    least `bound`; `reach_eq_some_iff`, `reach_eq_none_iff` -- exactly when, and when there is none;
  * `reach_pos` -- an element that lifts the sum to the bound is positive;
  * `segSum f order m` -- the sum over the first `m` elements of an order; `segSum_cut` -- of a
    function that vanishes from rank `k` on, `segSum_mono` -- of one that is not negative.
-/
import Flour.Lib.Scan
import Mathlib.Algebra.Order.Group.Defs
import Mathlib.Algebra.Order.Monoid.Unbundled.Basic
import Mathlib.Order.Monotone.Basic

namespace Flour.Lib

variable {M ι : Type} [AddCommGroup M] [LinearOrder M]

def reach (bound : M) (l : List M) (c : M) : Option ℕ := scan (· + ·) (bound ≤ ·) c l

variable {bound c : M} {l : List M}

theorem reach_eq_some_iff {i : ℕ} :
    reach bound l c = some i ↔ i < l.length ∧ bound ≤ c + (l.take (i + 1)).sum ∧
      ∀ j, j < i → c + (l.take (j + 1)).sum < bound := by
  simp only [reach, scan_eq_some_iff, foldl_add, not_le]

theorem reach_eq_none_iff :
    reach bound l c = none ↔ ∀ j, j < l.length → c + (l.take (j + 1)).sum < bound := by
  simp only [reach, scan_eq_none_iff, foldl_add, not_le]

/-- **An element that lifts the sum to the bound is positive.** -/
theorem reach_pos [IsOrderedAddMonoid M] {i : ℕ} (h : reach bound l c = some i) (hc : c < bound) :
    ∃ x, l[i]? = some x ∧ 0 < x := by
  obtain ⟨hi, hle, hlt⟩ := reach_eq_some_iff.mp h
  refine ⟨l[i], List.getElem?_eq_getElem hi, ?_⟩
  have hbefore : c + (l.take i).sum < bound := by
    cases i with
    | zero => simpa using hc
    | succ j => exact hlt j (Nat.lt_succ_self j)
  rw [List.take_add_one, List.getElem?_eq_getElem hi, Option.toList_some, List.sum_append,
    List.sum_singleton, ← add_assoc] at hle
  exact pos_of_lt_add_right (hbefore.trans_le hle)

/-- The sum over the first `m` elements. -/
def segSum (f : ι → M) (order : List ι) (m : ℕ) : M := ((order.take m).map f).sum

omit [LinearOrder M] in
theorem segSum_eq_take (f : ι → M) (order : List ι) (m : ℕ) :
    segSum f order m = ((order.map f).take m).sum := by
  rw [segSum, List.map_take]

section Segments

omit [LinearOrder M]

variable {f g : ι → M} {order : List ι}

@[simp]
theorem segSum_zero (f : ι → M) (order : List ι) : segSum f order 0 = 0 := rfl

theorem segSum_succ {m : ℕ} {i : ι} (h : order[m]? = some i) :
    segSum f order (m + 1) = segSum f order m + f i := by
  rw [segSum, List.take_add_one, h, Option.toList_some, List.map_append, List.sum_append,
    List.map_singleton, List.sum_singleton, segSum]

theorem segSum_of_length_le {m : ℕ} (h : order.length ≤ m) :
    segSum f order (m + 1) = segSum f order m := by
  rw [segSum, segSum, List.take_of_length_le h, List.take_of_length_le (Nat.le_succ_of_le h)]

/-- **A function that vanishes from rank `k` on**. -/
theorem segSum_cut {k : ℕ} (h : ∀ r i, order[r]? = some i → g i = if r < k then f i else 0) (m : ℕ) :
    segSum g order m = segSum f order (min k m) := by
  induction m with
  | zero => rw [Nat.min_zero, segSum_zero, segSum_zero]
  | succ m ih =>
    rcases hi : order[m]? with _ | i
    · have hlen := List.getElem?_eq_none_iff.mp hi
      rw [segSum_of_length_le hlen, ih]
      rcases Nat.lt_or_ge m k with hlt | hge
      · rw [Nat.min_eq_right (Nat.le_of_lt hlt), Nat.min_eq_right hlt, segSum_of_length_le hlen]
      · rw [Nat.min_eq_left hge, Nat.min_eq_left (Nat.le_succ_of_le hge)]
    · rw [segSum_succ hi, ih, h m i hi]
      rcases Nat.lt_or_ge m k with hlt | hge
      · rw [if_pos hlt, Nat.min_eq_right (Nat.le_of_lt hlt), Nat.min_eq_right hlt, segSum_succ hi]
      · rw [if_neg (Nat.not_lt_of_le hge), add_zero, Nat.min_eq_left hge,
          Nat.min_eq_left (Nat.le_succ_of_le hge)]

end Segments

theorem segSum_mono [IsOrderedAddMonoid M] {f : ι → M} {order : List ι} (h : ∀ i ∈ order, 0 ≤ f i) :
    Monotone (segSum f order) := by
  refine monotone_nat_of_le_succ fun m => ?_
  rcases hi : order[m]? with _ | i
  · exact (segSum_of_length_le (List.getElem?_eq_none_iff.mp hi)).ge
  · rw [segSum_succ hi]
    exact le_add_of_nonneg_right (h i (List.mem_of_getElem? hi))

end Flour.Lib
