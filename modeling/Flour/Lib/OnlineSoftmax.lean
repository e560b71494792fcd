/-
  File:      Flour/Lib/OnlineSoftmax.lean
  Subject:   Softmax-weighted averages computed in one pass over runs of scores. Names nothing of the
             program.

  * `IsExponential e` -- what is used of the exponential; `expBot e` extends it by `e (-∞) = 0`.
  * `softmaxMean e S V n` -- the average of `V 0, .., V (n - 1)` with the weights `e (S j)`,
    normalised.
  * `Streamed e S V n max sum acc` -- the running maximum, sum and accumulator stand for the first
    `n` scores and values.
  * `Streamed.absorb` -- a run of any length is absorbed by rescaling onto the new maximum;
    `Streamed.div_eq` -- the quotient at the end is the average.
-/
import Mathlib.Algebra.BigOperators.Field
import Mathlib.Algebra.Order.BigOperators.Ring.Finset
import Mathlib.Algebra.Order.Field.Basic
import Mathlib.Data.Finset.Lattice.Fold
import Mathlib.Order.WithBot

namespace Flour.Lib

open Finset

/-! ## 1. Scores, averages and the running state -/

section Average

variable {K : Type*} [Field K]

/-- The exponential of a score that may be `-∞`. -/
def expBot (e : K → K) : WithBot K → K
  | ⊥ => 0
  | (x : K) => e x

/-- A score less a real number. -/
def lowered (s : WithBot K) (m : K) : WithBot K := s.map (· - m)

/-- The average of `V` over `n` positions, weighted by the exponentials of the scores `S`. -/
def softmaxMean (e : K → K) (S : ℕ → WithBot K) (V : ℕ → K) (n : ℕ) : K :=
  (∑ j ∈ range n, expBot e (S j) * V j) / ∑ j ∈ range n, expBot e (S j)

/-- **The running state** over the first `n` scores: sum and accumulator are held relative to the
    maximum. -/
structure Streamed (e : K → K) (S : ℕ → WithBot K) (V : ℕ → K) (n : ℕ) (max : WithBot K)
    (sum acc : K) : Prop where
  sum_eq : expBot e max * sum = ∑ j ∈ range n, expBot e (S j)
  acc_eq : expBot e max * acc = ∑ j ∈ range n, expBot e (S j) * V j

variable {e : K → K} {S : ℕ → WithBot K} {V : ℕ → K}

@[simp] theorem expBot_bot : expBot e ⊥ = 0 := rfl

@[simp] theorem expBot_coe (x : K) : expBot e (x : WithBot K) = e x := rfl

/-- Normalising each weight first gives the same average. -/
theorem sum_div_mul_eq_softmaxMean (n : ℕ) :
    ∑ j ∈ range n, expBot e (S j) / (∑ i ∈ range n, expBot e (S i)) * V j
      = softmaxMean e S V n := by
  unfold softmaxMean
  rw [sum_div]
  exact sum_congr rfl fun j _ => div_mul_eq_mul_div _ _ _

theorem softmaxMean_congr {S' : ℕ → WithBot K} {V' : ℕ → K} {n : ℕ} (hS : ∀ j, j < n → S j = S' j)
    (hV : ∀ j, j < n → V j = V' j) : softmaxMean e S V n = softmaxMean e S' V' n := by
  unfold softmaxMean
  congr 1 <;> refine sum_congr rfl fun j hj => ?_
  · rw [hS j (mem_range.mp hj), hV j (mem_range.mp hj)]
  · rw [hS j (mem_range.mp hj)]

/-- Hidden positions at the end do not count. -/
theorem softmaxMean_hidden {m n : ℕ} (hmn : m ≤ n) (h : ∀ j, m ≤ j → j < n → S j = ⊥) :
    softmaxMean e S V n = softmaxMean e S V m := by
  have hout : ∀ j ∈ range n, j ∉ range m → expBot e (S j) = 0 := fun j hj hm => by
    rw [h j (by simpa using hm) (mem_range.mp hj), expBot_bot]
  unfold softmaxMean
  rw [sum_subset (range_mono hmn) hout,
    sum_subset (range_mono hmn) fun j hj hm => by rw [hout j hj hm, zero_mul]]

/-- Before any score: maximum `-∞`, sum and accumulator zero. -/
theorem Streamed.empty : Streamed e S V 0 ⊥ 0 0 where
  sum_eq := by simp
  acc_eq := by simp

end Average

/-! ## 2. Absorbing a run -/

section Absorb

variable {K : Type*} [Field K] [LinearOrder K]

/-- What is used of the exponential. -/
structure IsExponential (e : K → K) : Prop where
  map_add : ∀ x y, e (x + y) = e x * e y
  pos : ∀ x, 0 < e x

variable {e : K → K} {S : ℕ → WithBot K} {V : ℕ → K}

theorem IsExponential.expBot_pos [IsStrictOrderedRing K] (h : IsExponential e) {s : WithBot K}
    (hs : s ≠ ⊥) : 0 < expBot e s := by
  obtain ⟨x, rfl⟩ := WithBot.ne_bot_iff_exists.mp hs
  exact h.pos x

theorem IsExponential.expBot_nonneg [IsStrictOrderedRing K] (h : IsExponential e) (s : WithBot K) :
    0 ≤ expBot e s := by
  induction s with
  | bot => exact le_rfl
  | coe x => exact (h.pos x).le

/-- Lowering by `m` takes the factor `e m` out. -/
theorem IsExponential.expBot_lowered (h : IsExponential e) (s : WithBot K) (m : K) :
    e m * expBot e (lowered s m) = expBot e s := by
  induction s with
  | bot => exact mul_zero _
  | coe x =>
    show e m * e (x - m) = e x
    rw [← h.map_add, add_sub_cancel]

/-- The weights have a positive sum as soon as one score is a real number. -/
theorem IsExponential.sum_pos [IsStrictOrderedRing K] (h : IsExponential e) {n j : ℕ} (hj : j < n)
    (hs : S j ≠ ⊥) : 0 < ∑ j ∈ range n, expBot e (S j) :=
  Finset.sum_pos' (fun i _ => h.expBot_nonneg (S i)) ⟨j, mem_range.mpr hj, h.expBot_pos hs⟩

/-- **One run.** The state is rescaled onto the new maximum `m`, and the weights of the run are
    added; whatever `m` is. -/
theorem Streamed.absorb (h : IsExponential e) {n : ℕ} {max : WithBot K} {sum acc : K}
    (hst : Streamed e S V n max sum acc) (k : ℕ) (m : K) :
    Streamed e S V (n + k) m
      (sum * expBot e (lowered max m) + ∑ j ∈ range k, expBot e (lowered (S (n + j)) m))
      (acc * expBot e (lowered max m)
        + ∑ j ∈ range k, expBot e (lowered (S (n + j)) m) * V (n + j)) where
  sum_eq := by
    have hold : e m * (sum * expBot e (lowered max m)) = ∑ j ∈ range n, expBot e (S j) := by
      rw [← hst.sum_eq, ← h.expBot_lowered max m]
      ring
    have hnew : e m * ∑ j ∈ range k, expBot e (lowered (S (n + j)) m)
        = ∑ j ∈ range k, expBot e (S (n + j)) := by
      rw [mul_sum]
      exact sum_congr rfl fun j _ => h.expBot_lowered _ m
    rw [expBot_coe, mul_add, hold, hnew, sum_range_add]
  acc_eq := by
    have hold : e m * (acc * expBot e (lowered max m))
        = ∑ j ∈ range n, expBot e (S j) * V j := by
      rw [← hst.acc_eq, ← h.expBot_lowered max m]
      ring
    have hnew : e m * ∑ j ∈ range k, expBot e (lowered (S (n + j)) m) * V (n + j)
        = ∑ j ∈ range k, expBot e (S (n + j)) * V (n + j) := by
      rw [mul_sum]
      refine sum_congr rfl fun j _ => ?_
      rw [← mul_assoc, h.expBot_lowered]
    rw [expBot_coe, mul_add, hold, hnew, sum_range_add]

/-- The running sum is positive once a real score has been absorbed. -/
theorem Streamed.sum_pos [IsStrictOrderedRing K] (h : IsExponential e) {n j : ℕ} {m sum acc : K}
    (hst : Streamed e S V n m sum acc) (hj : j < n) (hs : S j ≠ ⊥) : 0 < sum := by
  have hpos : 0 < e m * sum := by
    rw [← expBot_coe (e := e), hst.sum_eq]
    exact h.sum_pos hj hs
  exact (pos_iff_pos_of_mul_pos hpos).mp (h.pos m)

/-- **The quotient** of accumulator and sum is the average: the maximum cancels. -/
theorem Streamed.div_eq (h : IsExponential e) {n : ℕ} {m sum acc : K}
    (hst : Streamed e S V n m sum acc) : acc / sum = softmaxMean e S V n := by
  unfold softmaxMean
  rw [← hst.sum_eq, ← hst.acc_eq, expBot_coe, mul_div_mul_left _ _ (h.pos m).ne']

end Absorb

end Flour.Lib
