/-
  File:      Flour/Lib/Scan.lean
  Subject:   The first prefix of a list whose fold has a property. Names nothing of the program.

  * `scan op P s l` -- the index of the element that completes it; `scan_eq_some_iff`,
    `scan_eq_none_iff` -- exactly when, and when there is none; `scan_append` -- what follows it
    makes no difference;
  * `foldl_add`, `foldl_append` -- the folds of sums and of texts.
-/
import Mathlib.Algebra.BigOperators.Group.List.Basic

namespace Flour.Lib

section Scan

variable {σ α : Type} (op : σ → α → σ) (P : σ → Prop) [DecidablePred P]

def scan : σ → List α → Option ℕ
  | _, [] => none
  | s, a :: rest => if P (op s a) then some 0 else (scan (op s a) rest).map (· + 1)

variable {op P} {s : σ} {l : List α}

/-- **Where the fold first has the property**: there, and nowhere before. -/
theorem scan_eq_some_iff {i : ℕ} :
    scan op P s l = some i ↔ i < l.length ∧ P ((l.take (i + 1)).foldl op s) ∧
      ∀ j, j < i → ¬ P ((l.take (j + 1)).foldl op s) := by
  induction l generalizing s i with
  | nil => exact ⟨fun h => (by cases h), fun h => absurd h.1 (Nat.not_lt_zero i)⟩
  | cons a rest ih =>
    rw [scan]
    by_cases ha : P (op s a)
    · rw [if_pos ha]
      cases i with
      | zero => exact ⟨fun _ => ⟨Nat.succ_pos _, ha, fun j hj => absurd hj (Nat.not_lt_zero j)⟩,
          fun _ => rfl⟩
      | succ i => exact ⟨fun h => (by cases h), fun h => absurd ha (h.2.2 0 (Nat.succ_pos i))⟩
    · rw [if_neg ha]
      cases i with
      | zero =>
        refine ⟨fun h => ?_, fun h => absurd h.2.1 ha⟩
        obtain ⟨_, -, h⟩ := Option.map_eq_some_iff.mp h
        cases h
      | succ i =>
        have hshift : (scan op P (op s a) rest).map (· + 1) = some (i + 1) ↔
            scan op P (op s a) rest = some i := by simp
        rw [hshift, ih, List.length_cons, Nat.succ_lt_succ_iff]
        refine and_congr_right fun _ => and_congr_right fun _ => ⟨fun h j hj => ?_, fun h j hj => ?_⟩
        · cases j with
          | zero => exact ha
          | succ j => exact h j (Nat.lt_of_succ_lt_succ hj)
        · exact h (j + 1) (Nat.succ_lt_succ hj)

theorem scan_eq_none_iff :
    scan op P s l = none ↔ ∀ j, j < l.length → ¬ P ((l.take (j + 1)).foldl op s) := by
  induction l generalizing s with
  | nil => exact ⟨fun _ j hj => absurd hj (Nat.not_lt_zero j), fun _ => rfl⟩
  | cons a rest ih =>
    rw [scan]
    by_cases ha : P (op s a)
    · rw [if_pos ha]
      exact ⟨fun h => (by cases h), fun h => absurd ha (h 0 (Nat.succ_pos _))⟩
    · rw [if_neg ha, Option.map_eq_none_iff, ih]
      refine ⟨fun h j hj => ?_, fun h j hj => h (j + 1) (Nat.succ_lt_succ hj)⟩
      cases j with
      | zero => exact ha
      | succ j => exact h j (Nat.lt_of_succ_lt_succ hj)

/-- The elements after it are not looked at. -/
theorem scan_append {i : ℕ} (h : scan op P s l = some i) (rest : List α) :
    scan op P s (l ++ rest) = some i := by
  obtain ⟨hlt, hP, hbefore⟩ := scan_eq_some_iff.mp h
  have htake : ∀ j, j ≤ i → (l ++ rest).take (j + 1) = l.take (j + 1) := fun j hj =>
    List.take_append_of_le_length (by omega)
  refine scan_eq_some_iff.mpr ⟨?_, ?_, fun j hj => ?_⟩
  · rw [List.length_append]
    omega
  · rwa [htake i (Nat.le_refl i)]
  · rw [htake j (Nat.le_of_lt hj)]
    exact hbefore j hj

end Scan

theorem foldl_add {M : Type} [AddMonoid M] (c : M) (l : List M) :
    l.foldl (· + ·) c = c + l.sum := by
  induction l generalizing c with
  | nil => exact (add_zero c).symm
  | cons x rest ih => rw [List.foldl_cons, ih, List.sum_cons, add_assoc]

theorem foldl_append {α : Type} (g : List α) (l : List (List α)) :
    l.foldl (· ++ ·) g = g ++ l.flatten := by
  induction l generalizing g with
  | nil => exact (List.append_nil g).symm
  | cons x rest ih => rw [List.foldl_cons, ih, List.flatten_cons, List.append_assoc]

end Flour.Lib
