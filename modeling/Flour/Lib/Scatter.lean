/-
  File:      Flour/Lib/Scatter.lean
  Subject:   Writing a sequence of values into a memory, at listed addresses or as one run. Names
             nothing of the program.

  * `scatter src i slots f` -- the value `src (i + j)` at the `j`-th listed address, one by one;
  * `overwrite f start n src` -- `n` values at consecutive addresses, at once;
  * `scatter_range'` -- a run of consecutive addresses is one overwrite.
-/
import Mathlib.Data.List.Range
import Mathlib.Logic.Function.Basic

namespace Flour.Lib

variable {R : Type*}

/-- `n` values from `start` on replaced by `src 0, src 1, ...`. -/
def overwrite (f : ℕ → R) (start n : ℕ) (src : ℕ → R) : ℕ → R := fun s =>
  if start ≤ s ∧ s < start + n then src (s - start) else f s

/-- The values `src i, src (i + 1), ...` at the listed addresses. -/
def scatter (src : ℕ → R) : ℕ → List ℕ → (ℕ → R) → (ℕ → R)
  | _, [], f => f
  | i, s :: rest, f => scatter src (i + 1) rest (Function.update f s (src i))

theorem overwrite_one (f : ℕ → R) (s : ℕ) (src : ℕ → R) :
    overwrite f s 1 src = Function.update f s (src 0) := by
  funext x
  unfold overwrite
  by_cases hx : x = s
  · subst hx
    simp
  · rw [Function.update_of_ne hx, if_neg (by omega)]

/-- Addresses that are not listed keep their value. -/
theorem scatter_of_notMem (src : ℕ → R) {slots : List ℕ} {s : ℕ} (h : s ∉ slots) (i : ℕ)
    (f : ℕ → R) : scatter src i slots f s = f s := by
  induction slots generalizing i f with
  | nil => rfl
  | cons a rest ih =>
    rw [List.mem_cons, not_or] at h
    rw [scatter, ih h.2, Function.update_of_ne h.1]

/-- Each of several distinct addresses gets its value. -/
theorem scatter_getElem (src : ℕ → R) {slots : List ℕ} (hnd : slots.Nodup) {j s : ℕ}
    (hs : slots[j]? = some s) (i : ℕ) (f : ℕ → R) :
    scatter src i slots f s = src (i + j) := by
  induction slots generalizing i j f with
  | nil => simp at hs
  | cons a rest ih =>
    obtain ⟨hna, hnd⟩ := List.nodup_cons.mp hnd
    cases j with
    | zero =>
      simp only [List.getElem?_cons_zero, Option.some.injEq] at hs
      subst hs
      rw [scatter, scatter_of_notMem src hna, Function.update_self]
      rfl
    | succ j =>
      rw [List.getElem?_cons_succ] at hs
      rw [scatter, ih hnd hs, Nat.add_assoc, Nat.add_comm 1 j]

/-- **A run of consecutive addresses is one overwrite.** -/
theorem scatter_range' (src : ℕ → R) (start n i : ℕ) (f : ℕ → R) :
    scatter src i (List.range' start n) f = overwrite f start n fun j => src (i + j) := by
  induction n generalizing start i f with
  | zero =>
    funext s
    unfold overwrite
    rw [if_neg (by omega)]
    rfl
  | succ n ih =>
    rw [List.range'_succ, scatter, ih]
    funext s
    unfold overwrite
    by_cases hs : s = start
    · subst hs
      rw [if_neg (by omega), if_pos (by omega), Function.update_self, Nat.sub_self]
      rfl
    · rw [Function.update_of_ne hs]
      by_cases hin : start ≤ s ∧ s < start + (n + 1)
      · rw [if_pos (by omega), if_pos hin]
        exact congrArg src (by omega)
      · rw [if_neg (by omega), if_neg hin]

end Flour.Lib
