/-
  File:      Flour/Lib/FinmapSum.lean
  Subject:   Sums over the entries of a finite map. Names nothing of the program.

  `sumBy f m` adds `f k v` over the entries `k ↦ v` of `m`. The two rules everything else
  follows from: an entry splits off its key (`sumBy_of_lookup`), and an insertion replaces the
  entry its key had (`sumBy_insert`).
-/
import Mathlib.Data.Finmap
import Mathlib.Algebra.BigOperators.Group.Multiset.Basic

namespace Flour.Lib

variable {K V : Type} [DecidableEq K]

/-- The sum of `f k v` over the entries `k ↦ v`. -/
def sumBy (f : K → V → Nat) (m : Finmap (fun _ : K => V)) : Nat :=
  (m.entries.map fun e => f e.1 e.2).sum

omit [DecidableEq K] in
@[simp] theorem sumBy_empty (f : K → V → Nat) : sumBy f ∅ = 0 := rfl

theorem sumBy_insert_of_notMem (f : K → V → Nat) {m : Finmap (fun _ : K => V)} {k : K} {v : V}
    (h : k ∉ m) : sumBy f (m.insert k v) = f k v + sumBy f m := by
  simp [sumBy, Finmap.entries_insert_of_notMem h]

theorem insert_erase_self (m : Finmap (fun _ : K => V)) (k : K) (v : V) :
    (m.erase k).insert k v = m.insert k v := by
  refine Finmap.ext_lookup fun x => ?_
  by_cases hx : x = k
  · subst hx
    simp
  · rw [Finmap.lookup_insert_of_ne _ hx, Finmap.lookup_insert_of_ne _ hx,
      Finmap.lookup_erase_ne hx]

theorem insert_of_lookup {m : Finmap (fun _ : K => V)} {k : K} {v : V}
    (h : m.lookup k = some v) : m.insert k v = m := by
  refine Finmap.ext_lookup fun x => ?_
  by_cases hx : x = k
  · subst hx
    rw [Finmap.lookup_insert, h]
  · exact Finmap.lookup_insert_of_ne _ hx

/-- **An insertion**: the new entry's summand, and the sum over the other keys. -/
theorem sumBy_insert (f : K → V → Nat) (m : Finmap (fun _ : K => V)) (k : K) (v : V) :
    sumBy f (m.insert k v) = f k v + sumBy f (m.erase k) := by
  rw [← insert_erase_self, sumBy_insert_of_notMem f Finmap.notMem_erase_self]

/-- **An entry splits off its key.** -/
theorem sumBy_of_lookup (f : K → V → Nat) {m : Finmap (fun _ : K => V)} {k : K} {v : V}
    (h : m.lookup k = some v) : sumBy f m = f k v + sumBy f (m.erase k) := by
  conv_lhs => rw [← insert_of_lookup h]
  exact sumBy_insert f m k v

theorem sumBy_erase_of_none (f : K → V → Nat) {m : Finmap (fun _ : K => V)} {k : K}
    (h : m.lookup k = none) : sumBy f (m.erase k) = sumBy f m := by
  congr 1
  refine Finmap.ext_lookup fun x => ?_
  by_cases hx : x = k
  · subst hx
    rw [Finmap.lookup_erase, h]
  · exact Finmap.lookup_erase_ne hx

theorem sumBy_eq_zero {f : K → V → Nat} {m : Finmap (fun _ : K => V)}
    (h : ∀ k v, m.lookup k = some v → f k v = 0) : sumBy f m = 0 := by
  refine Multiset.sum_eq_zero fun n hn => ?_
  obtain ⟨e, he, rfl⟩ := Multiset.mem_map.mp hn
  exact h e.1 e.2 (Finmap.lookup_eq_some_iff.mpr he)

theorem sumBy_le_of_lookup (f : K → V → Nat) {m : Finmap (fun _ : K => V)} {k : K} {v : V}
    (h : m.lookup k = some v) : f k v ≤ sumBy f m := by
  rw [sumBy_of_lookup f h]
  exact Nat.le_add_right _ _

end Flour.Lib
