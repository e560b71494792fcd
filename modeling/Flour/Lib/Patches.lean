/-
  File:      Flour/Lib/Patches.lean
  Subject:   Writes of whole regions to a memory, one after the other. Names nothing of the program.

  * `Patch` -- what a write puts where: the new value of each address that it covers;
  * `patched`, `lastPatch` -- the memory after a list of patches, and the value of the last one that
    covers an address;
  * **`patched_apply`** -- the last one decides; `patched_eq_self_iff` -- an address is left as it was
    iff the last patch that covers it puts there what was there.
-/
import Mathlib.Data.List.Basic

namespace Flour.Lib

variable {A V : Type*}

abbrev Patch (A V : Type*) := A → Option V

/-- The memory after the patches of a list. -/
def patched (ps : List (Patch A V)) (f : A → V) : A → V := ps.foldl (fun f p a => (p a).getD (f a)) f

/-- What the last patch that covers an address puts there. -/
def lastPatch (ps : List (Patch A V)) (a : A) : Option V := ps.reverse.findSome? (· a)

variable {ps qs : List (Patch A V)} {f g : A → V} {a : A} {v : V}

@[simp] theorem patched_nil (f : A → V) : patched [] f = f := rfl

theorem patched_cons (p : Patch A V) : patched (p :: ps) f = patched ps fun a => (p a).getD (f a) := rfl

theorem patched_append : patched (ps ++ qs) f = patched qs (patched ps f) := List.foldl_append

/-- **The last patch decides.** -/
theorem patched_apply : patched ps f a = (lastPatch ps a).getD (f a) := by
  induction ps generalizing f with
  | nil => rfl
  | cons p ps ih =>
    rw [patched_cons, ih, lastPatch, lastPatch, List.reverse_cons, List.findSome?_append]
    cases ps.reverse.findSome? (· a) with
    | some v => rfl
    | none => cases h : p a <;> simp [h]

/-- What an address held before is all of the old memory that matters to it. -/
theorem patched_congr (h : f a = g a) : patched ps f a = patched ps g a := by
  rw [patched_apply, patched_apply, h]

theorem patched_eq_self_iff : patched ps f a = f a ↔ ∀ v, lastPatch ps a = some v → v = f a := by
  rw [patched_apply]
  cases lastPatch ps a <;> simp

theorem lastPatch_eq_none_iff : lastPatch ps a = none ↔ ∀ p ∈ ps, p a = none := by
  simp [lastPatch]

theorem exists_of_lastPatch (h : lastPatch ps a = some v) : ∃ p ∈ ps, p a = some v := by
  obtain ⟨p, hp, hv⟩ := List.exists_of_findSome?_eq_some h
  exact ⟨p, List.mem_reverse.mp hp, hv⟩

/-- An address that patches cover which agree on it. -/
theorem patched_eq_of_forall (hall : ∀ p ∈ ps, ∀ w, p a = some w → w = v)
    (hsome : ∃ p ∈ ps, p a ≠ none) : patched ps f a = v := by
  rw [patched_apply]
  cases h : lastPatch ps a with
  | none =>
    obtain ⟨p, hp, hne⟩ := hsome
    exact absurd (lastPatch_eq_none_iff.mp h p hp) hne
  | some w =>
    obtain ⟨p, hp, hw⟩ := exists_of_lastPatch h
    exact hall p hp w hw

end Flour.Lib
