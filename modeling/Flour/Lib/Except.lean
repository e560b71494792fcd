/-
  File:      Flour/Lib/Except.lean
  Subject:   Taking computations in `Except` apart. Names nothing of the program.

  * `bind_eq_ok`, `mapM_eq_ok` -- what a computation that returned has done;
  * `Alike R` -- two computations that both fail, or return values in the relation `R`;
    **`Alike.bind`**, `Alike.foldlM` -- so do their continuations.
-/
import Mathlib.Data.List.Forall2

namespace Flour.Lib

variable {ε α β : Type}

theorem ok_bind (a : α) (f : α → Except ε β) : (Except.ok a >>= f) = f a := rfl

theorem bind_eq_ok {x : Except ε α} {f : α → Except ε β} {b : β} :
    (x >>= f) = .ok b ↔ ∃ a, x = .ok a ∧ f a = .ok b := by
  cases x with
  | error e => exact ⟨fun h => (by cases h), fun ⟨_, h, _⟩ => (by cases h)⟩
  | ok a => exact ⟨fun h => ⟨a, rfl, h⟩, fun ⟨_, h, hf⟩ => (by cases h; exact hf)⟩

/-- Every result of a traversal is that of its element. -/
theorem mapM_eq_ok {f : α → Except ε β} {l : List α} {ys : List β} (h : l.mapM f = .ok ys) :
    List.Forall₂ (fun a b => f a = .ok b) l ys := by
  induction l generalizing ys with
  | nil =>
    cases h
    exact .nil
  | cons a l ih =>
    rw [List.mapM_cons] at h
    obtain ⟨b, hb, h⟩ := bind_eq_ok.mp h
    obtain ⟨bs, hbs, h⟩ := bind_eq_ok.mp h
    cases h
    exact .cons hb (ih hbs)

/-! ## Two computations -/

/-- Both fail, or both return, values in relation. -/
def Alike (R : α → β → Prop) : Except ε α → Except ε β → Prop
  | .ok a, .ok b => R a b
  | .error _, .error _ => True
  | _, _ => False

variable {γ δ : Type} {R : α → β → Prop} {S : γ → δ → Prop} {x : Except ε α} {y : Except ε β}

theorem Alike.refl {R : α → α → Prop} (hR : ∀ a, R a a) (x : Except ε α) : Alike R x x := by
  cases x with
  | error e => exact trivial
  | ok a => exact hR a

/-- **One step** of both. -/
theorem Alike.bind {f : α → Except ε γ} {g : β → Except ε δ} (h : Alike R x y)
    (hf : ∀ a b, R a b → Alike S (f a) (g b)) : Alike S (x >>= f) (y >>= g) := by
  cases x with
  | error e =>
    cases y with
    | error e' => exact trivial
    | ok b => exact h.elim
  | ok a =>
    cases y with
    | error e' => exact h.elim
    | ok b => exact hf a b h

/-- Both take one branch. -/
theorem Alike.ite {p : Prop} [Decidable p] {x' : Except ε α} {y' : Except ε β} (h : Alike R x y)
    (h' : Alike R x' y') : Alike R (if p then x else x') (if p then y else y') := by
  split_ifs
  · exact h
  · exact h'

/-- The second returns where the first does. -/
theorem Alike.of_ok {a : α} (h : Alike R x y) (hx : x = .ok a) : ∃ b, y = .ok b ∧ R a b := by
  subst hx
  cases y with
  | error e => exact h.elim
  | ok b => exact ⟨b, rfl, h⟩

/-- Two loops over lists of related elements. -/
theorem Alike.foldlM {f : α → γ → Except ε α} {g : β → δ → Except ε β}
    (hf : ∀ a b, R a b → ∀ c d, S c d → Alike R (f a c) (g b d)) {l : List γ} {l' : List δ}
    (hl : List.Forall₂ S l l') {a : α} {b : β} (h : R a b) :
    Alike R (l.foldlM f a) (l'.foldlM g b) := by
  induction hl generalizing a b with
  | nil => exact h
  | cons hcd _ ih =>
    rw [List.foldlM_cons, List.foldlM_cons]
    exact (hf a b h _ _ hcd).bind fun a' b' h' => ih h'

end Flour.Lib
