/-
  File:      Flour/Lib/Run.lean
  Subject:   Labelled transition systems and their runs. Names nothing of the program.

  A run is recorded as its list of events, NEWEST FIRST, so that "since", "the last" and "the
  latest" are read off the front of the list:

  * `Lts`, `Lts.Run` -- a system, and the runs it has from its initial states;
  * `Lts.Steps` -- a run continued from any state; `Run.trans`, `Steps.trans`;
  * `Run.invariant`, `Steps.invariant` -- what one step preserves, a whole run preserves;
  * `Lts.restrict` -- the runs all of whose steps meet a condition on (state, event);
  * `Lts.logged` -- the runs that record with each event the state it met;
  * `Run.simulate` -- a relation matched step by step matches every run with a run.
-/
import Mathlib.Data.List.Basic

namespace Flour.Lib

/-- A labelled transition system: initial states and labelled steps. -/
structure Lts (σ ε : Type*) where
  init : σ → Prop
  step : σ → ε → σ → Prop

namespace Lts

variable {σ ε : Type*} (L : Lts σ ε)

/-- The runs of a system from its initial states, events newest first. -/
inductive Run : List ε → σ → Prop where
  | start {s : σ} (h : L.init s) : Run [] s
  | step {tr : List ε} {s s' : σ} {e : ε} (h : Run tr s) (hs : L.step s e s') : Run (e :: tr) s'

/-- The continuations of a run from a given state, events newest first. -/
inductive Steps (s₀ : σ) : List ε → σ → Prop where
  | refl : Steps s₀ [] s₀
  | step {tr : List ε} {s s' : σ} {e : ε} (h : Steps s₀ tr s) (hs : L.step s e s') :
      Steps s₀ (e :: tr) s'

/-- The system whose steps also meet `C`. -/
def restrict (C : σ → ε → Prop) : Lts σ ε where
  init := L.init
  step s e s' := L.step s e s' ∧ C s e

/-- The system whose events carry the state they met. -/
def logged : Lts σ (σ × ε) where
  init := L.init
  step s e s' := e.1 = s ∧ L.step s e.2 s'

variable {L}

/-- **The invariant rule**: what holds initially and is kept by every step of a run holds at
    the end of every run. The invariant may speak about the events so far. -/
theorem Run.invariant {I : List ε → σ → Prop} (h0 : ∀ s, L.init s → I [] s)
    (hstep : ∀ tr s e s', L.Run tr s → I tr s → L.step s e s' → I (e :: tr) s')
    {tr : List ε} {s : σ} (h : L.Run tr s) : I tr s := by
  induction h with
  | start h => exact h0 _ h
  | step h hs ih => exact hstep _ _ _ _ h ih hs

/-- The invariant rule for a continuation. -/
theorem Steps.invariant {I : List ε → σ → Prop} {s₀ : σ} (h0 : I [] s₀)
    (hstep : ∀ tr s e s', L.Steps s₀ tr s → I tr s → L.step s e s' → I (e :: tr) s')
    {tr : List ε} {s : σ} (h : L.Steps s₀ tr s) : I tr s := by
  induction h with
  | refl => exact h0
  | step h hs ih => exact hstep _ _ _ _ h ih hs

/-- A continuation of a run is a run. -/
theorem Run.trans {tr tr' : List ε} {s s' : σ} (h : L.Run tr s) (h' : L.Steps s tr' s') :
    L.Run (tr' ++ tr) s' := by
  induction h' with
  | refl => exact h
  | step _ hs ih => exact .step ih hs

theorem Steps.trans {tr tr' : List ε} {s s' s'' : σ} (h : L.Steps s tr s')
    (h' : L.Steps s' tr' s'') : L.Steps s (tr' ++ tr) s'' := by
  induction h' with
  | refl => exact h
  | step _ hs ih => exact .step ih hs

/-- A run is a continuation of an initial state. -/
theorem Run.exists_steps {tr : List ε} {s : σ} (h : L.Run tr s) :
    ∃ s₀, L.init s₀ ∧ L.Steps s₀ tr s := by
  induction h with
  | start h => exact ⟨_, h, .refl⟩
  | step _ hs ih =>
    obtain ⟨s₀, h₀, hsteps⟩ := ih
    exact ⟨s₀, h₀, .step hsteps hs⟩

/-- A logged run, without its log of states, is a run. -/
theorem Run.of_logged {tr : List (σ × ε)} {s : σ} (h : L.logged.Run tr s) :
    L.Run (tr.map Prod.snd) s := by
  induction h with
  | start h => exact .start h
  | step _ hs ih => exact .step ih hs.2

/-- A restricted run is a run. -/
theorem Run.of_restrict {C : σ → ε → Prop} {tr : List ε} {s : σ} (h : (L.restrict C).Run tr s) :
    L.Run tr s := by
  induction h with
  | start h => exact .start h
  | step _ hs ih => exact .step ih hs.1

/-- A restricted continuation is a continuation. -/
theorem Steps.of_restrict {C : σ → ε → Prop} {s₀ : σ} {tr : List ε} {s : σ}
    (h : (L.restrict C).Steps s₀ tr s) : L.Steps s₀ tr s := by
  induction h with
  | refl => exact .refl
  | step _ hs ih => exact .step ih hs.1

/-- A run none of whose steps can break `C` is a restricted run. -/
theorem Run.restrict {C : σ → ε → Prop} {tr : List ε} {s : σ} (h : L.Run tr s)
    (hC : ∀ tr' s' e, e :: tr' <:+ tr → L.Run tr' s' → C s' e) : (L.restrict C).Run tr s := by
  induction h with
  | start h => exact .start h
  | step h hs ih =>
    exact .step (ih fun tr' s' e hsuf hr => hC tr' s' e (hsuf.trans (List.suffix_cons _ _)) hr)
      ⟨hs, hC _ _ _ (List.suffix_refl _) h⟩

/-- The same for a continuation of a run. -/
theorem Steps.restrict {C : σ → ε → Prop} {tr₀ : List ε} {s₀ : σ} (h₀ : L.Run tr₀ s₀)
    {tr : List ε} {s : σ} (h : L.Steps s₀ tr s)
    (hC : ∀ tr' s' e, e :: tr' <:+ tr ++ tr₀ → L.Run tr' s' → C s' e) :
    (L.restrict C).Steps s₀ tr s := by
  induction h with
  | refl => exact .refl
  | step h hs ih =>
    exact .step (ih fun tr' s' e hsuf hr => hC tr' s' e (hsuf.trans (List.suffix_cons _ _)) hr)
      ⟨hs, hC _ _ _ (List.suffix_refl _) (h₀.trans h)⟩

/-- A continuation in a system with more steps, its events renamed. -/
theorem Steps.map {ε' : Type*} {M : Lts σ ε'} {f : ε → ε'}
    (hM : ∀ s e s', L.step s e s' → M.step s (f e) s') {s₀ : σ} {tr : List ε} {s : σ}
    (h : L.Steps s₀ tr s) : M.Steps s₀ (tr.map f) s := by
  induction h with
  | refl => exact .refl
  | step _ hs ih => exact .step ih (hM _ _ _ hs)

section Simulate

variable {σ' ε' : Type*} {M : Lts σ' ε'}

/-- **The simulation rule**: where every initial state has a related one, and every step of a run is
    matched by a continuation of the other system, every run is matched by a run. -/
theorem Run.simulate {R : σ → σ' → Prop} (h0 : ∀ s, L.init s → ∃ t, M.init t ∧ R s t)
    (hstep : ∀ tr s e s' tr' t, L.Run tr s → M.Run tr' t → R s t → L.step s e s' →
      ∃ es t', M.Steps t es t' ∧ R s' t')
    {tr : List ε} {s : σ} (h : L.Run tr s) : ∃ tr' t, M.Run tr' t ∧ R s t := by
  induction h with
  | start h =>
    obtain ⟨t, ht, hR⟩ := h0 _ h
    exact ⟨[], t, .start ht, hR⟩
  | step h hs ih =>
    obtain ⟨tr', t, hM, hR⟩ := ih
    obtain ⟨es, t', hs', hR'⟩ := hstep _ _ _ _ _ _ h hM hR hs
    exact ⟨es ++ tr', t', hM.trans hs', hR'⟩

end Simulate

end Lts

end Flour.Lib
