/-
  File:      Flour/Engine/Penalty.lean
  Subject:   `apply_repeat_penalty` of `src/sampling.rs`, over an ordered field.

  The tokens of the context are collected in a hash set, which is walked in an order that nothing says
  anything about:

  * `Enumerates order` -- each token once;
  * **`applyRepeatPenalty_eq`** -- in every such order the result is `penalised`: each logit whose
    token was seen is lowered once, whatever is between them; the others stay.
-/
import Flour.Engine.Generate
import Mathlib.Algebra.Order.Field.Basic

namespace Flour

section Penalty

variable {K : Type} [Field K] [LinearOrder K]

/-- A logit of a token that was seen. -/
def lower (penalty l : K) : K := if 0 ≤ l then l / penalty else l * penalty

/-- A turn of the loop. -/
def penalise (penalty : K) (logits : List K) (token : UInt32) : List K :=
  let idx := token.toNat
  if idx ≥ logits.length then logits else logits.modify idx (lower penalty)

/-- The loop, over the set of the tokens of the context in the order it is walked. -/
def applyRepeatPenalty (order : List UInt32 → List UInt32) (logits : List K) (penalty : K)
    (context : List UInt32) : List K :=
  if penalty = 1 then logits else (order context).foldl (penalise penalty) logits

/-- What an iteration over a set is. -/
def Enumerates (order : List UInt32 → List UInt32) : Prop :=
  ∀ context, (order context).Nodup ∧ ∀ token, token ∈ order context ↔ token ∈ context

/-- Every logit on its own. -/
def penalised (logits : List K) (penalty : K) (context : List UInt32) : List K :=
  logits.mapIdx fun i l => if ∃ token ∈ context, token.toNat = i then lower penalty l else l

theorem penalise_getElem? (penalty : K) (logits : List K) (token : UInt32) (i : ℕ) :
    (penalise penalty logits token)[i]? =
      logits[i]?.map fun l => if token.toNat = i then lower penalty l else l := by
  unfold penalise
  by_cases hge : token.toNat ≥ logits.length
  · rw [if_pos hge]
    rcases Nat.lt_or_ge i logits.length with hlt | hle
    · have hne : token.toNat ≠ i := by omega
      simp [hne]
    · simp [List.getElem?_eq_none hle]
  · rw [if_neg hge, List.getElem?_modify]
    by_cases heq : token.toNat = i <;> simp [heq]

/-- Tokens that come once are lowered once. -/
theorem foldl_penalise_getElem? (penalty : K) {seen : List UInt32} (h : seen.Nodup) (logits : List K)
    (i : ℕ) : (seen.foldl (penalise penalty) logits)[i]? =
      logits[i]?.map fun l => if ∃ token ∈ seen, token.toNat = i then lower penalty l else l := by
  induction seen generalizing logits with
  | nil => simp
  | cons token seen ih =>
    obtain ⟨hnot, hseen⟩ := List.nodup_cons.mp h
    rw [List.foldl_cons, ih hseen, penalise_getElem?, Option.map_map]
    refine congrArg (Option.map · _) (funext fun l => ?_)
    by_cases htoken : token.toNat = i
    · -- no later token has this index
      have hno : ¬ ∃ token' ∈ seen, token'.toNat = i := fun ⟨token', hmem, heq⟩ =>
        hnot (UInt32.toNat_inj.mp (heq.trans htoken.symm) ▸ hmem)
      simp [htoken, hno]
    · simp [htoken]

/-- No logit comes or goes. -/
theorem length_applyRepeatPenalty (order : List UInt32 → List UInt32) (logits : List K) (penalty : K)
    (context : List UInt32) :
    (applyRepeatPenalty order logits penalty context).length = logits.length := by
  unfold applyRepeatPenalty
  split
  · rfl
  generalize order context = seen
  induction seen generalizing logits with
  | nil => rfl
  | cons token seen ih =>
    rw [List.foldl_cons, ih]
    unfold penalise
    dsimp only
    split
    · rfl
    · exact List.length_modify _ _ _

/-- **The order does not matter.** -/
theorem applyRepeatPenalty_eq {order : List UInt32 → List UInt32} (h : Enumerates order) :
    applyRepeatPenalty order = (penalised : List K → K → List UInt32 → List K) := by
  funext logits penalty context
  obtain ⟨hnodup, hmem⟩ := h context
  refine List.ext_getElem? fun i => ?_
  unfold applyRepeatPenalty penalised
  rw [List.getElem?_mapIdx]
  by_cases hone : penalty = 1
  · have hsame : ∀ l : K, lower penalty l = l := fun l => by simp [lower, hone]
    rw [if_pos hone]
    simp [hsame]
  · rw [if_neg hone, foldl_penalise_getElem? penalty hnodup]
    simp only [hmem]

end Penalty

end Flour
