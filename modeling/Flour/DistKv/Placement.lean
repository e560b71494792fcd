/-
  File:      Flour/DistKv/Placement.lean
  Subject:   What the capacity bound says about the worker that a `putStart` chooses.

  * `capacity_le_run` -- a capacity is one of those that were registered, so it is a `usize`;
  * **`placement_within_capacity`** -- in every state reached: the worker that is chosen, preferred
    or searched for, is alive and its counter with the size of the object is within its capacity,
    so that the addition does not overflow, and the object is placed on it.
-/
import Flour.DistKv.Capacity

namespace Flour.DistKv

open Flour.Lib

/-- Registered capacities are `usize` values. -/
def Event.CapacityFits : Event → Prop
  | .registered _ _ _ cap _ => cap ≤ u64Max
  | _ => True

/-- A step leaves capacities as they were, or registers one. -/
theorem MasterStep.capacity_le {m m' : MasterState} {e : Event} (h : MasterStep m e m')
    (he : e.CapacityFits) {w : WorkerId}
    (hold : ∀ x, m.workers.lookup w = some x → x.capacityBytes ≤ u64Max) {x' : WorkerMeta}
    (hx' : m'.workers.lookup w = some x') : x'.capacityBytes ≤ u64Max := by
  rcases h.worker w with ⟨hidle, _⟩ | ⟨_, _, _, hreg, _⟩ | ⟨x, _, _, _, _, hx, hl⟩ |
    ⟨x, _, _, _, hx, hl⟩
  · rw [hx'] at hidle
    obtain ⟨x, hx, hsame⟩ := Option.map_eq_some_iff.mp hidle.symm
    have hcap : x.idle.capacityBytes = x'.idle.capacityBytes :=
      congrArg WorkerMeta.capacityBytes hsame
    exact hcap ▸ hold x hx
  · cases h with
    | registerWorker h =>
      cases h
      cases hreg
      cases (Finmap.lookup_insert _).symm.trans hx'
      rw [MasterState.registered_capacityBytes]
      exact he
    | _ => exact hreg.elim
  · cases hl.symm.trans hx'
    exact hold x hx
  · cases hl.symm.trans hx'
    exact hold x hx

/-- **Every capacity is one that was registered.** -/
theorem capacity_le_run {tr : List Event} {m : MasterState} (h : masterLts.Run tr m)
    (hfits : ∀ e ∈ tr, e.CapacityFits) (w : WorkerId) {x : WorkerMeta}
    (hx : m.workers.lookup w = some x) : x.capacityBytes ≤ u64Max := by
  have hrun := h.invariant (I := fun tr m => (∀ e ∈ tr, e.CapacityFits) →
    ∀ x, m.workers.lookup w = some x → x.capacityBytes ≤ u64Max) (fun m hm _ x hx => ?_)
    fun tr m e m' _ hI hs hfits x hx => ?_
  · exact hrun hfits x hx
  · cases hm
    cases hx
  · obtain ⟨he, hrest⟩ := List.forall_mem_cons.mp hfits
    exact MasterStep.capacity_le hs he (hI hrest) hx

/-- **The used counter stays within the capacity.** In every state reached from the empty one, by
    any operations, failed ones and re-registrations among them: no counter exceeds its worker's
    capacity. The worker that a `putStart` chooses, preferred or searched for, is alive, its counter
    with the size of the object is within its capacity, so that the addition does not overflow; and
    the object is placed on it. -/
theorem placement_within_capacity {tr : List Event} {m : MasterState} (h : masterLts.Run tr m)
    (hfits : ∀ e ∈ tr, e.CapacityFits) :
    (∀ w x, m.workers.lookup w = some x → x.usedBytes ≤ x.capacityBytes) ∧
    ∀ now order putId req id,
      MasterState.chooseWorker (m.releasePrevious req.key) order now req = some id →
      ∃ x, (m.releasePrevious req.key).lookup id = some x ∧
        MasterState.workerIsAlive x now = true ∧ x.usedBytes + req.sizeBytes ≤ x.capacityBytes ∧
        x.usedBytes + req.sizeBytes ≤ u64Max ∧
        ∃ p m', m.putStart now order putId req = (.ok p, m') ∧ p.workerId = id ∧
          m'.workers.lookup id = some { x with usedBytes := x.usedBytes + req.sizeBytes } := by
  have hused := used_le_capacity_run h
  refine ⟨hused, fun now order putId req id hchosen => ?_⟩
  obtain ⟨x, hx, hu⟩ := MasterState.usable_of_chooseWorker hchosen
  have hl := MasterState.releasePrevious_lookup m req.key id
  rw [hx] at hl
  obtain ⟨y, hy, hyx⟩ := Option.map_eq_some_iff.mp hl.symm
  -- the release took something off the counter, and left the capacity
  have hcap : y.capacityBytes = x.capacityBytes := by rw [← hyx]
  have hrel : y.usedBytes - m.releasedOn req.key id = x.usedBytes := by rw [← hyx]
  have hle := hused id y hy
  obtain ⟨halive, hsize⟩ := Bool.and_eq_true_iff.mp hu
  have hsize : req.sizeBytes ≤ x.capacityBytes - x.usedBytes := of_decide_eq_true hsize
  have hroom : x.usedBytes + req.sizeBytes ≤ x.capacityBytes := by omega
  refine ⟨x, hx, halive, hroom, hroom.trans (hcap ▸ capacity_le_run h hfits id hy), ?_⟩
  unfold MasterState.putStart
  dsimp only
  rw [hchosen]
  dsimp only
  rw [hx]
  exact ⟨_, _, rfl, rfl, Finmap.lookup_insert _⟩

/-- A worker that is registered again with less capacity, and then found by its free space. -/
theorem placement_within_capacity_shrunk : ∃ m x,
    masterLts.Run [.registered 1000 "w1" "http://w1" 60 2,
      .putStart 1000 ⟨"k", 50, none⟩ (.ok ⟨1, "w1", "http://w1", 1⟩),
      .registered 1000 "w1" "http://w1" 100 1] m ∧
    MasterState.chooseWorker (m.releasePrevious "k") ["w1"] 1000 ⟨"k", 60, some "w2"⟩ = some "w1" ∧
    (m.releasePrevious "k").lookup "w1" = some x ∧ x.usedBytes + 60 ≤ x.capacityBytes := by
  have hrun : masterLts.Run [.registered 1000 "w1" "http://w1" 60 2,
      .putStart 1000 ⟨"k", 50, none⟩ (.ok ⟨1, "w1", "http://w1", 1⟩),
      .registered 1000 "w1" "http://w1" 100 1] _ :=
    .step (.step (.step (.start rfl) (.registerWorker rfl))
      (@MasterStep.putStart _ _ 1000 ["w1"] 1 _ _ rfl)) (.registerWorker rfl)
  obtain ⟨-, hplaced⟩ := placement_within_capacity hrun (by simp [Event.CapacityFits, u64Max])
  obtain ⟨x, hx, -, hroom, -⟩ := hplaced 1000 ["w1"] 1 ⟨"k", 60, some "w2"⟩ "w1" rfl
  exact ⟨_, x, hrun, rfl, hx, hroom⟩

end Flour.DistKv
