/-
  File:      Flour/DistKv/WorkerRun.lean
  Subject:   Runs of one `WorkerStore`: it is a map whose values fit its capacity together.

  * `WorkerStore.call`, `workerLts` -- the operations in any order and number on a new store;
  * `WorkerStore.Bounded` -- the counter counts, and stays within the capacity: the store then is a
    `BoundedMap`, `Bounded.contents`, and each call does to it what the call of the map does
    (`Bounded.call_refines`);
  * **`worker_refines_boundedMap`** -- so a run of the store is a run of the map, with the same
    replies; what is read is the last value accepted.
-/
import Flour.DistKv.Worker
import Flour.Lib.BoundedMap

namespace Flour.DistKv

open Flour.Lib Flour.Lib.BoundedMap

/-- A value is stored for an object key and a generation. -/
abbrev WorkerSlot := ObjectKey × ℕ

abbrev WorkerCall := BoundedMap.Call WorkerSlot (List UInt8)

namespace WorkerStore

/-- One operation: an error is a refusal. -/
def call (s : WorkerStore) : WorkerCall → Reply (List UInt8) × WorkerStore
  | .put (key, generation) bytes =>
    match s.putBytes key generation bytes with
    | (.ok _, s') => (.accepted, s')
    | (.error _, s') => (.refused, s')
  | .get (key, generation) =>
    match s.getBytes key generation with
    | .ok bytes => (.value bytes, s)
    | .error _ => (.refused, s)
  | .delete (key, generation) => (.deleted, s.deleteGeneration key generation)

/-- **The invariant**: the used counter is the length of all values together, and fits. -/
structure Bounded (s : WorkerStore) : Prop where
  counted : s.Counted
  le : s.usedBytes ≤ s.capacityBytes

theorem bounded_new (workerId : WorkerId) (epoch cap : ℕ) : (new workerId epoch cap).Bounded :=
  ⟨counted_new workerId epoch cap, Nat.zero_le cap⟩

section Bounded

variable {s : WorkerStore}

/-- The map that the store is. -/
def Bounded.contents (h : s.Bounded) : BoundedMap WorkerSlot (V := List UInt8) List.length where
  capacity := s.capacityBytes
  entries := s.objects
  fits := (le_of_eq h.counted.symm).trans h.le

/-- What the counter would become is the length of all values with the new one. -/
theorem Counted.newUsed_eq (h : s.Counted) (key : ObjectKey) (generation : ℕ) (bytes : List UInt8) :
    s.usedBytes - s.prevLen key generation + bytes.length =
      total List.length (s.objects.insert (key, generation) bytes) :=
  h.stored key generation bytes

/-- **A write is accepted exactly when all values then fit.** -/
theorem Counted.putBytes_ok_iff_total (h : s.Counted) (key : ObjectKey) (generation : ℕ)
    (bytes : List UInt8) : (s.putBytes key generation bytes).1 = .ok () ↔
      total List.length (s.objects.insert (key, generation) bytes) ≤ s.capacityBytes := by
  rw [h.putBytes_ok_iff, h.newUsed_eq]

/-- A refused write changes nothing. -/
theorem putBytes_error {key : ObjectKey} {generation : ℕ} {bytes : List UInt8} {e : String}
    (h : (s.putBytes key generation bytes).1 = .error e) :
    (s.putBytes key generation bytes).2 = s := by
  rcases s.putBytes_cases key generation bytes with ⟨msg, hp, _⟩ | ⟨hp, _⟩
  · rw [hp]
  · rw [hp] at h
    cases h

theorem Bounded.putBytes (h : s.Bounded) (key : ObjectKey) (generation : ℕ) (bytes : List UInt8) :
    (s.putBytes key generation bytes).2.Bounded := by
  refine ⟨h.counted.putBytes key generation bytes, ?_⟩
  rcases s.putBytes_cases key generation bytes with ⟨msg, hp, _⟩ | ⟨hp, _, hfit⟩ <;> rw [hp]
  · exact h.le
  · exact hfit

theorem deleteGeneration_objects (s : WorkerStore) (key : ObjectKey) (generation : ℕ) :
    (s.deleteGeneration key generation).objects = s.objects.erase (key, generation) := by
  refine Finmap.ext_lookup fun slot => ?_
  rw [deleteGeneration_lookup]
  by_cases hs : slot = (key, generation)
  · rw [if_pos hs, hs, Finmap.lookup_erase]
  · rw [if_neg hs, Finmap.lookup_erase_ne hs]

theorem deleteGeneration_capacity (s : WorkerStore) (key : ObjectKey) (generation : ℕ) :
    (s.deleteGeneration key generation).capacityBytes = s.capacityBytes := by
  unfold deleteGeneration
  split <;> rfl

theorem Bounded.deleteGeneration (h : s.Bounded) (key : ObjectKey) (generation : ℕ) :
    (s.deleteGeneration key generation).Bounded := by
  refine ⟨h.counted.deleteGeneration key generation, ?_⟩
  rw [deleteGeneration_capacity, h.counted.deleteGeneration key generation, deleteGeneration_objects]
  have hle : total List.length (s.objects.erase (key, generation)) ≤ _ := total_erase_le s.objects _
  exact hle.trans h.contents.fits

/-- **One call** answers and does what the call of the map does. -/
theorem Bounded.call_refines (h : s.Bounded) {c : WorkerCall} {r : Reply (List UInt8)}
    {s' : WorkerStore} (hc : s.call c = (r, s')) :
    ∃ h' : s'.Bounded, h.contents.call c = (r, h'.contents) := by
  cases c with
  | put slot bytes =>
    obtain ⟨key, generation⟩ := slot
    have h' := h.putBytes key generation bytes
    have hiff := h.counted.putBytes_ok_iff_total key generation bytes
    have hc : (match s.putBytes key generation bytes with
      | (.ok _, s') => (Reply.accepted, s')
      | (.error _, s') => (.refused, s')) = (r, s') := hc
    rcases s.putBytes_cases key generation bytes with ⟨msg, hp, _⟩ | ⟨hp, _⟩
    · rw [hp] at h' hiff hc
      cases hc
      have hno : ¬ h.contents.HasRoom (key, generation) bytes := fun hfit => by
        cases hiff.mpr hfit
      exact ⟨h', dif_neg hno⟩
    · rw [hp] at h' hiff hc
      cases hc
      have hfit : h.contents.HasRoom (key, generation) bytes := hiff.mp rfl
      exact ⟨h', dif_pos hfit⟩
  | get slot =>
    cases hc
    exact ⟨h, rfl⟩
  | delete slot =>
    obtain ⟨key, generation⟩ := slot
    cases hc
    refine ⟨h.deleteGeneration key generation, ?_⟩
    show (Reply.deleted, h.contents.delete (key, generation)) = (Reply.deleted, _)
    unfold BoundedMap.delete Bounded.contents
    congr 2
    · exact (deleteGeneration_capacity s key generation).symm
    · exact (deleteGeneration_objects s key generation).symm

end Bounded

end WorkerStore

/-- Every order and number of calls on a new store. -/
def workerLts (workerId : WorkerId) (epoch cap : ℕ) :
    Lts WorkerStore (WorkerCall × Reply (List UInt8)) where
  init s := s = WorkerStore.new workerId epoch cap
  step s e s' := s.call e.1 = (e.2, s')

section Run

variable {workerId : WorkerId} {epoch cap : ℕ} {tr : List (WorkerCall × Reply (List UInt8))}
  {s : WorkerStore}

/-- **Every run is one of the map.** -/
theorem boundedMap_run (h : (workerLts workerId epoch cap).Run tr s) :
    ∃ hs : s.Bounded, (boundedLts WorkerSlot List.length cap).Run tr hs.contents := by
  refine h.invariant (I := fun tr s => ∃ hs : s.Bounded,
    (boundedLts WorkerSlot List.length cap).Run tr hs.contents) (fun s h0 => ?_)
    fun tr s e s' _ hI hs => ?_
  · cases h0
    exact ⟨WorkerStore.bounded_new workerId epoch cap, .start rfl⟩
  · obtain ⟨hb, hrun⟩ := hI
    obtain ⟨hb', hcall⟩ := hb.call_refines hs
    exact ⟨hb', .step hrun hcall⟩

/-- **`WorkerStore` refines a map with a capacity.** After every sequence of calls on a new store:
    the calls so far, with their replies, are a run of the map that it is. Its counter is the length
    of all values together and within the capacity, so that neither subtraction goes below zero,
    and the sum of a write is within the range of the counter if counter and payload together are.
    A write is accepted exactly when all values then fit, and else changes nothing; a read returns
    the payload of the last accepted write to its slot that no deletion of this slot followed. -/
theorem worker_refines_boundedMap (h : (workerLts workerId epoch cap).Run tr s) :
    (∃ m, (boundedLts WorkerSlot List.length cap).Run tr m ∧ m.entries = s.objects) ∧
    s.usedBytes = total List.length s.objects ∧ s.usedBytes ≤ cap ∧ s.capacityBytes = cap ∧
    (∀ key generation bytes, s.objects.lookup (key, generation) = some bytes →
      bytes.length ≤ s.usedBytes) ∧
    (∀ key generation (bytes : List UInt8), s.prevLen key generation ≤ s.usedBytes ∧
      (s.usedBytes + bytes.length ≤ u64Max →
        s.usedBytes - s.prevLen key generation + bytes.length ≤ u64Max)) ∧
    (∀ key generation bytes, ((s.putBytes key generation bytes).1 = .ok () ↔
        total List.length (s.objects.insert (key, generation) bytes) ≤ cap) ∧
      ((s.putBytes key generation bytes).1 ≠ .ok () → (s.putBytes key generation bytes).2 = s)) ∧
    ∀ key generation, s.getBytes key generation = .ok (lastPut (key, generation) tr) := by
  obtain ⟨hs, hrun⟩ := boundedMap_run h
  have hcap : s.capacityBytes = cap := capacity_run hrun
  have hle := hs.le
  rw [hcap] at hle
  refine ⟨⟨_, hrun, rfl⟩, hs.counted, hle, hcap, fun key generation bytes hb => ?_,
    fun key generation bytes => ⟨hs.counted.prevLen_le key generation, fun hu => by omega⟩,
    fun key generation bytes => ⟨?_, fun hne => ?_⟩, fun key generation => ?_⟩
  · have hprev := hs.counted.prevLen_le key generation
    rwa [WorkerStore.prevLen, hb] at hprev
  · rw [hs.counted.putBytes_ok_iff_total, hcap]
  · cases hr : (s.putBytes key generation bytes).1 with
    | ok u => exact absurd hr hne
    | error e => exact WorkerStore.putBytes_error hr
  · exact congrArg Except.ok (get_eq_lastPut hrun (key, generation))

/-- A value that is overwritten, then one that is refused. -/
theorem worker_refines_boundedMap_overwritten : ∃ s,
    (workerLts "w1" 1 3).Run [(.put ("k", 1) [7, 7, 7, 7], .refused), (.put ("k", 1) [1, 2, 3], .accepted),
      (.put ("k", 1) [9, 9], .accepted)] s ∧ s.usedBytes ≤ 3 ∧
    s.getBytes "k" 1 = .ok (some [1, 2, 3]) := by
  have hrun : (workerLts "w1" 1 3).Run [(.put ("k", 1) [7, 7, 7, 7], .refused),
      (.put ("k", 1) [1, 2, 3], .accepted), (.put ("k", 1) [9, 9], .accepted)] _ :=
    .step (.step (.step (.start rfl) rfl) rfl) rfl
  obtain ⟨_, _, hle, _, _, _, _, hget⟩ := worker_refines_boundedMap hrun
  exact ⟨_, hrun, hle, hget "k" 1⟩

end Run

end Flour.DistKv
