/-
  File:      Flour/DistKv/Worker.lean
  Subject:   `WorkerStore` of `src/distkv/worker.rs`: the bytes of a Worker, keyed by object key
             and generation, under a capacity.

  * `putBytes`, `getBytes`, `deleteGeneration` -- the operations. The subtraction of `putBytes`
    is checked: where it would underflow, the call panics.
  * `putBytes_cases`, `putBytes_ok_iff` -- all a write can do, and when it is accepted.
  * `WorkerStore.Counted` -- the used counter is the total length of the stored values; every
    operation keeps it, so the subtraction never underflows.
-/
import Flour.DistKv.Protocol
import Flour.Lib.FinmapSum

namespace Flour.DistKv

open Flour.Lib

structure WorkerStore where
  workerId : WorkerId
  epoch : ℕ
  capacityBytes : ℕ
  usedBytes : ℕ
  objects : Finmap (fun _ : ObjectKey × ℕ => List UInt8)

namespace WorkerStore

def new (workerId : WorkerId) (epoch capacityBytes : ℕ) : WorkerStore :=
  { workerId, epoch, capacityBytes, usedBytes := 0, objects := ∅ }

/-- The length of the value a slot holds, 0 for an empty slot. -/
def prevLen (s : WorkerStore) (key : ObjectKey) (generation : ℕ) : ℕ :=
  ((s.objects.lookup (key, generation)).map List.length).getD 0

/-- The store with `bytes` in the slot and the counter at `newUsed`. -/
def stored (s : WorkerStore) (key : ObjectKey) (generation : ℕ) (bytes : List UInt8)
    (newUsed : ℕ) : WorkerStore :=
  { s with objects := s.objects.insert (key, generation) bytes, usedBytes := newUsed }

/-- Writes a value to its slot when the total then fits the capacity. -/
def putBytes (s : WorkerStore) (key : ObjectKey) (generation : ℕ) (bytes : List UInt8) :
    Except String Unit × WorkerStore :=
  let prev := s.prevLen key generation
  if s.usedBytes < prev then (.error "attempt to subtract with overflow", s)
  else
    let newUsed := s.usedBytes - prev + bytes.length
    if s.capacityBytes < newUsed then
      (.error (s!"object ({key}, gen {generation}) of {bytes.length} bytes exceeds capacity " ++
        s!"(used {s.usedBytes - prev}, cap {s.capacityBytes})"), s)
    else (.ok (), s.stored key generation bytes newUsed)

def getBytes (s : WorkerStore) (key : ObjectKey) (generation : ℕ) :
    Except String (Option (List UInt8)) :=
  .ok (s.objects.lookup (key, generation))

def deleteGeneration (s : WorkerStore) (key : ObjectKey) (generation : ℕ) : WorkerStore :=
  match s.objects.lookup (key, generation) with
  | some bytes =>
    { s with objects := s.objects.erase (key, generation),
             usedBytes := s.usedBytes - bytes.length }
  | none => s

/-! ## 1. What each operation can do -/

/-- **All a write can do**: be refused and change nothing, or fill its slot. -/
theorem putBytes_cases (s : WorkerStore) (key : ObjectKey) (generation : ℕ)
    (bytes : List UInt8) :
    (∃ msg, s.putBytes key generation bytes = (.error msg, s) ∧
      (s.usedBytes < s.prevLen key generation ∨
        s.capacityBytes < s.usedBytes - s.prevLen key generation + bytes.length)) ∨
    (s.putBytes key generation bytes = (.ok (), s.stored key generation bytes
        (s.usedBytes - s.prevLen key generation + bytes.length)) ∧
      s.prevLen key generation ≤ s.usedBytes ∧
      s.usedBytes - s.prevLen key generation + bytes.length ≤ s.capacityBytes) := by
  unfold putBytes
  dsimp only
  by_cases hu : s.usedBytes < s.prevLen key generation
  · exact Or.inl ⟨_, if_pos hu, Or.inl hu⟩
  · rw [if_neg hu]
    by_cases hc : s.capacityBytes < s.usedBytes - s.prevLen key generation + bytes.length
    · exact Or.inl ⟨_, if_pos hc, Or.inr hc⟩
    · exact Or.inr ⟨if_neg hc, Nat.not_lt.mp hu, Nat.not_lt.mp hc⟩

theorem deleteGeneration_lookup (s : WorkerStore) (key : ObjectKey) (generation : ℕ)
    (slot : ObjectKey × ℕ) :
    (s.deleteGeneration key generation).objects.lookup slot =
      if slot = (key, generation) then none else s.objects.lookup slot := by
  unfold deleteGeneration
  cases hb : s.objects.lookup (key, generation) with
  | none =>
    by_cases hs : slot = (key, generation)
    · rw [if_pos hs, hs]
      exact hb
    · rw [if_neg hs]
  | some bytes =>
    by_cases hs : slot = (key, generation)
    · rw [if_pos hs, hs]
      exact Finmap.lookup_erase _ _
    · rw [if_neg hs]
      exact Finmap.lookup_erase_ne hs

/-! ## 2. The counter counts -/

/-- The used counter is the total length of the values. -/
def Counted (s : WorkerStore) : Prop :=
  s.usedBytes = sumBy (fun _ bytes => bytes.length) s.objects

theorem counted_new (workerId : WorkerId) (epoch cap : ℕ) : (new workerId epoch cap).Counted :=
  rfl

/-- A slot's value is part of the total. -/
theorem Counted.prevLen_le {s : WorkerStore} (h : s.Counted) (key : ObjectKey)
    (generation : ℕ) : s.prevLen key generation ≤ s.usedBytes := by
  unfold prevLen
  rw [h]
  cases hb : s.objects.lookup (key, generation) with
  | none => exact Nat.zero_le _
  | some bytes => exact sumBy_le_of_lookup (fun _ b => List.length b) hb

theorem Counted.stored {s : WorkerStore} (h : s.Counted) (key : ObjectKey) (generation : ℕ)
    (bytes : List UInt8) :
    (s.stored key generation bytes
      (s.usedBytes - s.prevLen key generation + bytes.length)).Counted := by
  unfold Counted WorkerStore.stored prevLen
  dsimp only
  rw [sumBy_insert, h]
  cases hb : s.objects.lookup (key, generation) with
  | none =>
    rw [sumBy_erase_of_none _ hb]
    exact Nat.add_comm _ _
  | some old =>
    rw [sumBy_of_lookup _ hb]
    simp only [Option.map_some, Option.getD_some]
    omega

/-- **A write that fits is accepted, and only such a write.** -/
theorem Counted.putBytes_ok_iff {s : WorkerStore} (h : s.Counted) (key : ObjectKey)
    (generation : ℕ) (bytes : List UInt8) :
    (s.putBytes key generation bytes).1 = .ok () ↔
      s.usedBytes - s.prevLen key generation + bytes.length ≤ s.capacityBytes := by
  have hle := h.prevLen_le key generation
  rcases s.putBytes_cases key generation bytes with ⟨msg, hp, hbad⟩ | ⟨hp, _, hfit⟩
  · rw [hp]
    exact ⟨fun hx => (by cases hx), fun hx => by omega⟩
  · rw [hp]
    exact ⟨fun _ => hfit, fun _ => rfl⟩

theorem Counted.putBytes {s : WorkerStore} (h : s.Counted) (key : ObjectKey) (generation : ℕ)
    (bytes : List UInt8) : (s.putBytes key generation bytes).2.Counted := by
  rcases s.putBytes_cases key generation bytes with ⟨msg, hp, _⟩ | ⟨hp, _⟩ <;> rw [hp]
  · exact h
  · exact h.stored key generation bytes

theorem Counted.deleteGeneration {s : WorkerStore} (h : s.Counted) (key : ObjectKey)
    (generation : ℕ) : (s.deleteGeneration key generation).Counted := by
  unfold WorkerStore.deleteGeneration
  cases hb : s.objects.lookup (key, generation) with
  | none => exact h
  | some bytes =>
    unfold Counted
    dsimp only
    rw [h, sumBy_of_lookup _ hb]
    exact Nat.add_sub_cancel_left _ _

end WorkerStore

end Flour.DistKv
