/-
  File:      Flour/DistKv/Master.lean
  Subject:   `MasterState` of `src/distkv/master.rs`, operation by operation, and one lemma for
             each operation that says all it can do.

  * The two hash maps are finite maps. A hash map is iterated in no fixed order: `putStart`
    takes the order in which it meets the workers as an argument.
  * The clock is a reading `now` given to each call, and the UUIDs drawn are arguments.
  * An operation that returns a `Result` returns `Except String`, with the source's messages;
    `u64` additions of the clock that overflow are errors of their own (`leaseExpires`).
-/
import Flour.DistKv.Protocol
import Flour.Lib.FinmapSum
import Mathlib.Data.List.MinMax

namespace Flour.DistKv

open Flour.Lib

/-- How long a granted read lease stays valid. -/
def leaseTtlMs : ℕ := 5000
/-- A worker with no heartbeat within this window is treated as not alive. -/
def heartbeatTimeoutMs : ℕ := 10000

inductive WorkerStatus where
  | alive
  | dead
  deriving DecidableEq, Repr

structure WorkerMeta where
  addr : String
  capacityBytes : ℕ
  usedBytes : ℕ
  epoch : ℕ
  lastHeartbeatMs : ℕ
  status : WorkerStatus
  deriving DecidableEq, Repr

/-- The saturating difference of capacity and use. -/
def WorkerMeta.freeBytes (w : WorkerMeta) : ℕ := w.capacityBytes - w.usedBytes

/-- What an accepted heartbeat leaves in the worker's entry. -/
def WorkerMeta.beaten (w : WorkerMeta) (now : ℕ) : WorkerMeta :=
  { w with lastHeartbeatMs := now, status := .alive }

/-- The worker's entry after a release on it and the reservation of `size` more. -/
def WorkerMeta.recharged (w : WorkerMeta) (released size : ℕ) : WorkerMeta :=
  { w with usedBytes := w.usedBytes - released + size }

structure ObjectMeta where
  /-- Bumped on every `putStart` of the key. -/
  generation : ℕ
  state : ObjectState
  putId : Option PutId
  sizeBytes : ℕ
  workerId : Option WorkerId
  /-- The worker's epoch at allocation time. -/
  workerEpoch : ℕ
  /-- Whether `sizeBytes` is currently reserved against the worker. -/
  reserved : Bool
  deriving DecidableEq, Repr

structure MasterState where
  workers : Finmap (fun _ : WorkerId => WorkerMeta)
  objects : Finmap (fun _ : ObjectKey => ObjectMeta)

namespace MasterState

/-- `MasterState::new`: nothing registered, nothing stored. -/
def new : MasterState := ⟨∅, ∅⟩

/-! ## 1. Workers -/

/-- The entry a registration leaves: a first one starts at epoch 1, a later one bumps the epoch;
    both clear the used counter. -/
def registered (m : MasterState) (now : ℕ) (workerId : WorkerId) (addr : String)
    (capacityBytes : ℕ) : WorkerMeta :=
  match m.workers.lookup workerId with
  | some w =>
    { w with epoch := w.epoch + 1, addr, capacityBytes, usedBytes := 0, lastHeartbeatMs := now,
             status := .alive }
  | none =>
    { addr, capacityBytes, usedBytes := 0, epoch := 1, lastHeartbeatMs := now, status := .alive }

/-- Registers or re-registers a worker and returns its new epoch. -/
def registerWorker (m : MasterState) (now : ℕ) (workerId : WorkerId) (addr : String)
    (capacityBytes : ℕ) : ℕ × MasterState :=
  let entry := m.registered now workerId addr capacityBytes
  (entry.epoch, { m with workers := m.workers.insert workerId entry })

def heartbeat (m : MasterState) (now : ℕ) (workerId : WorkerId) (epoch : ℕ) :
    Except String Unit × MasterState :=
  match m.workers.lookup workerId with
  | none => (.error s!"unknown worker {workerId}", m)
  | some w =>
    if w.epoch ≠ epoch then
      (.error s!"stale heartbeat for {workerId}: epoch {epoch} != current {w.epoch}", m)
    else
      let beaten := { w with lastHeartbeatMs := now, status := .alive }
      (.ok (), { m with workers := m.workers.insert workerId beaten })

def markWorkerDead (m : MasterState) (workerId : WorkerId) : MasterState :=
  match m.workers.lookup workerId with
  | none => m
  | some w => { m with workers := m.workers.insert workerId { w with status := .dead } }

/-- Whether a worker is currently usable for routing and placement. -/
def workerIsAlive (w : WorkerMeta) (now : ℕ) : Bool :=
  w.status == .alive && decide (now - w.lastHeartbeatMs ≤ heartbeatTimeoutMs)

/-! ## 2. Objects -/

/-- The workers after the reservation of the key's previous generation is released. -/
def releasePrevious (m : MasterState) (key : ObjectKey) : Finmap (fun _ : WorkerId => WorkerMeta) :=
  match m.objects.lookup key with
  | none => m.workers
  | some obj =>
    if obj.reserved then
      match obj.workerId with
      | none => m.workers
      | some prevWorker =>
        match m.workers.lookup prevWorker with
        | none => m.workers
        | some w => m.workers.insert prevWorker { w with usedBytes := w.usedBytes - obj.sizeBytes }
    else m.workers

/-- Whether worker `w` may take `sizeBytes` more at `now`. -/
def usable (w : WorkerMeta) (now sizeBytes : ℕ) : Bool :=
  workerIsAlive w now && decide (sizeBytes ≤ w.freeBytes)

/-- The usable worker with the most free space, the last such one in iteration order. -/
def mostFree (workers : Finmap (fun _ : WorkerId => WorkerMeta)) (order : List WorkerId)
    (now sizeBytes : ℕ) : Option WorkerId :=
  let iter := order.filterMap fun id => (workers.lookup id).map fun w => (id, w)
  let fitting := iter.filter fun e => usable e.2 now sizeBytes
  (fitting.reverse.argmax fun e => e.2.freeBytes).map (·.1)

/-- Write locality first: a usable preferred worker, else the one with the most free space. -/
def chooseWorker (workers : Finmap (fun _ : WorkerId => WorkerMeta)) (order : List WorkerId)
    (now : ℕ) (req : PutStartRequest) : Option WorkerId :=
  let preferred := req.preferredWorkerId.bind fun id =>
    (workers.lookup id).bind fun w => if usable w now req.sizeBytes then some id else none
  preferred.or (mostFree workers order now req.sizeBytes)

/-- The generation the next `putStart` of the key gets. -/
def nextGeneration (m : MasterState) (key : ObjectKey) : ℕ :=
  match m.objects.lookup key with
  | some obj => obj.generation + 1
  | none => 1

/-- Opens a write: releases the previous generation's reservation, places the new one and
    reserves its bytes. On an error the release has already happened. -/
def putStart (m : MasterState) (now : ℕ) (order : List WorkerId) (putId : PutId)
    (req : PutStartRequest) : Except String PutStartResponse × MasterState :=
  let workers := m.releasePrevious req.key
  match chooseWorker workers order now req with
  | none => (.error s!"no alive worker has {req.sizeBytes} free bytes", { m with workers })
  | some workerId =>
    match workers.lookup workerId with
    | none => (.error s!"internal: chosen worker {workerId} vanished", { m with workers })
    | some w =>
      let generation := m.nextGeneration req.key
      let charged := { w with usedBytes := w.usedBytes + req.sizeBytes }
      let obj : ObjectMeta :=
        { generation, state := .writing, putId := some putId, sizeBytes := req.sizeBytes,
          workerId := some workerId, workerEpoch := w.epoch, reserved := true }
      (.ok { putId, workerId, workerAddr := w.addr, objectGeneration := generation },
       { workers := workers.insert workerId charged, objects := m.objects.insert req.key obj })

/-- Publishes the object when it is being written under this very put id. -/
def putCommit (m : MasterState) (req : PutCommitRequest) : Except String Unit × MasterState :=
  match m.objects.lookup req.key with
  | none => (.error s!"unknown object {req.key}", m)
  | some obj =>
    if obj.state ≠ .writing then
      (.error s!"object {req.key} is not Writing (state {obj.state.debug})", m)
    else if obj.putId ≠ some req.putId then
      (.error s!"stale or mismatched put_id for {req.key}", m)
    else
      (.ok (), { m with objects := m.objects.insert req.key { obj with state := .complete } })

/-- The end of a lease: past `u64::MAX` the addition overflows and the call panics. -/
def leaseExpires (now : ℕ) : Except String ℕ :=
  if now + leaseTtlMs ≤ u64Max then .ok (now + leaseTtlMs)
  else .error "attempt to add with overflow"

/-- The read route of a key; `none` is a clean miss. The state is only read. -/
def getRoute (m : MasterState) (now : ℕ) (leaseId : LeaseId) (key : ObjectKey) :
    Except String (Option GetRouteResponse) :=
  match m.objects.lookup key with
  | none => .ok none
  | some obj =>
    if obj.state ≠ .complete then .ok none
    else match obj.workerId with
    | none => .ok none
    | some workerId =>
      match m.workers.lookup workerId with
      | none => .ok none
      | some worker =>
        if !workerIsAlive worker now || decide (worker.epoch ≠ obj.workerEpoch) then .ok none
        else (leaseExpires now).map fun leaseExpiresMs =>
          some { key, workerId, workerAddr := worker.addr, objectGeneration := obj.generation,
                 leaseId, leaseExpiresMs }

/-! ## 3. What each operation can do -/

section Registered

variable (m : MasterState) (now : ℕ) (workerId : WorkerId) (addr : String) (cap : ℕ)

@[simp] theorem registered_addr : (m.registered now workerId addr cap).addr = addr := by
  unfold registered; split <;> rfl

@[simp] theorem registered_capacityBytes :
    (m.registered now workerId addr cap).capacityBytes = cap := by
  unfold registered; split <;> rfl

@[simp] theorem registered_usedBytes : (m.registered now workerId addr cap).usedBytes = 0 := by
  unfold registered; split <;> rfl

@[simp] theorem registered_lastHeartbeatMs :
    (m.registered now workerId addr cap).lastHeartbeatMs = now := by
  unfold registered; split <;> rfl

@[simp] theorem registered_status : (m.registered now workerId addr cap).status = .alive := by
  unfold registered; split <;> rfl

theorem registered_epoch_of_some {w : WorkerMeta} (h : m.workers.lookup workerId = some w) :
    (m.registered now workerId addr cap).epoch = w.epoch + 1 := by
  simp [registered, h]

end Registered

theorem heartbeat_cases (m : MasterState) (now : ℕ) (workerId : WorkerId) (epoch : ℕ) :
    (∃ msg, m.heartbeat now workerId epoch = (.error msg, m)) ∨
    (∃ w, m.workers.lookup workerId = some w ∧ w.epoch = epoch ∧
      m.heartbeat now workerId epoch =
        (.ok (), { m with workers := m.workers.insert workerId (WorkerMeta.beaten w now) })) := by
  unfold heartbeat
  cases hw : m.workers.lookup workerId with
  | none => exact Or.inl ⟨_, rfl⟩
  | some w =>
    by_cases he : w.epoch = epoch
    · exact Or.inr ⟨w, rfl, he, by simp [he, WorkerMeta.beaten]⟩
    · exact Or.inl ⟨_, by simp only [ne_eq, he, not_false_eq_true, if_true]; rfl⟩

/-- The bytes `releasePrevious` gives back on worker `w`: what the key's previous generation is
    recorded to have reserved there. -/
def releasedOn (m : MasterState) (key : ObjectKey) (w : WorkerId) : ℕ :=
  match m.objects.lookup key with
  | none => 0
  | some obj => if obj.reserved ∧ obj.workerId = some w then obj.sizeBytes else 0

/-- **The release touches the used counters only**, and each by what was recorded on it. -/
theorem releasePrevious_lookup (m : MasterState) (key : ObjectKey) (w : WorkerId) :
    (m.releasePrevious key).lookup w = (m.workers.lookup w).map fun x =>
      { x with usedBytes := x.usedBytes - m.releasedOn key w } := by
  unfold releasePrevious releasedOn
  cases m.objects.lookup key with
  | none => simp
  | some obj =>
    by_cases hr : obj.reserved = true
    · cases hp : obj.workerId with
      | none => simp [hp]
      | some prev =>
        by_cases hw : w = prev
        · subst hw
          cases hl : m.workers.lookup w <;> simp [hl, hr, hp]
        · have hne : ¬ prev = w := fun e => hw e.symm
          cases hl : m.workers.lookup prev <;>
            simp [hl, hr, hp, hne, Finmap.lookup_insert_of_ne _ hw]
    · simp [hr]

theorem usable_of_mostFree {workers : Finmap (fun _ : WorkerId => WorkerMeta)}
    {order : List WorkerId} {now size : ℕ} {id : WorkerId}
    (h : mostFree workers order now size = some id) :
    ∃ w, workers.lookup id = some w ∧ usable w now size = true := by
  unfold mostFree at h
  obtain ⟨e, he, rfl⟩ := Option.map_eq_some_iff.mp h
  have hm := List.argmax_mem (Option.mem_def.mpr he)
  rw [List.mem_reverse, List.mem_filter, List.mem_filterMap] at hm
  obtain ⟨⟨a, _, ha⟩, hu⟩ := hm
  obtain ⟨w, hw, rfl⟩ := Option.map_eq_some_iff.mp ha
  exact ⟨w, hw, hu⟩

/-- **The chosen worker is usable**, whether it was preferred or found by free space. -/
theorem usable_of_chooseWorker {workers : Finmap (fun _ : WorkerId => WorkerMeta)}
    {order : List WorkerId} {now : ℕ} {req : PutStartRequest} {id : WorkerId}
    (h : chooseWorker workers order now req = some id) :
    ∃ w, workers.lookup id = some w ∧ usable w now req.sizeBytes = true := by
  unfold chooseWorker at h
  rcases Option.or_eq_some_iff.mp h with hp | ⟨_, hf⟩
  · obtain ⟨id', _, hp⟩ := Option.bind_eq_some_iff.mp hp
    obtain ⟨w, hw, hp⟩ := Option.bind_eq_some_iff.mp hp
    by_cases hu : usable w now req.sizeBytes = true
    · simp only [hu, if_true, Option.some.injEq] at hp
      subst hp
      exact ⟨w, hw, hu⟩
    · simp [hu] at hp
  · exact usable_of_mostFree hf

/-- What a granted `putStart` records for its key. -/
def opened (m : MasterState) (putId : PutId) (req : PutStartRequest) (workerId : WorkerId)
    (w : WorkerMeta) : ObjectMeta :=
  { generation := m.nextGeneration req.key, state := .writing, putId := some putId,
    sizeBytes := req.sizeBytes, workerId := some workerId, workerEpoch := w.epoch,
    reserved := true }

/-- What a granted `putStart` answers. -/
def granted (m : MasterState) (putId : PutId) (req : PutStartRequest) (workerId : WorkerId)
    (w : WorkerMeta) : PutStartResponse :=
  { putId, workerId, workerAddr := w.addr, objectGeneration := m.nextGeneration req.key }

/-- **All a `putStart` can do**: fail, with the release done; or place the object on a worker that
    is usable after the release. -/
theorem putStart_cases (m : MasterState) (now : ℕ) (order : List WorkerId) (putId : PutId)
    (req : PutStartRequest) :
    (∃ msg, m.putStart now order putId req =
      (.error msg, { m with workers := m.releasePrevious req.key })) ∨
    (∃ workerId w, m.workers.lookup workerId = some w ∧
      workerIsAlive w now = true ∧
      req.sizeBytes ≤ w.capacityBytes - (w.usedBytes - m.releasedOn req.key workerId) ∧
      m.putStart now order putId req = (.ok (m.granted putId req workerId w),
        { workers := (m.releasePrevious req.key).insert workerId
            (WorkerMeta.recharged w (m.releasedOn req.key workerId) req.sizeBytes)
          objects := m.objects.insert req.key (m.opened putId req workerId w) })) := by
  unfold putStart
  dsimp only
  cases hc : chooseWorker (m.releasePrevious req.key) order now req with
  | none => exact Or.inl ⟨_, rfl⟩
  | some workerId =>
    obtain ⟨w', hw', hu⟩ := usable_of_chooseWorker hc
    have hl := releasePrevious_lookup m req.key workerId
    rw [hw'] at hl
    obtain ⟨w, hw, rfl⟩ := Option.map_eq_some_iff.mp hl.symm
    simp only [usable, Bool.and_eq_true, decide_eq_true_eq] at hu
    refine Or.inr ⟨workerId, w, hw, hu.1, hu.2, ?_⟩
    simp only [hw']
    rfl

theorem putCommit_cases (m : MasterState) (req : PutCommitRequest) :
    (∃ msg, m.putCommit req = (.error msg, m) ∧
      ∀ obj, m.objects.lookup req.key = some obj →
        obj.state ≠ .writing ∨ obj.putId ≠ some req.putId) ∨
    (∃ obj, m.objects.lookup req.key = some obj ∧ obj.state = .writing ∧
      obj.putId = some req.putId ∧ m.putCommit req =
        (.ok (), { m with objects := m.objects.insert req.key { obj with state := .complete } })) := by
  unfold putCommit
  cases ho : m.objects.lookup req.key with
  | none => exact Or.inl ⟨_, rfl, fun _ h => by cases h⟩
  | some obj =>
    by_cases hs : obj.state = .writing
    · by_cases hp : obj.putId = some req.putId
      · exact Or.inr ⟨obj, rfl, hs, hp, by simp [hs, hp]⟩
      · refine Or.inl ⟨s!"stale or mismatched put_id for {req.key}", by simp [hs, hp], ?_⟩
        intro o ho
        cases ho
        exact Or.inr hp
    · refine Or.inl
        ⟨s!"object {req.key} is not Writing (state {obj.state.debug})", by simp [hs], ?_⟩
      intro o ho
      cases ho
      exact Or.inl hs

/-- The route a complete object on an alive worker of the placement's epoch gets. -/
def routeTo (key : ObjectKey) (workerId : WorkerId) (addr : String) (generation : ℕ)
    (leaseId : LeaseId) (now : ℕ) : GetRouteResponse :=
  { key, workerId, workerAddr := addr, objectGeneration := generation, leaseId,
    leaseExpiresMs := now + leaseTtlMs }

/-- **When `getRoute` returns a route**, and which. -/
theorem getRoute_eq_some_iff {m : MasterState} {now : ℕ} {leaseId : LeaseId} {key : ObjectKey}
    {r : GetRouteResponse} :
    m.getRoute now leaseId key = .ok (some r) ↔
      ∃ obj workerId w, m.objects.lookup key = some obj ∧ obj.state = .complete ∧
        obj.workerId = some workerId ∧ m.workers.lookup workerId = some w ∧
        workerIsAlive w now = true ∧ w.epoch = obj.workerEpoch ∧ now + leaseTtlMs ≤ u64Max ∧
        r = routeTo key workerId w.addr obj.generation leaseId now := by
  unfold getRoute
  constructor
  · intro h
    split at h
    · cases h
    rename_i obj ho
    split_ifs at h with hs
    · cases h
    split at h
    · cases h
    rename_i workerId hid
    split at h
    · cases h
    rename_i w hw
    split_ifs at h with ha
    · cases h
    simp only [Bool.or_eq_true, Bool.not_eq_true', decide_eq_true_eq, not_or,
      Bool.not_eq_false, ne_eq, not_not] at ha hs
    unfold leaseExpires at h
    split_ifs at h with hl
    · simp only [Except.map, Except.ok.injEq, Option.some.injEq] at h
      exact ⟨obj, workerId, w, ho, hs, hid, hw, ha.1, ha.2, hl, h.symm⟩
    · cases h
  · rintro ⟨obj, workerId, w, ho, hs, hid, hw, ha, he, hl, rfl⟩
    simp [ho, hs, hid, hw, ha, he, leaseExpires, hl, Except.map, routeTo]

end MasterState

end Flour.DistKv
