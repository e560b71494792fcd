/-
  File:      Flour/DistKv/Simulator.lean
  Subject:   The fault-injection simulator of `src/distkv/test/simulator.rs`, which drives the Master
             and the worker stores through traces and checks the safety of the store after each event.

  * `Sim` and its operations -- as in the source. What a call draws (the order in which a hash map
    is met, a put id, a lease id) is its argument; an `expect` that panics is an error.
  * `Sim.Call`, `simLts` -- the events of the random driver, and the two calls it does not make.
  * `Sim.Linked`, `Sim.Inv` -- the shadow of the simulator and the Master agree on every key; what a
    store holds was written for the open put of its key or for an older one.
  * **`checkInvariants_run`** -- the check returns `Ok` after every trace of every length, for all
    keys, workers, sizes and capacities. The driver tries 1,200 seeds of 40 events.
-/
import Flour.DistKv.MasterRun
import Flour.DistKv.Worker
import Mathlib.Data.Finset.Sort
import Mathlib.Data.String.Basic

namespace Flour.DistKv

open Flour.Lib

/-! ## 1. The simulator -/

/-- The physical state of a worker. -/
structure WorkerNode where
  store : WorkerStore
  capacity : ℕ
  epoch : ℕ
  crashed : Bool

/-- The latest write opened for a key. -/
structure InFlight where
  putId : PutId
  generation : ℕ
  worker : WorkerId
  bytes : List UInt8

/-- The last committed generation of a key. -/
structure Sim.Committed where
  generation : ℕ
  bytes : List UInt8

/-- What one call draws. -/
structure Draw where
  order : List WorkerId
  putId : PutId
  leaseId : LeaseId

structure Sim where
  clock : ℕ
  master : MasterState
  workers : Finmap (fun _ : WorkerId => WorkerNode)
  inflight : Finmap (fun _ : ObjectKey => InFlight)
  committed : Finmap (fun _ : ObjectKey => Sim.Committed)
  /-- Past put ids of each key, oldest first. -/
  history : Finmap (fun _ : ObjectKey => List PutId)
  marker : UInt32

namespace Sim

/-- The events of the random driver. -/
inductive Event where
  | register (worker : WorkerId) (capacity : ℕ)
  | putStart (key : ObjectKey) (size : ℕ)
  | workerWrite (key : ObjectKey)
  | commitLatest (key : ObjectKey)
  | commitStale (key : ObjectKey)
  | getAndFetch (key : ObjectKey)
  | crash (worker : WorkerId)
  | restart (worker : WorkerId) (capacity : ℕ)

def new : Sim :=
  { clock := 1000, master := .new, workers := ∅, inflight := ∅, committed := ∅, history := ∅,
    marker := 0 }

/-- The clock is a `u64` that wraps. -/
def advanceClock (s : Sim) (ms : ℕ) : Sim := { s with clock := (s.clock + ms) % 2 ^ 64 }

/-- A registration comes with a fresh, empty store. -/
def registerWorker (s : Sim) (worker : WorkerId) (capacity : ℕ) : Sim :=
  let (epoch, master) := s.master.registerWorker s.clock worker worker capacity
  { s with
    master
    workers := s.workers.insert worker
      { store := .new worker epoch capacity, capacity, epoch, crashed := false } }

/-- Opens a write; a refusal is a miss. -/
def putStart (s : Sim) (d : Draw) (key : ObjectKey) (size : ℕ) : Option PutStartResponse × Sim :=
  match s.master.putStart s.clock d.order d.putId ⟨key, size, none⟩ with
  | (.error _, master) => (none, { s with master })
  | (.ok resp, master) =>
    let marker := s.marker + 1
    (some resp,
      { s with
        master, marker
        history := s.history.insert key ((s.history.lookup key).getD [] ++ [resp.putId])
        inflight := s.inflight.insert key
          { putId := resp.putId, generation := resp.objectGeneration, worker := resp.workerId,
            bytes := List.replicate (max size 1) marker.toUInt8 } })

/-- Writes the open bytes to the chosen worker; a rejection is ignored. -/
def workerWrite (s : Sim) (key : ObjectKey) : Sim :=
  match s.inflight.lookup key with
  | none => s
  | some inflight =>
    match s.workers.lookup inflight.worker with
    | none => s
    | some node =>
      if node.crashed then s
      else
        let store := (node.store.putBytes key inflight.generation inflight.bytes).2
        { s with workers := s.workers.insert inflight.worker { node with store } }

/-- Commits with a put id that may be stale. -/
def commit (s : Sim) (key : ObjectKey) (putId : PutId) : Bool × Sim :=
  match s.master.putCommit ⟨key, putId⟩ with
  | (.error _, master) => (false, { s with master })
  | (.ok _, master) =>
    match s.inflight.lookup key with
    | none => (true, { s with master })
    | some inflight =>
      if inflight.putId = putId then
        (true, { s with
          master
          committed := s.committed.insert key ⟨inflight.generation, inflight.bytes⟩ })
      else (true, { s with master })

def commitLatest (s : Sim) (key : ObjectKey) : Bool × Sim :=
  match s.inflight.lookup key with
  | none => (false, s)
  | some inflight => s.commit key inflight.putId

/-- Commits with the oldest put id of the key. -/
def commitStale (s : Sim) (key : ObjectKey) : Sim :=
  match (s.history.lookup key).bind List.head? with
  | none => s
  | some putId => (s.commit key putId).2

/-- `expect("get_route is infallible")`. -/
def getRoute (s : Sim) (leaseId : LeaseId) (key : ObjectKey) :
    Except String (Option GetRouteResponse) := s.master.getRoute s.clock leaseId key

def workerFetch (s : Sim) (worker : WorkerId) (key : ObjectKey) (generation : ℕ) :
    Option (List UInt8) :=
  match s.workers.lookup worker with
  | none => none
  | some node => if node.crashed then none else (node.store.getBytes key generation).toOption.join

/-- The worker loses its memory and is marked dead at the Master. -/
def crash (s : Sim) (worker : WorkerId) : Sim :=
  let workers :=
    match s.workers.lookup worker with
    | none => s.workers
    | some node =>
      s.workers.insert worker
        { node with crashed := true, store := .new worker node.epoch node.capacity }
  { s with workers, master := s.master.markWorkerDead worker }

def restart (s : Sim) (worker : WorkerId) (capacity : ℕ) : Sim := s.registerWorker worker capacity

def evict (s : Sim) (worker : WorkerId) (key : ObjectKey) (generation : ℕ) : Sim :=
  match s.workers.lookup worker with
  | none => s
  | some node =>
    let store := node.store.deleteGeneration key generation
    { s with workers := s.workers.insert worker { node with store } }

def apply (s : Sim) (d : Draw) : Event → Except String Sim
  | .register worker capacity => .ok (s.registerWorker worker capacity)
  | .putStart key size => .ok (s.putStart d key size).2
  | .workerWrite key => .ok (s.workerWrite key)
  | .commitLatest key => .ok (s.commitLatest key).2
  | .commitStale key => .ok (s.commitStale key)
  | .getAndFetch key =>
    match s.getRoute d.leaseId key with
    | .error e => .error e
    | .ok _ => .ok s
  | .crash worker => .ok (s.crash worker)
  | .restart worker capacity => .ok (s.restart worker capacity)

/-- The checks of one key. -/
def checkKey (s : Sim) (leaseId : LeaseId) (key : ObjectKey) : Except String Unit :=
  match s.getRoute leaseId key with
  | .error e => .error e
  | .ok none => .ok ()
  | .ok (some route) =>
    match s.workers.lookup route.workerId with
    | none => .error s!"route to unknown worker {route.workerId} for {key}"
    | some node =>
      if node.crashed then .error s!"route to crashed worker {route.workerId} for {key}"
      else
        match s.committed.lookup key with
        | none => .error s!"route for {key} but no committed generation"
        | some committed =>
          if committed.generation ≠ route.objectGeneration then
            .error (s!"route for {key} names gen {route.objectGeneration} but latest committed is " ++
              s!"{committed.generation}")
          else
            match s.workerFetch route.workerId key route.objectGeneration with
            | none => .ok ()
            | some bytes =>
              if bytes ≠ committed.bytes then
                .error (s!"fetch for {key} gen {route.objectGeneration} returned corrupt/reused " ++
                  "bytes")
              else .ok ()

/-- Every key that was committed or opened, in order. -/
def keys (s : Sim) : List ObjectKey := (s.committed.keys ∪ s.inflight.keys).sort (· ≤ ·)

/-- `check_invariants`; each route draws a lease id. -/
def checkInvariants (s : Sim) (leaseId : ObjectKey → LeaseId) : Except String Unit :=
  s.keys.forM fun key => s.checkKey (leaseId key) key

/-! ## 2. Traces -/

/-- A call that changes the simulator. -/
inductive Call where
  | apply (d : Draw) (ev : Event)
  | advanceClock (ms : ℕ)
  | evict (worker : WorkerId) (key : ObjectKey) (generation : ℕ)

def call (s : Sim) : Call → Except String Sim
  | .apply d ev => s.apply d ev
  | .advanceClock ms => .ok (s.advanceClock ms)
  | .evict worker key generation => .ok (s.evict worker key generation)

end Sim

/-- The traces of the simulator; a panic ends a trace. -/
def simLts : Lts Sim Sim.Call where
  init s := s = .new
  step s c s' := s.call c = .ok s'

/-! ## 3. The shadow and the Master agree -/

namespace Sim

/-- The Master's object of a key, its open write and its last commit. -/
def Linked (o : Option ObjectMeta) (f : Option InFlight) (c : Option Committed) : Prop :=
  match o, f with
  | none, none => True
  | some obj, some f =>
    obj.putId = some f.putId ∧ obj.generation = f.generation ∧ obj.workerId = some f.worker ∧
      (obj.state = .writing ∨ (obj.state = .complete ∧ c = some ⟨f.generation, f.bytes⟩))
  | _, _ => False

/-- What is stored for a key was written for its open write, or for an older one. -/
def StoredFor (f : Option InFlight) (generation : ℕ) (bytes : List UInt8) : Prop :=
  ∃ x, f = some x ∧ generation ≤ x.generation ∧ (generation = x.generation → bytes = x.bytes)

/-- A worker's node and the Master's entry of it. -/
structure NodeOK (inflight : Finmap (fun _ : ObjectKey => InFlight)) (node : WorkerNode)
    (x : Option WorkerMeta) : Prop where
  known : ∃ w, x = some w ∧ (node.crashed = true → w.status = .dead)
  stored : ∀ key generation bytes, node.store.objects.lookup (key, generation) = some bytes →
    StoredFor (inflight.lookup key) generation bytes
  counted : node.store.Counted
  capacity : node.store.capacityBytes = node.capacity
  /-- A crashed worker holds nothing. -/
  wiped : node.crashed = true → node.store.objects = ∅

structure Inv (s : Sim) : Prop where
  keys : ∀ key, Linked (s.master.objects.lookup key) (s.inflight.lookup key)
    (s.committed.lookup key)
  nodes : ∀ worker node, s.workers.lookup worker = some node →
    NodeOK s.inflight node (s.master.workers.lookup worker)
  /-- A worker that the Master knows has a node. -/
  registered : ∀ worker, s.master.workers.lookup worker ≠ none → s.workers.lookup worker ≠ none

theorem inv_new : Inv new where
  keys _ := trivial
  nodes _ _ h := by cases h
  registered _ h := absurd rfl h

/-- The open write of a key is that of its object. -/
theorem Linked.open {o : Option ObjectMeta} {f : Option InFlight} {c : Option Committed}
    (h : Linked o f c) {obj : ObjectMeta} (ho : o = some obj) :
    ∃ x, f = some x ∧ obj.putId = some x.putId ∧ obj.generation = x.generation ∧
      obj.workerId = some x.worker ∧
      (obj.state = .writing ∨ (obj.state = .complete ∧ c = some ⟨x.generation, x.bytes⟩)) := by
  subst ho
  cases f with
  | none => exact h.elim
  | some x => exact ⟨x, rfl, h⟩

theorem Linked.none {o : Option ObjectMeta} {f : Option InFlight} {c : Option Committed}
    (h : Linked o f c) (ho : o = none) : f = none := by
  subst ho
  cases f with
  | none => rfl
  | some x => exact h.elim

/-- Below the overflow of the lease, a route lookup does not panic. -/
theorem getRoute_ok {m : MasterState} {now : ℕ} (h : now + leaseTtlMs ≤ u64Max) (leaseId : LeaseId)
    (key : ObjectKey) : ∃ r, m.getRoute now leaseId key = .ok r := by
  unfold MasterState.getRoute MasterState.leaseExpires
  rw [if_pos h]
  split
  · exact ⟨_, rfl⟩
  split_ifs
  · exact ⟨_, rfl⟩
  split
  · exact ⟨_, rfl⟩
  split
  · exact ⟨_, rfl⟩
  split_ifs
  · exact ⟨_, rfl⟩
  · exact ⟨_, rfl⟩

/-- **A route of the Master**: its node is up, and its generation is the committed one. -/
theorem Inv.route {s : Sim} (h : Inv s) {leaseId : LeaseId} {key : ObjectKey} {r : GetRouteResponse}
    (hr : s.getRoute leaseId key = .ok (some r)) :
    ∃ f node, s.inflight.lookup key = some f ∧ s.workers.lookup r.workerId = some node ∧
      node.crashed = false ∧ r.objectGeneration = f.generation ∧
      s.committed.lookup key = some ⟨f.generation, f.bytes⟩ := by
  obtain ⟨obj, workerId, w, ho, hst, hid, hw, ha, _, _, rfl⟩ :=
    MasterState.getRoute_eq_some_iff.mp hr
  obtain ⟨f, hf, _, hgen, _, hstate⟩ := (h.keys key).open ho
  have hcom : s.committed.lookup key = some ⟨f.generation, f.bytes⟩ := by
    rcases hstate with hwr | ⟨_, hc⟩
    · rw [hst] at hwr
      cases hwr
    · exact hc
  obtain ⟨node, hnode⟩ := Option.ne_none_iff_exists'.mp
    (h.registered workerId (by rw [hw]; simp))
  refine ⟨f, node, hf, hnode, ?_, hgen, hcom⟩
  by_contra hcr
  obtain ⟨w', hw', hdead⟩ := (h.nodes workerId node hnode).known
  rw [hw] at hw'
  cases hw'
  rw [MasterState.workerIsAlive, hdead (by simpa using hcr)] at ha
  cases ha

/-- **One key passes its checks.** -/
theorem Inv.checkKey {s : Sim} (h : Inv s) (hclock : s.clock + leaseTtlMs ≤ u64Max)
    (leaseId : LeaseId) (key : ObjectKey) : s.checkKey leaseId key = .ok () := by
  obtain ⟨route, hr⟩ := getRoute_ok (m := s.master) hclock leaseId key
  have hr : s.getRoute leaseId key = .ok route := hr
  unfold Sim.checkKey
  rw [hr]
  cases route with
  | none => rfl
  | some r =>
      obtain ⟨f, node, hf, hnode, hup, hgen, hcom⟩ := h.route hr
      simp only [hnode, hup, hcom, hgen, Bool.false_eq_true, if_false, ne_eq, not_true_eq_false]
      cases hfetch : s.workerFetch r.workerId key f.generation with
      | none => rfl
      | some bytes =>
          simp only [workerFetch, hnode, hup, Bool.false_eq_true, if_false, WorkerStore.getBytes,
            Except.toOption, Option.join_some] at hfetch
          obtain ⟨x, hx, _, hbytes⟩ := (h.nodes r.workerId node hnode).stored _ _ _ hfetch
          rw [hf] at hx
          cases hx
          simp [hbytes rfl]

theorem Inv.checkInvariants {s : Sim} (h : Inv s) (hclock : s.clock + leaseTtlMs ≤ u64Max)
    (leaseId : ObjectKey → LeaseId) : s.checkInvariants leaseId = .ok () := by
  unfold Sim.checkInvariants
  generalize s.keys = keys
  induction keys with
  | nil => rfl
  | cons key keys ih =>
      show (s.checkKey (leaseId key) key >>= fun _ => keys.forM _) = _
      rw [h.checkKey hclock]
      exact ih

/-! ## 4. Every call keeps the invariant -/

/-- Replacing one node. -/
theorem Inv.setNode {s : Sim} (h : Inv s) {worker : WorkerId} {node' : WorkerNode}
    (hn : NodeOK s.inflight node' (s.master.workers.lookup worker)) :
    Inv { s with workers := s.workers.insert worker node' } where
  keys := h.keys
  nodes w node hw := by
    by_cases he : w = worker
    · subst he
      rw [Finmap.lookup_insert] at hw
      cases hw
      exact hn
    · rw [Finmap.lookup_insert_of_ne _ he] at hw
      exact h.nodes w node hw
  registered w hw := by
    by_cases he : w = worker
    · subst he
      rw [Finmap.lookup_insert]
      simp
    · rw [Finmap.lookup_insert_of_ne _ he]
      exact h.registered w hw

/-- Replacing the Master's entries of the workers, none of them gone or revived. -/
theorem Inv.setWorkers {s : Sim} (h : Inv s) {workers : Finmap (fun _ : WorkerId => WorkerMeta)}
    (hw : ∀ w x, s.master.workers.lookup w = some x →
      ∃ x', workers.lookup w = some x' ∧ (x.status = .dead → x'.status = .dead))
    (hnone : ∀ w, s.master.workers.lookup w = none → workers.lookup w = none) :
    Inv { s with master := { s.master with workers } } where
  keys := h.keys
  nodes w node hnode := by
    have hn := h.nodes w node hnode
    obtain ⟨x, hx, hdead⟩ := hn.known
    obtain ⟨x', hx', hkeep⟩ := hw w x hx
    exact { hn with known := ⟨x', hx', fun hc => hkeep (hdead hc)⟩ }
  registered w hne := h.registered w fun h0 => hne (hnone w h0)

theorem Inv.advanceClock {s : Sim} (h : Inv s) (ms : ℕ) : Inv (s.advanceClock ms) :=
  ⟨h.keys, h.nodes, h.registered⟩

theorem nodeOK_new (inflight : Finmap (fun _ : ObjectKey => InFlight)) (worker : WorkerId)
    (epoch capacity : ℕ) (crashed : Bool) {x : WorkerMeta} (hx : crashed = true → x.status = .dead) :
    NodeOK inflight { store := .new worker epoch capacity, capacity, epoch, crashed } (some x) where
  known := ⟨x, rfl, hx⟩
  stored _ _ _ h := by cases h
  counted := WorkerStore.counted_new worker epoch capacity
  capacity := rfl
  wiped _ := rfl

theorem Inv.registerWorker {s : Sim} (h : Inv s) (worker : WorkerId) (capacity : ℕ) :
    Inv (s.registerWorker worker capacity) where
  keys := h.keys
  nodes w node hnode := by
    unfold Sim.registerWorker MasterState.registerWorker at hnode ⊢
    dsimp only at hnode ⊢
    by_cases he : w = worker
    · subst he
      rw [Finmap.lookup_insert] at hnode ⊢
      cases hnode
      exact nodeOK_new _ _ _ _ _ fun hc => by cases hc
    · rw [Finmap.lookup_insert_of_ne _ he] at hnode ⊢
      exact h.nodes w node hnode
  registered w hne := by
    unfold Sim.registerWorker MasterState.registerWorker at hne ⊢
    dsimp only at hne ⊢
    by_cases he : w = worker
    · subst he
      rw [Finmap.lookup_insert]
      simp
    · rw [Finmap.lookup_insert_of_ne _ he] at hne ⊢
      exact h.registered w hne

/-- A release keeps every entry and its status. -/
theorem Inv.released {s : Sim} (h : Inv s) (key : ObjectKey) :
    Inv { s with master := { s.master with workers := s.master.releasePrevious key } } := by
  refine h.setWorkers (fun w x hx => ?_) fun w hw => ?_
  · refine ⟨{ x with usedBytes := x.usedBytes - s.master.releasedOn key w }, ?_, fun hd => hd⟩
    rw [MasterState.releasePrevious_lookup, hx]
    rfl
  · rw [MasterState.releasePrevious_lookup, hw]
    rfl

/-- **Opening a write**: its generation is above all that was stored for the key. -/
theorem Inv.putStart {s : Sim} (h : Inv s) (d : Draw) (key : ObjectKey) (size : ℕ) :
    Inv (s.putStart d key size).2 := by
  unfold Sim.putStart
  rcases s.master.putStart_cases s.clock d.order d.putId ⟨key, size, none⟩ with
    ⟨msg, hp⟩ | ⟨id, w, hw, _, _, hp⟩ <;> rw [hp]
  · exact h.released key
  have hrel := h.released key
  -- the generation of the new write is above that of the write before it
  have hgen : ∀ x, s.inflight.lookup key = some x → s.master.nextGeneration key = x.generation + 1 := by
    intro x hx
    have hk := h.keys key
    cases ho : s.master.objects.lookup key with
    | none =>
        rw [hk.none ho] at hx
        cases hx
    | some obj =>
        obtain ⟨x', hx', _, hg, _⟩ := hk.open ho
        rw [hx] at hx'
        cases hx'
        rw [MasterState.nextGeneration, ho, ← hg]
  refine ⟨fun key' => ?_, fun w' node hnode => ?_, fun w' hne => ?_⟩
  · by_cases he : key' = key
    · subst he
      dsimp only
      rw [Finmap.lookup_insert, Finmap.lookup_insert]
      exact ⟨rfl, rfl, rfl, .inl rfl⟩
    · dsimp only
      rw [Finmap.lookup_insert_of_ne _ he, Finmap.lookup_insert_of_ne _ he]
      exact h.keys key'
  · have hn := hrel.nodes w' node hnode
    refine ⟨?_, fun key' g bytes hb => ?_, hn.counted, hn.capacity, hn.wiped⟩
    · obtain ⟨x, hx, hdead⟩ := hn.known
      dsimp only at hx ⊢
      by_cases he : w' = id
      · subst he
        rw [MasterState.releasePrevious_lookup, hw] at hx
        cases hx
        exact ⟨_, Finmap.lookup_insert _, hdead⟩
      · exact ⟨x, (Finmap.lookup_insert_of_ne _ he).trans hx, hdead⟩
    · obtain ⟨x, hx, hle, hval⟩ := hn.stored key' g bytes hb
      dsimp only at hx ⊢
      by_cases he : key' = key
      · subst he
        rw [Finmap.lookup_insert]
        have := hgen x hx
        refine ⟨_, rfl, ?_, fun hg => ?_⟩ <;> simp only [MasterState.granted] at * <;> omega
      · rw [Finmap.lookup_insert_of_ne _ he]
        exact ⟨x, hx, hle, hval⟩
  · refine h.registered w' fun h0 => hne ?_
    have hne' : w' ≠ id := by
      rintro rfl
      rw [hw] at h0
      cases h0
    dsimp only
    rw [Finmap.lookup_insert_of_ne _ hne', MasterState.releasePrevious_lookup, h0]
    rfl

/-- **Writing** the open bytes to their slot. -/
theorem Inv.workerWrite {s : Sim} (h : Inv s) (key : ObjectKey) : Inv (s.workerWrite key) := by
  unfold Sim.workerWrite
  cases hf : s.inflight.lookup key with
  | none => exact h
  | some f =>
      dsimp only
      cases hnode : s.workers.lookup f.worker with
      | none => exact h
      | some node =>
          dsimp only
          split_ifs with hcr
          · exact h
          have hn := h.nodes f.worker node hnode
          refine h.setNode { hn with
            stored := ?_
            counted := hn.counted.putBytes key f.generation f.bytes
            capacity := ?_
            wiped := fun hc => absurd hc hcr }
          · intro key' g bytes hb
            rcases node.store.putBytes_cases key f.generation f.bytes with ⟨msg, hp, _⟩ | ⟨hp, _⟩ <;>
              rw [hp] at hb
            · exact hn.stored key' g bytes hb
            · unfold WorkerStore.stored at hb
              dsimp only at hb
              by_cases he : (key', g) = (key, f.generation)
              · cases he
                rw [Finmap.lookup_insert] at hb
                cases hb
                exact ⟨f, hf, le_rfl, fun _ => rfl⟩
              · rw [Finmap.lookup_insert_of_ne _ he] at hb
                exact hn.stored key' g bytes hb
          · rcases node.store.putBytes_cases key f.generation f.bytes with ⟨msg, hp, _⟩ | ⟨hp, _⟩ <;>
              rw [hp] <;> exact hn.capacity

/-- **Committing**, under any put id: the Master accepts that of the open write only. -/
theorem Inv.commit {s : Sim} (h : Inv s) (key : ObjectKey) (putId : PutId) :
    Inv (s.commit key putId).2 := by
  unfold Sim.commit
  rcases s.master.putCommit_cases ⟨key, putId⟩ with ⟨msg, hp, _⟩ | ⟨obj, ho, _, hid, hp⟩ <;> rw [hp]
  · exact h
  obtain ⟨f, hf, hfid, hgen, hwid, _⟩ := (h.keys key).open ho
  have hf : s.inflight.lookup key = some f := hf
  have he : f.putId = putId := Option.some.inj (hfid.symm.trans hid)
  simp only [hf, he, if_true]
  refine ⟨fun key' => ?_, h.nodes, h.registered⟩
  by_cases hk : key' = key
  · subst hk
    dsimp only
    rw [Finmap.lookup_insert, Finmap.lookup_insert, hf]
    exact ⟨hfid, hgen, hwid, .inr ⟨rfl, rfl⟩⟩
  · dsimp only
    rw [Finmap.lookup_insert_of_ne _ hk, Finmap.lookup_insert_of_ne _ hk]
    exact h.keys key'

theorem Inv.crash {s : Sim} (h : Inv s) (worker : WorkerId) : Inv (s.crash worker) := by
  unfold Sim.crash MasterState.markWorkerDead
  cases hnode : s.workers.lookup worker with
  | none =>
      have hx : s.master.workers.lookup worker = none := by
        by_contra hne
        exact h.registered worker hne hnode
      simp only [hx]
      exact h
  | some node =>
      obtain ⟨x, hx, _⟩ := (h.nodes worker node hnode).known
      simp only [hx]
      refine ⟨h.keys, fun w node' hw => ?_, fun w hne => ?_⟩
      · dsimp only at hw ⊢
        by_cases he : w = worker
        · subst he
          rw [Finmap.lookup_insert] at hw ⊢
          cases hw
          exact { nodeOK_new s.inflight w node.epoch node.capacity true
            (x := { x with status := .dead }) fun _ => rfl with }
        · rw [Finmap.lookup_insert_of_ne _ he] at hw ⊢
          exact h.nodes w node' hw
      · dsimp only at hne ⊢
        by_cases he : w = worker
        · subst he
          rw [Finmap.lookup_insert]
          simp
        · rw [Finmap.lookup_insert_of_ne _ he] at hne ⊢
          exact h.registered w hne

theorem Inv.evict {s : Sim} (h : Inv s) (worker : WorkerId) (key : ObjectKey) (generation : ℕ) :
    Inv (s.evict worker key generation) := by
  unfold Sim.evict
  cases hnode : s.workers.lookup worker with
  | none => exact h
  | some node =>
      have hn := h.nodes worker node hnode
      have hsub : ∀ slot b, (node.store.deleteGeneration key generation).objects.lookup slot = some b →
          node.store.objects.lookup slot = some b := by
        intro slot b hb
        rw [WorkerStore.deleteGeneration_lookup] at hb
        split_ifs at hb
        exact hb
      refine h.setNode { hn with
        stored := fun key' g bytes hb => hn.stored key' g bytes (hsub _ _ hb)
        counted := hn.counted.deleteGeneration key generation
        capacity := ?_
        wiped := fun hc => ?_ }
      · unfold WorkerStore.deleteGeneration
        split <;> exact hn.capacity
      · unfold WorkerStore.deleteGeneration
        rw [hn.wiped hc]
        exact hn.wiped hc

/-- A read changes nothing. -/
theorem eq_of_getAndFetch {s s' : Sim} {d : Draw} {key : ObjectKey}
    (hc : s.apply d (.getAndFetch key) = .ok s') : s' = s := by
  unfold Sim.apply at hc
  dsimp only at hc
  split at hc <;> cases hc
  rfl

/-- **Every call keeps the invariant.** -/
theorem Inv.call {s s' : Sim} {c : Call} (h : Inv s) (hc : s.call c = .ok s') : Inv s' := by
  cases c with
  | advanceClock ms =>
      cases hc
      exact h.advanceClock ms
  | evict worker key generation =>
      cases hc
      exact h.evict worker key generation
  | apply d ev =>
      cases ev with
      | register worker capacity =>
          cases hc
          exact h.registerWorker worker capacity
      | putStart key size =>
          cases hc
          exact h.putStart d key size
      | workerWrite key =>
          cases hc
          exact h.workerWrite key
      | commitLatest key =>
          cases hc
          unfold commitLatest
          split
          · exact h
          · exact h.commit key _
      | commitStale key =>
          cases hc
          unfold commitStale
          split
          · exact h
          · exact h.commit key _
      | getAndFetch key =>
          obtain rfl := eq_of_getAndFetch hc
          exact h
      | crash worker =>
          cases hc
          exact h.crash worker
      | restart worker capacity =>
          cases hc
          exact h.registerWorker worker capacity

end Sim

theorem sim_inv_run {tr : List Sim.Call} {s : Sim} (h : simLts.Run tr s) : s.Inv := by
  refine h.invariant (I := fun _ s => s.Inv) (fun s h => ?_) fun _ _ _ _ _ hI hs => hI.call hs
  obtain rfl := h
  exact Sim.inv_new

/-- **The simulator's check never fails**: after every trace of events, clock advances and evictions,
    whatever was drawn, as long as the clock leaves room for a lease. -/
theorem checkInvariants_run {tr : List Sim.Call} {s : Sim} (h : simLts.Run tr s)
    (hclock : s.clock + leaseTtlMs ≤ u64Max) (leaseId : ObjectKey → LeaseId) :
    s.checkInvariants leaseId = .ok () := (sim_inv_run h).checkInvariants hclock leaseId

/-- A put of `k` is written, committed and read. -/
def simTrace : List Sim.Call :=
  [.apply ⟨["w1"], 7, 1⟩ (.commitLatest "k"), .apply ⟨["w1"], 7, 1⟩ (.workerWrite "k"),
   .advanceClock 500, .apply ⟨["w1"], 7, 1⟩ (.putStart "k" 2),
   .apply ⟨["w1"], 7, 1⟩ (.register "w1" 1024)]

/-- The check at the end of `simTrace`, where the key has a route that is read. -/
theorem checkInvariants_simTrace : ∃ s, simLts.Run simTrace s ∧
    s.getRoute 9 "k" = .ok (some (MasterState.routeTo "k" "w1" "w1" 1 9 1500)) ∧
    s.workerFetch "w1" "k" 1 = some [1, 1] ∧ s.checkInvariants (fun _ => 9) = .ok () := by
  have hrun : simLts.Run simTrace _ :=
    .step (.step (.step (.step (.step (.start rfl) rfl) rfl) rfl) rfl) rfl
  refine ⟨_, hrun, ?_, rfl, checkInvariants_run hrun (by decide) _⟩
  show MasterState.getRoute _ 1500 9 "k" = _
  rfl

end Flour.DistKv
