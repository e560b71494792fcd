/-
  File:      Flour/DistKv/MasterRun.lean
  Subject:   Runs of one Master: the events its operations leave behind, and what one event does
             to the entry of a key and to the entry of a worker.

  * `Event`, `MasterStep`, `masterLts` -- a step is one call with its reply; the UUID drawn and the
    iteration order of `putStart` are arbitrary.
  * `MasterEffect`, `MasterStep.effect` -- the branch that a step took, with its guards.
  * `MasterStep.object` and `MasterStep.worker` are the inversion lemmas: all a step can do to
    one key, all it can do to one worker. Every invariant of the Master is derived from them.
-/
import Flour.DistKv.Master
import Flour.Lib.Run

namespace Flour.DistKv

open Flour.Lib

/-- One call to the Master with its reply. -/
inductive Event where
  | registered (now : ℕ) (workerId : WorkerId) (addr : String) (capacityBytes epoch : ℕ)
  | heartbeat (now : ℕ) (workerId : WorkerId) (epoch : ℕ) (reply : Except String Unit)
  | putStart (now : ℕ) (req : PutStartRequest) (reply : Except String PutStartResponse)
  | putCommit (req : PutCommitRequest) (reply : Except String Unit)
  | getRoute (now : ℕ) (key : ObjectKey) (reply : Except String (Option GetRouteResponse))
  | markedDead (workerId : WorkerId)

/-- One step of the Master. -/
inductive MasterStep : MasterState → Event → MasterState → Prop where
  | registerWorker {m m' : MasterState} {now : ℕ} {workerId : WorkerId} {addr : String}
      {cap epoch : ℕ} (h : m.registerWorker now workerId addr cap = (epoch, m')) :
      MasterStep m (.registered now workerId addr cap epoch) m'
  | heartbeat {m m' : MasterState} {now : ℕ} {workerId : WorkerId} {epoch : ℕ}
      {reply : Except String Unit} (h : m.heartbeat now workerId epoch = (reply, m')) :
      MasterStep m (.heartbeat now workerId epoch reply) m'
  | putStart {m m' : MasterState} {now : ℕ} {order : List WorkerId} {putId : PutId}
      {req : PutStartRequest} {reply : Except String PutStartResponse}
      (h : m.putStart now order putId req = (reply, m')) :
      MasterStep m (.putStart now req reply) m'
  | putCommit {m m' : MasterState} {req : PutCommitRequest} {reply : Except String Unit}
      (h : m.putCommit req = (reply, m')) : MasterStep m (.putCommit req reply) m'
  | getRoute {m : MasterState} {now : ℕ} {leaseId : LeaseId} {key : ObjectKey}
      {reply : Except String (Option GetRouteResponse)} (h : m.getRoute now leaseId key = reply) :
      MasterStep m (.getRoute now key reply) m
  | markWorkerDead {m : MasterState} {workerId : WorkerId} :
      MasterStep m (.markedDead workerId) (m.markWorkerDead workerId)

/-- The Master from its empty state. -/
def masterLts : Lts MasterState Event where
  init m := m = MasterState.new
  step := MasterStep

namespace Event

/-! ## 1. Reading an event -/

/-- The reply of a `putStart` of key `k` that succeeded. -/
def grant (k : ObjectKey) : Event → Option PutStartResponse
  | .putStart _ req (.ok p) => if req.key = k then some p else none
  | _ => none

/-- A `putCommit` of key `k` under put id `id` that succeeded. -/
def Commits (k : ObjectKey) (id : PutId) : Event → Prop
  | .putCommit req (.ok _) => req.key = k ∧ req.putId = id
  | _ => False

/-- A registration of worker `w`. -/
def Registers (w : WorkerId) : Event → Prop
  | .registered _ id _ _ _ => id = w
  | _ => False

/-- The time of a registration or an accepted heartbeat of worker `w`. -/
def beat (w : WorkerId) : Event → Option ℕ
  | .registered now id _ _ _ => if id = w then some now else none
  | .heartbeat now id _ (.ok _) => if id = w then some now else none
  | _ => none

/-- What a registration, an accepted heartbeat or a `markWorkerDead` says about worker `w`. -/
def sign (w : WorkerId) : Event → Option WorkerStatus
  | .registered _ id _ _ _ => if id = w then some .alive else none
  | .heartbeat _ id _ (.ok _) => if id = w then some .alive else none
  | .markedDead id => if id = w then some .dead else none
  | _ => none

end Event

/-! ## 2. All a step can do -/

/-- The branches of the operations: what each one does, and when. -/
inductive MasterEffect (m : MasterState) : Event → MasterState → Prop where
  | registered (now : ℕ) (id : WorkerId) (addr : String) (cap : ℕ) :
      MasterEffect m (.registered now id addr cap (m.registered now id addr cap).epoch)
        { m with workers := m.workers.insert id (m.registered now id addr cap) }
  | heartbeatRefused (now : ℕ) (id : WorkerId) (epoch : ℕ) (msg : String) :
      MasterEffect m (.heartbeat now id epoch (.error msg)) m
  | beaten (now : ℕ) {id : WorkerId} (epoch : ℕ) {w : WorkerMeta}
      (hw : m.workers.lookup id = some w) :
      MasterEffect m (.heartbeat now id epoch (.ok ()))
        { m with workers := m.workers.insert id (WorkerMeta.beaten w now) }
  | startRefused (now : ℕ) (req : PutStartRequest) (msg : String) :
      MasterEffect m (.putStart now req (.error msg))
        { m with workers := m.releasePrevious req.key }
  | started (now : ℕ) (putId : PutId) {req : PutStartRequest} {id : WorkerId} {w : WorkerMeta}
      (hw : m.workers.lookup id = some w)
      (hfit : req.sizeBytes ≤ w.capacityBytes - (w.usedBytes - m.releasedOn req.key id)) :
      MasterEffect m (.putStart now req (.ok (m.granted putId req id w)))
        { workers := (m.releasePrevious req.key).insert id
            (WorkerMeta.recharged w (m.releasedOn req.key id) req.sizeBytes)
          objects := m.objects.insert req.key (m.opened putId req id w) }
  | commitRefused (req : PutCommitRequest) (msg : String) :
      MasterEffect m (.putCommit req (.error msg)) m
  | committed {req : PutCommitRequest} {obj : ObjectMeta}
      (ho : m.objects.lookup req.key = some obj) (hs : obj.state = .writing)
      (hp : obj.putId = some req.putId) :
      MasterEffect m (.putCommit req (.ok ()))
        { m with objects := m.objects.insert req.key { obj with state := .complete } }
  | routed (now : ℕ) (key : ObjectKey) (reply : Except String (Option GetRouteResponse)) :
      MasterEffect m (.getRoute now key reply) m
  | unknownDead {id : WorkerId} (hw : m.workers.lookup id = none) :
      MasterEffect m (.markedDead id) m
  | dead {id : WorkerId} {w : WorkerMeta} (hw : m.workers.lookup id = some w) :
      MasterEffect m (.markedDead id)
        { m with workers := m.workers.insert id { w with status := .dead } }

/-- **Every step is one of these branches.** -/
theorem MasterStep.effect {m m' : MasterState} {e : Event} (h : MasterStep m e m') :
    MasterEffect m e m' := by
  cases h with
  | registerWorker h =>
      cases h
      exact .registered _ _ _ _
  | @heartbeat _ now id epoch _ h =>
      rcases m.heartbeat_cases now id epoch with ⟨msg, h'⟩ | ⟨w, hw, _, h'⟩ <;> cases h'.symm.trans h
      · exact .heartbeatRefused now id epoch msg
      · exact .beaten now epoch hw
  | @putStart _ now order putId req _ h =>
      rcases m.putStart_cases now order putId req with ⟨msg, h'⟩ | ⟨id, w, hw, _, hfit, h'⟩ <;>
        cases h'.symm.trans h
      · exact .startRefused now req msg
      · exact .started now putId hw hfit
  | @putCommit _ req _ h =>
      rcases m.putCommit_cases req with ⟨msg, h', _⟩ | ⟨obj, ho, hs, hp, h'⟩ <;> cases h'.symm.trans h
      · exact .commitRefused req msg
      · exact .committed ho hs hp
  | getRoute h => exact .routed _ _ _
  | @markWorkerDead id =>
      unfold MasterState.markWorkerDead
      cases hw : m.workers.lookup id with
      | none => exact .unknownDead hw
      | some w => exact .dead hw

/-- A worker's entry without its used counter. -/
def WorkerMeta.idle (w : WorkerMeta) : WorkerMeta := { w with usedBytes := 0 }

theorem releasePrevious_idle (m : MasterState) (key : ObjectKey) (w : WorkerId) :
    ((m.releasePrevious key).lookup w).map WorkerMeta.idle =
      (m.workers.lookup w).map WorkerMeta.idle := by
  rw [MasterState.releasePrevious_lookup, Option.map_map]
  rfl

/-- **All a step can do to the entry of key `k`**: leave it; open a new generation; complete the
    generation being written under the committed put id. -/
theorem MasterStep.object {m m' : MasterState} {e : Event} (h : MasterStep m e m')
    (k : ObjectKey) :
    (m'.objects.lookup k = m.objects.lookup k ∧ e.grant k = none ∧ ∀ id, ¬ e.Commits k id) ∨
    (∃ p w obj, e.grant k = some p ∧ (∀ id, ¬ e.Commits k id) ∧
      m.workers.lookup p.workerId = some w ∧ m'.objects.lookup k = some obj ∧
      obj.generation = m.nextGeneration k ∧ obj.state = .writing ∧ obj.putId = some p.putId ∧
      obj.workerId = some p.workerId ∧ obj.workerEpoch = w.epoch ∧
      p.workerAddr = w.addr ∧ p.objectGeneration = m.nextGeneration k) ∨
    (∃ id obj, e.grant k = none ∧ (∀ id', e.Commits k id' ↔ id' = id) ∧
      m.objects.lookup k = some obj ∧ obj.state = .writing ∧ obj.putId = some id ∧
      m'.objects.lookup k = some { obj with state := .complete }) := by
  cases h.effect with
  | registered | heartbeatRefused | beaten | startRefused | commitRefused | routed | unknownDead | dead =>
      exact Or.inl ⟨rfl, rfl, fun _ hc => hc⟩
  | @started _ _ req id w hw =>
      by_cases hk : req.key = k
      · subst hk
        exact Or.inr (Or.inl ⟨_, w, _, if_pos rfl, fun _ hc => hc, hw, Finmap.lookup_insert _,
          rfl, rfl, rfl, rfl, rfl, rfl, rfl⟩)
      · exact Or.inl ⟨Finmap.lookup_insert_of_ne _ (Ne.symm hk), if_neg hk, fun _ hc => hc⟩
  | @committed req obj ho hs hp =>
      by_cases hk : req.key = k
      · subst hk
        exact Or.inr (Or.inr ⟨req.putId, obj, rfl,
          fun id' => ⟨fun hc => hc.2.symm, fun hc => ⟨rfl, hc.symm⟩⟩, ho, hs, hp,
          Finmap.lookup_insert _⟩)
      · exact Or.inl ⟨Finmap.lookup_insert_of_ne _ (Ne.symm hk), rfl, fun _ hc => hk hc.1⟩

/-- **All a step can do to the entry of worker `w`**, its used counter aside: leave it; register
    the worker; refresh it; mark it dead. -/
theorem MasterStep.worker {m m' : MasterState} {e : Event} (h : MasterStep m e m')
    (w : WorkerId) :
    ((m'.workers.lookup w).map WorkerMeta.idle = (m.workers.lookup w).map WorkerMeta.idle ∧
      ¬ e.Registers w ∧ e.beat w = none ∧ (e.sign w = none ∨ m.workers.lookup w = none)) ∨
    (∃ now addr cap, e.Registers w ∧ e.beat w = some now ∧ e.sign w = some .alive ∧
      m'.workers.lookup w = some (m.registered now w addr cap)) ∨
    (∃ x now, ¬ e.Registers w ∧ e.beat w = some now ∧ e.sign w = some .alive ∧
      m.workers.lookup w = some x ∧
      m'.workers.lookup w = some { x with lastHeartbeatMs := now, status := .alive }) ∨
    (∃ x, ¬ e.Registers w ∧ e.beat w = none ∧ e.sign w = some .dead ∧
      m.workers.lookup w = some x ∧ m'.workers.lookup w = some { x with status := .dead }) := by
  cases h.effect with
  | heartbeatRefused | commitRefused | committed | routed =>
      exact Or.inl ⟨rfl, fun hc => hc, rfl, Or.inl rfl⟩
  | registered now id addr cap =>
      by_cases hw : id = w
      · subst hw
        exact Or.inr (Or.inl ⟨now, addr, cap, rfl, if_pos rfl, if_pos rfl,
          Finmap.lookup_insert _⟩)
      · refine Or.inl ⟨?_, hw, if_neg hw, Or.inl (if_neg hw)⟩
        exact congrArg _ (Finmap.lookup_insert_of_ne _ (Ne.symm hw))
  | @beaten now id _ x hx =>
      by_cases hw : id = w
      · subst hw
        exact Or.inr (Or.inr (Or.inl ⟨x, now, fun hc => hc, if_pos rfl, if_pos rfl, hx,
          Finmap.lookup_insert _⟩))
      · refine Or.inl ⟨?_, fun hc => hc, if_neg hw, Or.inl (if_neg hw)⟩
        exact congrArg _ (Finmap.lookup_insert_of_ne _ (Ne.symm hw))
  | startRefused now req =>
      exact Or.inl ⟨releasePrevious_idle m req.key w, fun hc => hc, rfl, Or.inl rfl⟩
  | @started _ _ req id x hx =>
      refine Or.inl ⟨?_, fun hc => hc, rfl, Or.inl rfl⟩
      by_cases hw : id = w
      · subst hw
        simp only [Finmap.lookup_insert, hx]
        rfl
      · simp only [Finmap.lookup_insert_of_ne _ (Ne.symm hw)]
        exact releasePrevious_idle m req.key w
  | @unknownDead id hx =>
      by_cases hw : id = w
      · subst hw
        exact Or.inl ⟨rfl, fun hc => hc, rfl, Or.inr hx⟩
      · exact Or.inl ⟨rfl, fun hc => hc, rfl, Or.inl (if_neg hw)⟩
  | @dead id x hx =>
      by_cases hw : id = w
      · subst hw
        exact Or.inr (Or.inr (Or.inr ⟨x, fun hc => hc, rfl, if_pos rfl, hx,
          Finmap.lookup_insert _⟩))
      · refine Or.inl ⟨?_, fun hc => hc, rfl, Or.inl (if_neg hw)⟩
        exact congrArg _ (Finmap.lookup_insert_of_ne _ (Ne.symm hw))

end Flour.DistKv
