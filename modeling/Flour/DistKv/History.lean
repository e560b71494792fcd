/-
  File:      Flour/DistKv/History.lean
  Subject:   The Master's state as a record of its history: what a route, a generation and a
             commit say about the calls made so far.

  * `latestPut k tr` -- the latest successful `putStart` of `k` and the events since it;
    `lastBeat`, `lastSign` -- the last sign of life of a worker.
  * `Encodes` -- the invariant: every entry of the Master is read off the history. It holds of
    every run (`encodes_run`).
  * `getRoute_iff_history` -- so a route exists exactly when the history says it does.
  * `putStart_numbers`, `putCommit_iff_history` and `commit_discipline` -- generations count the
    grants of a key, and a commit succeeds once, for the latest grant only.
-/
import Flour.DistKv.MasterRun

namespace Flour.DistKv

open Flour.Lib

/-! ## 1. Reading a history -/

/-- The latest successful `putStart` of key `k`, with the events since it. -/
def latestPut (k : ObjectKey) : List Event → Option (List Event × PutStartResponse)
  | [] => none
  | e :: tr =>
    match e.grant k with
    | some p => some ([], p)
    | none => (latestPut k tr).map fun x => (e :: x.1, x.2)

theorem latestPut_cons_some {k : ObjectKey} {e : Event} {p : PutStartResponse}
    (h : e.grant k = some p) (tr : List Event) : latestPut k (e :: tr) = some ([], p) := by
  simp only [latestPut, h]

theorem latestPut_cons_none {k : ObjectKey} {e : Event} (h : e.grant k = none)
    (tr : List Event) :
    latestPut k (e :: tr) = (latestPut k tr).map fun x => (e :: x.1, x.2) := by
  simp only [latestPut, h]

/-- `latestPut` is what it is called: a grant of `k` with no grant of `k` after it. -/
theorem latestPut_eq_some_iff {k : ObjectKey} {tr since : List Event} {p : PutStartResponse} :
    latestPut k tr = some (since, p) ↔ ∃ e older, tr = since ++ e :: older ∧
      e.grant k = some p ∧ ∀ e' ∈ since, e'.grant k = none := by
  induction tr generalizing since with
  | nil => simp [latestPut]
  | cons e tr ih =>
    cases hg : e.grant k with
    | some q =>
      rw [latestPut_cons_some hg]
      constructor
      · rintro h
        cases h
        exact ⟨e, tr, rfl, hg, fun _ h => absurd h List.not_mem_nil⟩
      · rintro ⟨e', older, htr, hg', hs⟩
        cases since with
        | nil =>
          cases htr
          rw [hg] at hg'
          cases hg'
          rfl
        | cons e'' since =>
          cases htr
          rw [hs e List.mem_cons_self] at hg
          cases hg
    | none =>
      rw [latestPut_cons_none hg, Option.map_eq_some_iff]
      constructor
      · rintro ⟨⟨since', q⟩, h, hx⟩
        cases hx
        obtain ⟨e', older, htr, hg', hs⟩ := ih.mp h
        refine ⟨e', older, by rw [htr]; rfl, hg', fun x hx => ?_⟩
        rcases List.mem_cons.mp hx with rfl | hx
        · exact hg
        · exact hs x hx
      · rintro ⟨e', older, htr, hg', hs⟩
        cases since with
        | nil =>
          cases htr
          rw [hg] at hg'
          cases hg'
        | cons e'' since =>
          cases htr
          exact ⟨(since, p), ih.mpr ⟨e', older, rfl, hg',
            fun x hx => hs x (List.mem_cons_of_mem _ hx)⟩, rfl⟩

/-- The time of the last registration or accepted heartbeat of worker `w`. -/
def lastBeat (w : WorkerId) (tr : List Event) : Option ℕ := tr.findSome? (Event.beat w)

/-- What the last registration, accepted heartbeat or `markWorkerDead` of worker `w` says. -/
def lastSign (w : WorkerId) (tr : List Event) : Option WorkerStatus := tr.findSome? (Event.sign w)

/-- The successful `putStart`s of key `k`, newest first. -/
def grants (k : ObjectKey) (tr : List Event) : List PutStartResponse :=
  tr.filterMap (Event.grant k)

/-! ## 2. The state encodes the history -/

/-- What the entry `obj` of key `k` says, when `p` is its latest grant and `since` what came
    after it. -/
structure Placed (m : MasterState) (k : ObjectKey) (since : List Event) (p : PutStartResponse)
    (obj : ObjectMeta) : Prop where
  putId : obj.putId = some p.putId
  workerId : obj.workerId = some p.workerId
  generation : obj.generation = p.objectGeneration
  state : obj.state = .writing ∨ obj.state = .complete
  complete : obj.state = .complete ↔ ∃ e ∈ since, e.Commits k p.putId
  worker : ∃ x, m.workers.lookup p.workerId = some x ∧ obj.workerEpoch ≤ x.epoch ∧
    (x.epoch = obj.workerEpoch ↔ ∀ e ∈ since, ¬ e.Registers p.workerId) ∧
    (x.epoch = obj.workerEpoch → x.addr = p.workerAddr)

/-- **The invariant**: every entry of the Master is read off the history. -/
structure Encodes (tr : List Event) (m : MasterState) : Prop where
  absent : ∀ k, m.objects.lookup k = none → latestPut k tr = none
  put : ∀ k obj, m.objects.lookup k = some obj →
    ∃ since p, latestPut k tr = some (since, p) ∧ Placed m k since p obj
  worker : ∀ w x, m.workers.lookup w = some x →
    lastBeat w tr = some x.lastHeartbeatMs ∧ lastSign w tr = some x.status
  count : ∀ k, m.nextGeneration k = (grants k tr).length + 1

theorem encodes_new : Encodes [] MasterState.new where
  absent _ _ := rfl
  put _ _ h := by cases h
  worker _ _ h := by cases h
  count _ := rfl

theorem idle_eq {o : Option WorkerMeta} {x : WorkerMeta}
    (h : o.map WorkerMeta.idle = some x.idle) : ∃ y, o = some y ∧ y.addr = x.addr ∧
      y.epoch = x.epoch ∧ y.lastHeartbeatMs = x.lastHeartbeatMs ∧ y.status = x.status := by
  obtain ⟨y, hy, he⟩ := Option.map_eq_some_iff.mp h
  simp only [WorkerMeta.idle, WorkerMeta.mk.injEq] at he
  exact ⟨y, hy, he.1, he.2.2.2.1, he.2.2.2.2.1, he.2.2.2.2.2⟩

/-- The worker's part of `Placed` over one step. -/
theorem placed_worker_step {m m' : MasterState} {e : Event} (h : MasterStep m e m')
    {since : List Event} {w : WorkerId} {epoch : ℕ} {addr : String}
    (hw : ∃ x, m.workers.lookup w = some x ∧ epoch ≤ x.epoch ∧
      (x.epoch = epoch ↔ ∀ e ∈ since, ¬ e.Registers w) ∧ (x.epoch = epoch → x.addr = addr)) :
    ∃ x, m'.workers.lookup w = some x ∧ epoch ≤ x.epoch ∧
      (x.epoch = epoch ↔ ∀ e' ∈ e :: since, ¬ e'.Registers w) ∧
      (x.epoch = epoch → x.addr = addr) := by
  obtain ⟨x, hx, hle, hiff, haddr⟩ := hw
  rcases h.worker w with ⟨hi, hr, _, _⟩ | ⟨now, a, cap, hr, _, _, hl⟩ | ⟨y, now, hr, _, _, hy, hl⟩ |
    ⟨y, hr, _, _, hy, hl⟩
  · rw [hx] at hi
    obtain ⟨y, hy, h1, h2, _, _⟩ := idle_eq hi
    refine ⟨y, hy, by rw [h2]; exact hle, ?_, fun he => by rw [h1]; exact haddr (h2 ▸ he)⟩
    rw [h2, List.forall_mem_cons]
    exact ⟨fun he => ⟨hr, hiff.mp he⟩, fun he => hiff.mpr he.2⟩
  · have he := MasterState.registered_epoch_of_some m now w a cap hx
    refine ⟨_, hl, by omega, ?_, fun h => by omega⟩
    rw [List.forall_mem_cons]
    exact ⟨fun h => by omega, fun h => absurd hr h.1⟩
  · rw [hx] at hy
    cases hy
    refine ⟨_, hl, hle, ?_, haddr⟩
    rw [List.forall_mem_cons]
    exact ⟨fun he => ⟨hr, hiff.mp he⟩, fun he => hiff.mpr he.2⟩
  · rw [hx] at hy
    cases hy
    refine ⟨_, hl, hle, ?_, haddr⟩
    rw [List.forall_mem_cons]
    exact ⟨fun he => ⟨hr, hiff.mp he⟩, fun he => hiff.mpr he.2⟩

theorem nextGeneration_of_some {m : MasterState} {k : ObjectKey} {obj : ObjectMeta}
    (h : m.objects.lookup k = some obj) : m.nextGeneration k = obj.generation + 1 := by
  simp only [MasterState.nextGeneration, h]

theorem nextGeneration_congr {m m' : MasterState} {k : ObjectKey}
    (h : m'.objects.lookup k = m.objects.lookup k) : m'.nextGeneration k = m.nextGeneration k := by
  simp only [MasterState.nextGeneration, h]

/-- The worker's part of `Placed` right after a grant: the grant itself registers nobody, so the
    worker it found is still the one it found. -/
theorem placed_worker_granted {m m' : MasterState} {e : Event} (h : MasterStep m e m')
    {k : ObjectKey} {p : PutStartResponse} (hg : e.grant k = some p) {w : WorkerMeta}
    (hw : m.workers.lookup p.workerId = some w) :
    ∃ x, m'.workers.lookup p.workerId = some x ∧ w.epoch ≤ x.epoch ∧
      (x.epoch = w.epoch ↔ ∀ e ∈ ([] : List Event), ¬ e.Registers p.workerId) ∧
      (x.epoch = w.epoch → x.addr = w.addr) := by
  have hr : ¬ e.Registers p.workerId := by
    cases h <;> first | exact fun hx => hx | (simp only [Event.grant] at hg; cases hg)
  have hnone : ∀ e ∈ ([] : List Event), ¬ e.Registers p.workerId :=
    fun _ he => absurd he List.not_mem_nil
  obtain ⟨x, hx, hle, hiff, haddr⟩ := placed_worker_step h
    ⟨w, hw, Nat.le_refl _, ⟨fun _ => hnone, fun _ => rfl⟩, fun _ => rfl⟩
  refine ⟨x, hx, hle, ⟨fun _ => hnone, fun _ => hiff.mpr ?_⟩, haddr⟩
  exact List.forall_mem_cons.mpr ⟨hr, hnone⟩

section Step

variable {tr : List Event} {m m' : MasterState} {e : Event}

/-- The entries after a step. -/
theorem Encodes.put_step (hI : Encodes tr m) (h : MasterStep m e m') {k : ObjectKey}
    {obj' : ObjectMeta} (hk : m'.objects.lookup k = some obj') :
    ∃ since p, latestPut k (e :: tr) = some (since, p) ∧ Placed m' k since p obj' := by
  rcases h.object k with ⟨ho, hg, hc⟩ | ⟨p, w, obj, hg, _, hw, ho, h1, h2, h3, h4, h5, h6, h7⟩ |
    ⟨id, obj, hg, hc, ho, hs, hp, ho'⟩
  · obtain ⟨since, p, hl, hP⟩ := hI.put k obj' (ho ▸ hk)
    refine ⟨e :: since, p, by rw [latestPut_cons_none hg, hl]; rfl, ?_⟩
    refine ⟨hP.putId, hP.workerId, hP.generation, hP.state, ?_, placed_worker_step h hP.worker⟩
    rw [hP.complete, List.exists_mem_cons_iff]
    exact ⟨Or.inr, fun hx => hx.resolve_left (hc _)⟩
  · rw [ho] at hk
    cases hk
    refine ⟨[], p, latestPut_cons_some hg tr, h3, h4, by rw [h1, h7], Or.inl h2, ?_, ?_⟩
    · rw [h2]
      exact ⟨fun hx => (by cases hx), fun hx => by
        obtain ⟨_, hmem, _⟩ := hx
        exact absurd hmem List.not_mem_nil⟩
    · rw [h5, h6]
      exact placed_worker_granted h hg hw
  · rw [ho'] at hk
    cases hk
    obtain ⟨since, p, hl, hP⟩ := hI.put k obj ho
    refine ⟨e :: since, p, by rw [latestPut_cons_none hg, hl]; rfl, ?_⟩
    refine ⟨hP.putId, hP.workerId, hP.generation, Or.inr rfl, ?_, placed_worker_step h hP.worker⟩
    have hid : p.putId = id := (Option.some.inj (hp.symm.trans hP.putId)).symm
    rw [List.exists_mem_cons_iff]
    exact ⟨fun _ => Or.inl ((hc _).mpr hid), fun _ => rfl⟩

/-- The workers after a step. -/
theorem Encodes.worker_step (hI : Encodes tr m) (h : MasterStep m e m') {w : WorkerId}
    {x : WorkerMeta} (hx : m'.workers.lookup w = some x) :
    lastBeat w (e :: tr) = some x.lastHeartbeatMs ∧ lastSign w (e :: tr) = some x.status := by
  unfold lastBeat lastSign
  rcases h.worker w with ⟨hi, _, hb, hs⟩ | ⟨now, a, cap, _, hb, hs, hl⟩ |
    ⟨y, now, _, hb, hs, hy, hl⟩ | ⟨y, _, hb, hs, hy, hl⟩
  · rw [hx] at hi
    obtain ⟨y, hy, _, _, h1, h2⟩ := idle_eq (o := m.workers.lookup w) hi.symm
    obtain ⟨ih1, ih2⟩ := hI.worker w y hy
    have hs' : e.sign w = none := hs.resolve_right fun hn => by rw [hy] at hn; cases hn
    rw [List.findSome?_cons, List.findSome?_cons, hb, hs', ← h1, ← h2]
    exact ⟨ih1, ih2⟩
  · rw [hl] at hx
    cases hx
    rw [List.findSome?_cons, List.findSome?_cons, hb, hs]
    exact ⟨by simp, by simp⟩
  · rw [hl] at hx
    cases hx
    rw [List.findSome?_cons, List.findSome?_cons, hb, hs]
    exact ⟨rfl, rfl⟩
  · rw [hl] at hx
    cases hx
    rw [List.findSome?_cons, List.findSome?_cons, hb, hs]
    exact ⟨(hI.worker w y hy).1, rfl⟩

/-- **One step keeps the invariant.** -/
theorem encodes_step (hI : Encodes tr m) (h : MasterStep m e m') : Encodes (e :: tr) m' where
  absent k hk := by
    rcases h.object k with ⟨ho, hg, _⟩ | ⟨p, w, obj, _, _, _, ho, _⟩ | ⟨id, obj, _, _, _, _, _, ho⟩
    · rw [latestPut_cons_none hg, hI.absent k (ho ▸ hk)]
      rfl
    · rw [ho] at hk
      cases hk
    · rw [ho] at hk
      cases hk
  put _ _ hk := hI.put_step h hk
  worker _ _ hx := hI.worker_step h hx
  count k := by
    rcases h.object k with ⟨ho, hg, _⟩ | ⟨p, w, obj, hg, _, _, ho, h1, _⟩ |
      ⟨id, obj, hg, _, ho, _, _, ho'⟩
    · rw [nextGeneration_congr ho, hI.count k, grants, grants, List.filterMap_cons_none hg]
    · rw [nextGeneration_of_some ho, h1, hI.count k, grants, grants,
        List.filterMap_cons_some hg, List.length_cons]
    · rw [nextGeneration_of_some ho', grants, List.filterMap_cons_none hg]
      exact (nextGeneration_of_some ho).symm.trans (hI.count k)

end Step

/-- **The state encodes the history in every run.** -/
theorem encodes_run {tr : List Event} {m : MasterState} (h : masterLts.Run tr m) :
    Encodes tr m :=
  h.invariant (I := Encodes)
    (fun m (h0 : m = MasterState.new) => by rw [h0]; exact encodes_new)
    fun _ _ _ _ _ hI hs => encodes_step hI hs

/-! ## 3. Routes -/

/-- What the history must say for key `k` to be routed at time `t` as its put `p` was placed. -/
structure Routable (tr : List Event) (t : ℕ) (k : ObjectKey) (p : PutStartResponse) : Prop where
  /-- `p` is the latest successful `putStart` of `k`; since then it was committed under its own
      put id, and its worker was not registered again. -/
  latest : ∃ since, latestPut k tr = some (since, p) ∧ (∃ e ∈ since, e.Commits k p.putId) ∧
    ∀ e ∈ since, ¬ e.Registers p.workerId
  /-- The last sign of life of the worker is not a `markWorkerDead`. -/
  notDead : lastSign p.workerId tr ≠ some .dead
  /-- Its last registration or accepted heartbeat is not too long ago. -/
  recent : ∃ b, lastBeat p.workerId tr = some b ∧ t - b ≤ heartbeatTimeoutMs

theorem workerIsAlive_iff (w : WorkerMeta) (now : ℕ) :
    MasterState.workerIsAlive w now = true ↔
      w.status = .alive ∧ now - w.lastHeartbeatMs ≤ heartbeatTimeoutMs := by
  simp [MasterState.workerIsAlive]

/-- **Routes are characterised by history.** In every run of the Master, at every time below the
    clock bound: the routes of `k` are exactly those of its latest put, committed since under its
    own id, on a worker not registered since, not marked dead last, and heard of recently. -/
theorem getRoute_iff_history {tr : List Event} {m : MasterState} (h : masterLts.Run tr m)
    (k : ObjectKey) (leaseId : LeaseId) (t : ℕ) (ht : t < u64Max - leaseTtlMs)
    (r : GetRouteResponse) :
    m.getRoute t leaseId k = .ok (some r) ↔ ∃ p, Routable tr t k p ∧
      r = MasterState.routeTo k p.workerId p.workerAddr p.objectGeneration leaseId t := by
  have hE := encodes_run h
  rw [MasterState.getRoute_eq_some_iff]
  constructor
  · rintro ⟨obj, workerId, w, ho, hs, hid, hw, ha, he, _, rfl⟩
    obtain ⟨since, p, hl, hP⟩ := hE.put k obj ho
    have hid' : workerId = p.workerId := by
      have := hP.workerId
      rw [hid] at this
      exact Option.some.inj this
    subst hid'
    obtain ⟨x, hx, _, hiff, haddr⟩ := hP.worker
    rw [hw] at hx
    cases hx
    obtain ⟨hb, hsg⟩ := hE.worker _ w hw
    obtain ⟨hst, hrec⟩ := (workerIsAlive_iff w t).mp ha
    refine ⟨p, ⟨⟨since, hl, hP.complete.mp hs, hiff.mp he⟩, ?_, _, hb, hrec⟩, ?_⟩
    · rw [hsg, hst]
      decide
    · rw [haddr he, hP.generation]
  · rintro ⟨p, ⟨⟨since, hl, hc, hr⟩, hd, b, hb, hrec⟩, rfl⟩
    cases ho : m.objects.lookup k with
    | none =>
      rw [hE.absent k ho] at hl
      cases hl
    | some obj =>
      obtain ⟨since', p', hl', hP⟩ := hE.put k obj ho
      rw [hl] at hl'
      cases hl'
      obtain ⟨x, hx, _, hiff, haddr⟩ := hP.worker
      obtain ⟨hb', hsg⟩ := hE.worker _ x hx
      have he := hiff.mpr hr
      have hst : x.status = .alive := by
        cases hst : x.status with
        | alive => rfl
        | dead => exact absurd (by rw [hsg, hst]) hd
      have hbb : b = x.lastHeartbeatMs := Option.some.inj (hb.symm.trans hb')
      refine ⟨obj, p.workerId, x, rfl, hP.complete.mpr hc, hP.workerId, hx, ?_, he, ?_, ?_⟩
      · exact (workerIsAlive_iff x t).mpr ⟨hst, by rw [← hbb]; exact hrec⟩
      · have : leaseTtlMs ≤ u64Max := by decide
        omega
      · rw [haddr he, hP.generation]

/-- One worker, one put of `k`, committed: the events, newest first. -/
def onePutTrace : List Event :=
  [.putCommit ⟨"k", 7⟩ (.ok ()), .putStart 1000 ⟨"k", 128, none⟩ (.ok ⟨7, "w1", "http://w1", 1⟩),
   .registered 1000 "w1" "http://w1" 1024 1]

/-- The Master after `onePutTrace`. -/
def onePutMaster : MasterState :=
  ((((MasterState.new.registerWorker 1000 "w1" "http://w1" 1024).2).putStart 1000 ["w1"] 7
    ⟨"k", 128, none⟩).2.putCommit ⟨"k", 7⟩).2

theorem onePut_run : masterLts.Run onePutTrace onePutMaster :=
  .step (.step (.step (.start rfl) (.registerWorker rfl))
    (@MasterStep.putStart _ _ 1000 ["w1"] 7 _ _ rfl)) (.putCommit rfl)

/-- The committed put is routed, and the history says so. -/
theorem onePut_routed :
    ∃ p, Routable onePutTrace 1500 "k" p ∧ MasterState.routeTo "k" "w1" "http://w1" 1 9 1500 =
      MasterState.routeTo "k" p.workerId p.workerAddr p.objectGeneration 9 1500 :=
  (getRoute_iff_history onePut_run "k" 9 1500 (by decide) _).mp rfl

/-! ## 4. Generations and commits -/

/-- The put ids granted so far, newest first. -/
def putIds (tr : List Event) : List PutId :=
  tr.filterMap fun
    | .putStart _ _ (.ok p) => some p.putId
    | _ => none

/-- The (key, generation) pairs granted so far, newest first. -/
def grantedSlots (tr : List Event) : List (ObjectKey × ℕ) :=
  tr.filterMap fun
    | .putStart _ req (.ok p) => some (req.key, p.objectGeneration)
    | _ => none

theorem putIds_of_grant {e : Event} {k : ObjectKey} {p : PutStartResponse}
    (h : e.grant k = some p) (tr : List Event) : putIds (e :: tr) = p.putId :: putIds tr := by
  unfold Event.grant at h
  split at h
  · split_ifs at h
    cases h
    rfl
  · cases h

/-- A granted slot is below the next generation of its key, and slots are granted once. -/
theorem grantedSlots_run {tr : List Event} {m : MasterState} (h : masterLts.Run tr m) :
    (∀ s ∈ grantedSlots tr, s.2 < m.nextGeneration s.1) ∧ (grantedSlots tr).Nodup := by
  refine h.invariant (I := fun tr m =>
    (∀ s ∈ grantedSlots tr, s.2 < m.nextGeneration s.1) ∧ (grantedSlots tr).Nodup)
    (fun _ _ => ⟨fun _ h => absurd h List.not_mem_nil, List.nodup_nil⟩) ?_
  rintro tr m e m' - ⟨hlt, hnd⟩ hs
  have hmono : ∀ k, m.nextGeneration k ≤ m'.nextGeneration k := by
    intro k
    rcases hs.object k with ⟨ho, _⟩ | ⟨p, w, obj, _, _, _, ho, h1, _⟩ |
      ⟨id, obj, _, _, ho, _, _, ho'⟩
    · exact Nat.le_of_eq (nextGeneration_congr ho).symm
    · rw [nextGeneration_of_some ho, h1]
      exact Nat.le_succ _
    · rw [nextGeneration_of_some ho, nextGeneration_of_some ho']
  by_cases hg : ∃ now req p, e = .putStart now req (.ok p)
  · obtain ⟨now, req, p, rfl⟩ := hg
    have hslots : grantedSlots (.putStart now req (.ok p) :: tr) =
        (req.key, p.objectGeneration) :: grantedSlots tr := rfl
    rcases hs.object req.key with ⟨_, hg, _⟩ | ⟨q, w, obj, hg, _, _, ho, h1, _, _, _, _, _, h2⟩ |
      ⟨id, obj, hg, _⟩
    · simp [Event.grant] at hg
    · have hq : q = p := by simpa [Event.grant] using hg.symm
      subst hq
      have hnext : m'.nextGeneration req.key = q.objectGeneration + 1 := by
        rw [nextGeneration_of_some ho, h1, h2]
      rw [hslots, List.nodup_cons]
      refine ⟨fun s hsm => ?_, fun hm => ?_, hnd⟩
      · rcases List.mem_cons.mp hsm with rfl | hsm
        · rw [hnext]
          exact Nat.lt_succ_self _
        · exact Nat.lt_of_lt_of_le (hlt s hsm) (hmono _)
      · have := hlt _ hm
        rw [h2] at this
        exact absurd this (Nat.lt_irrefl _)
    · simp [Event.grant] at hg
  · have hslots : grantedSlots (e :: tr) = grantedSlots tr := by
      unfold grantedSlots
      refine List.filterMap_cons_none ?_
      split
      · rename_i now req p
        exact absurd ⟨now, req, p, rfl⟩ hg
      · rfl
    rw [hslots]
    exact ⟨fun s hsm => Nat.lt_of_lt_of_le (hlt s hsm) (hmono _), hnd⟩

/-- With fresh put ids: an entry's id was granted, no two entries share one, and an id that was
    committed belongs to no entry still being written. -/
structure IdsOwned (tr : List Event) (m : MasterState) : Prop where
  own : ∀ k obj, m.objects.lookup k = some obj → ∃ id ∈ putIds tr, obj.putId = some id
  inj : ∀ k k' obj obj', m.objects.lookup k = some obj → m.objects.lookup k' = some obj' →
    obj.putId = obj'.putId → k = k'
  spent : ∀ e ∈ tr, ∀ k id, e.Commits k id → id ∈ putIds tr ∧
    ∀ k' obj, m.objects.lookup k' = some obj → obj.putId = some id → obj.state = .complete

theorem putIds_suffix (e : Event) (tr : List Event) : putIds tr <:+ putIds (e :: tr) := by
  unfold putIds
  rw [List.filterMap_cons]
  split
  · exact List.suffix_refl _
  · exact List.suffix_cons _ _

/-- A grant's id is new when ids are fresh. -/
theorem grant_fresh {e : Event} {k : ObjectKey} {p : PutStartResponse} {tr : List Event}
    (h : e.grant k = some p) (hfresh : (putIds (e :: tr)).Nodup) : p.putId ∉ putIds tr := by
  rw [putIds_of_grant h] at hfresh
  exact (List.nodup_cons.mp hfresh).1

/-- A step that grants `k` opens `k` only: every other entry stays, and it commits nothing. -/
theorem MasterStep.of_grant {m m' : MasterState} {e : Event} (h : MasterStep m e m')
    {k : ObjectKey} {p : PutStartResponse} (hg : e.grant k = some p) :
    (∃ obj, m'.objects.lookup k = some obj ∧ obj.putId = some p.putId) ∧
      (∀ k', k' ≠ k → m'.objects.lookup k' = m.objects.lookup k') ∧ ∀ k' id, ¬ e.Commits k' id := by
  unfold Event.grant at hg
  split at hg
  rotate_left
  · cases hg
  rename_i now req q
  split_ifs at hg with hk
  cases hg
  refine ⟨?_, fun k' hk' => ?_, fun _ _ hc => hc⟩
  · rcases h.object k with ⟨_, hn, _⟩ | ⟨q, _, obj, hg, _, _, ho, _, _, hp, _⟩ | ⟨_, _, hn, _⟩
    · simp [Event.grant, hk] at hn
    · have hq : q = p := by simpa [Event.grant, hk] using hg.symm
      exact ⟨obj, ho, hq ▸ hp⟩
    · simp [Event.grant, hk] at hn
  · rcases h.object k' with ⟨ho, _⟩ | ⟨q, _, obj, hg, _⟩ | ⟨id, _, _, hc, _⟩
    · exact ho
    · have : req.key = k' := by
        by_contra hne
        simp [Event.grant, hne] at hg
      exact absurd (this.symm.trans hk) hk'
    · exact absurd ((hc id).mpr rfl) (fun hc => hc)

/-- A step that commits keeps every entry but for the state of the one it commits. -/
theorem MasterStep.of_commit {m m' : MasterState} {e : Event} (h : MasterStep m e m')
    {k : ObjectKey} {id : PutId} (hc : e.Commits k id) :
    (∃ obj, m.objects.lookup k = some obj ∧ obj.putId = some id ∧
      m'.objects.lookup k = some { obj with state := .complete }) ∧
      ∀ k', k' ≠ k → m'.objects.lookup k' = m.objects.lookup k' := by
  refine ⟨?_, fun k' hk' => ?_⟩
  · rcases h.object k with ⟨_, _, hn⟩ | ⟨_, _, _, _, hn, _⟩ | ⟨id', obj, _, hid, ho, _, hp, ho'⟩
    · exact absurd hc (hn id)
    · exact absurd hc (hn id)
    · exact ⟨obj, ho, by rw [hp, (hid id).mp hc], ho'⟩
  · unfold Event.Commits at hc
    split at hc
    rotate_left
    · exact hc.elim
    rcases h.object k' with ⟨ho, _⟩ | ⟨_, _, _, hg, _⟩ | ⟨id', _, _, hid, _⟩
    · exact ho
    · cases hg
    · exact absurd (((hid id').mpr rfl).1.symm.trans hc.1) hk'

/-- A grant gives one entry a new put id. -/
theorem idsOwned_of_grant {tr : List Event} {m m' : MasterState} {e : Event} (hI : IdsOwned tr m)
    (h : MasterStep m e m') (hfresh : (putIds (e :: tr)).Nodup) {k : ObjectKey}
    {p : PutStartResponse} (hg : e.grant k = some p) : IdsOwned (e :: tr) m' := by
  have hsub : ∀ id ∈ putIds tr, id ∈ putIds (e :: tr) := fun id hid =>
    (putIds_suffix e tr).subset hid
  obtain ⟨⟨obj₀, ho₀, hp₀⟩, hoth, hnc⟩ := h.of_grant hg
  have hnew := grant_fresh hg hfresh
  have hmem : p.putId ∈ putIds (e :: tr) := by rw [putIds_of_grant hg]; exact List.mem_cons_self
  -- an old entry's id is not the new one
  have hold : ∀ k' obj, k' ≠ k → m'.objects.lookup k' = some obj → obj.putId ≠ some p.putId := by
    intro k' obj hk' ho hp
    rw [hoth k' hk'] at ho
    obtain ⟨id, hid, hp'⟩ := hI.own k' obj ho
    rw [hp] at hp'
    exact hnew (Option.some.inj hp' ▸ hid)
  refine ⟨fun k' obj ho => ?_, fun k₁ k₂ o₁ o₂ h₁ h₂ hp => ?_, fun e' he' k₁ id hc => ?_⟩
  · by_cases hk : k' = k
    · subst hk
      rw [ho₀] at ho
      cases ho
      exact ⟨_, hmem, hp₀⟩
    · obtain ⟨id, hid, hp⟩ := hI.own k' obj (hoth k' hk ▸ ho)
      exact ⟨id, hsub id hid, hp⟩
  · by_cases hk₁ : k₁ = k <;> by_cases hk₂ : k₂ = k
    · rw [hk₁, hk₂]
    · subst hk₁
      rw [ho₀] at h₁
      cases h₁
      exact absurd (hp ▸ hp₀) (hold k₂ o₂ hk₂ h₂)
    · subst hk₂
      rw [ho₀] at h₂
      cases h₂
      exact absurd (hp ▸ hp₀) (hold k₁ o₁ hk₁ h₁)
    · exact hI.inj k₁ k₂ o₁ o₂ (hoth k₁ hk₁ ▸ h₁) (hoth k₂ hk₂ ▸ h₂) hp
  · rcases List.mem_cons.mp he' with rfl | he'
    · exact absurd hc (hnc k₁ id)
    · obtain ⟨hid, hsp⟩ := hI.spent e' he' k₁ id hc
      refine ⟨hsub id hid, fun k' obj ho hp => ?_⟩
      by_cases hk : k' = k
      · subst hk
        rw [ho₀] at ho
        cases ho
        rw [hp₀] at hp
        exact absurd (Option.some.inj hp ▸ hid) hnew
      · exact hsp k' obj (hoth k' hk ▸ ho) hp

/-- Without a grant every entry keeps its id, and what is complete stays so. -/
theorem idsOwned_of_no_grant {tr : List Event} {m m' : MasterState} {e : Event} (hI : IdsOwned tr m)
    (h : MasterStep m e m') (hgr : ¬ ∃ k p, e.grant k = some p) : IdsOwned (e :: tr) m' := by
  have hsub : ∀ id ∈ putIds tr, id ∈ putIds (e :: tr) := fun id hid =>
    (putIds_suffix e tr).subset hid
  have hkeep : ∀ k obj', m'.objects.lookup k = some obj' → ∃ obj, m.objects.lookup k = some obj ∧
      obj'.putId = obj.putId ∧ (obj.state = .complete → obj'.state = .complete) := by
    intro k obj' ho'
    rcases h.object k with ⟨ho, _⟩ | ⟨p, _, _, hg, _⟩ | ⟨id, obj, _, _, ho, _, _, hc'⟩
    · exact ⟨obj', ho ▸ ho', rfl, id⟩
    · exact absurd ⟨k, p, hg⟩ hgr
    · rw [hc'] at ho'
      cases ho'
      exact ⟨obj, ho, rfl, fun _ => rfl⟩
  refine ⟨fun k obj ho => ?_, fun k₁ k₂ o₁ o₂ h₁ h₂ hp => ?_, fun e' he' k₁ id hc => ?_⟩
  · obtain ⟨obj₀, ho₀, hp₀, _⟩ := hkeep k obj ho
    obtain ⟨id, hid, hp⟩ := hI.own k obj₀ ho₀
    exact ⟨id, hsub id hid, hp₀.trans hp⟩
  · obtain ⟨p₁, h₁', hp₁, _⟩ := hkeep k₁ o₁ h₁
    obtain ⟨p₂, h₂', hp₂, _⟩ := hkeep k₂ o₂ h₂
    exact hI.inj k₁ k₂ p₁ p₂ h₁' h₂' (by rw [← hp₁, ← hp₂, hp])
  · rcases List.mem_cons.mp he' with rfl | he'
    · obtain ⟨⟨obj₀, ho₀, hp₀, ho₀'⟩, hoth⟩ := h.of_commit hc
      obtain ⟨id', hid', hp'⟩ := hI.own k₁ obj₀ ho₀
      have hid : id = id' := by rw [hp₀] at hp'; exact Option.some.inj hp'
      refine ⟨hsub id (hid ▸ hid'), fun k' obj ho hp => ?_⟩
      obtain ⟨o, ho', hpo, _⟩ := hkeep k' obj ho
      have hk : k' = k₁ := hI.inj k' k₁ o obj₀ ho' ho₀ (by rw [← hpo, hp, hp₀])
      subst hk
      rw [ho₀'] at ho
      cases ho
      rfl
    · obtain ⟨hid, hsp⟩ := hI.spent e' he' k₁ id hc
      refine ⟨hsub id hid, fun k' obj ho hp => ?_⟩
      obtain ⟨o, ho', hpo, hst⟩ := hkeep k' obj ho
      exact hst (hsp k' o ho' (hpo ▸ hp))

theorem idsOwned_step {tr : List Event} {m m' : MasterState} {e : Event} (hI : IdsOwned tr m)
    (h : MasterStep m e m') (hfresh : (putIds (e :: tr)).Nodup) : IdsOwned (e :: tr) m' := by
  by_cases hgr : ∃ k p, e.grant k = some p
  · obtain ⟨k, p, hg⟩ := hgr
    exact idsOwned_of_grant hI h hfresh hg
  · exact idsOwned_of_no_grant hI h hgr

theorem idsOwned_run {tr : List Event} {m : MasterState} (h : masterLts.Run tr m)
    (hfresh : (putIds tr).Nodup) : IdsOwned tr m := by
  induction h with
  | start h0 =>
    have h0 : _ = MasterState.new := h0
    subst h0
    exact ⟨fun _ _ h => (by cases h), fun _ _ _ _ h => (by cases h),
      fun _ h => absurd h List.not_mem_nil⟩
  | step h hs ih =>
    exact idsOwned_step (ih ((putIds_suffix _ _).sublist.nodup hfresh)) hs hfresh

/-- **Generations count the grants of a key.** -/
theorem putStart_numbers {tr : List Event} {m m' : MasterState} (h : masterLts.Run tr m)
    {now : ℕ} {req : PutStartRequest} {p : PutStartResponse}
    (hs : MasterStep m (.putStart now req (.ok p)) m') :
    p.objectGeneration = (grants req.key tr).length + 1 := by
  rw [← (encodes_run h).count]
  rcases hs.object req.key with ⟨_, hg, _⟩ | ⟨q, _, _, hg, _, _, _, _, _, _, _, _, _, h2⟩ |
    ⟨_, _, hg, _⟩
  · simp [Event.grant] at hg
  · have hq : q = p := by simpa [Event.grant] using hg.symm
    rw [← hq, h2]
  · simp [Event.grant] at hg

/-- **When a commit succeeds**: under the id of the latest grant of its key, once. -/
theorem putCommit_iff_history {tr : List Event} {m : MasterState} (h : masterLts.Run tr m)
    (hfresh : (putIds tr).Nodup) (req : PutCommitRequest) :
    (m.putCommit req).1 = .ok () ↔
      (∃ since p, latestPut req.key tr = some (since, p) ∧ p.putId = req.putId) ∧
        ∀ e ∈ tr, ∀ k, ¬ e.Commits k req.putId := by
  have hE := encodes_run h
  rcases m.putCommit_cases req with ⟨msg, h', hbad⟩ | ⟨obj, ho, hs, hp, h'⟩
  · rw [h']
    refine ⟨fun hx => (by cases hx), ?_⟩
    rintro ⟨⟨since, p, hl, hid⟩, hno⟩
    exfalso
    cases ho : m.objects.lookup req.key with
    | none =>
      rw [hE.absent _ ho] at hl
      cases hl
    | some obj =>
      obtain ⟨since', p', hl', hP⟩ := hE.put _ obj ho
      rw [hl] at hl'
      cases hl'
      rcases hbad obj ho with hst | hpid
      · obtain ⟨e, he, hc⟩ := hP.complete.mp (hP.state.resolve_left hst)
        obtain ⟨e', older, htr, _, _⟩ := latestPut_eq_some_iff.mp hl
        exact hno e (by rw [htr]; exact List.mem_append_left _ he) req.key (hid ▸ hc)
      · exact hpid (by rw [hP.putId, hid])
  · rw [h']
    refine ⟨fun _ => ?_, fun _ => rfl⟩
    obtain ⟨since, p, hl, hP⟩ := hE.put _ obj ho
    have hid : p.putId = req.putId := by
      have := hP.putId
      rw [hp] at this
      exact (Option.some.inj this).symm
    refine ⟨⟨since, p, hl, hid⟩, fun e he k hc => ?_⟩
    have hx := ((idsOwned_run h hfresh).spent e he k _ hc).2 _ obj ho hp
    rw [hs] at hx
    cases hx

/-- **Commit discipline and generation numbering.** In every run of one Master with fresh put ids:
    the `n`-th grant of a key gets generation `n`, no slot is granted twice, a commit succeeds
    exactly under the id of its key's latest grant and once, and a failed one changes nothing. -/
theorem commit_discipline {tr : List Event} {m : MasterState} (h : masterLts.Run tr m)
    (hfresh : (putIds tr).Nodup) :
    (∀ now req p m', MasterStep m (.putStart now req (.ok p)) m' →
      p.objectGeneration = (grants req.key tr).length + 1) ∧
    (grantedSlots tr).Nodup ∧
    (∀ req : PutCommitRequest, (m.putCommit req).1 = .ok () ↔
      (∃ since p, latestPut req.key tr = some (since, p) ∧ p.putId = req.putId) ∧
        ∀ e ∈ tr, ∀ k, ¬ e.Commits k req.putId) ∧
    (∀ req : PutCommitRequest, (m.putCommit req).1 ≠ .ok () → (m.putCommit req).2 = m) := by
  refine ⟨fun now req p m' hs => putStart_numbers h hs, (grantedSlots_run h).2,
    putCommit_iff_history h hfresh, fun req hne => ?_⟩
  rcases m.putCommit_cases req with ⟨msg, h', _⟩ | ⟨obj, _, _, _, h'⟩
  · rw [h']
  · rw [h'] at hne
    exact absurd rfl hne

/-- The id of the one put is spent: a second commit under it fails. -/
theorem onePut_discipline : ¬ (onePutMaster.putCommit ⟨"k", 7⟩).1 = .ok () := fun hc =>
  (((commit_discipline onePut_run (by decide)).2.2.1 ⟨"k", 7⟩).mp hc).2 _ List.mem_cons_self "k"
    ⟨rfl, rfl⟩

end Flour.DistKv
