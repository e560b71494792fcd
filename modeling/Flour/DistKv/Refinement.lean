/-
  File:      Flour/DistKv/Refinement.lean
  Subject:   The two accounts the repository has of its store, against each other: the simulator,
             which drives the Master and the worker stores, and the TLA+ specification.

  * `Refines` -- a state of the simulator and a state of the specification, field by field. The
    heartbeat timeout is read off the clock: a worker is alive in the specification when the Master
    would use it now. Put ids are not compared, nor accepted values of older generations.
  * `Refines.call` -- every call is matched by actions of the specification, except a refused
    `put_start`, which is matched by the release that the specification does not have.
  * **`sim_refines_release`**, **`sim_refines_core`** -- so is every trace, and what the Master
    routes and the workers serve is what the specification routes and stores.
-/
import Flour.DistKv.Core
import Flour.DistKv.Simulator

namespace Flour.DistKv

open Flour.Lib Function

/-! ## 1. The relation -/

/-- The specification without bounds, for workers of up to `C` bytes. -/
def unbounded (C : ℕ) : Core.Constants where
  sizes := { n | 1 ≤ n ∧ n ≤ C }
  capacity := C
  maxGen := ⊤
  maxPutId := ⊤
  maxEpoch := ⊤
  sizes_range _ h := h

/-- The states of the specification that the simulator can be in. -/
abbrev CoreState := Core.State ObjectKey WorkerId (List UInt8)

/-- The Master's entry of a worker at `now`. -/
def coreWorker (now : ℕ) : Option WorkerMeta → Core.Worker
  | none => Core.initWorker
  | some x =>
    { registered := true, epoch := x.epoch, used := x.usedBytes,
      alive := MasterState.workerIsAlive x now }

def coreObjectState : ObjectState → Core.ObjectState
  | .writing => .writing
  | .complete => .complete
  | .failed | .removed => .absent

/-- The Master's entry of an object, under a put id of the specification. -/
def coreObject (putId : ℕ) : Option ObjectMeta → Core.Object WorkerId
  | none => Core.initObject
  | some o =>
    { state := coreObjectState o.state, gen := o.generation, putId, size := o.sizeBytes,
      worker := o.workerId, workerEpoch := o.workerEpoch, reserved := o.reserved }

def coreInFlight (putId : ℕ) : Option InFlight → Core.InFlight WorkerId (List UInt8)
  | none => Core.initInFlight
  | some f =>
    { active := true, putId, gen := f.generation, worker := some f.worker, value := some f.bytes,
      size := f.bytes.length }

namespace WorkerNode

/-- The bytes a node holds for a slot. -/
def held (node : Option WorkerNode) (key : ObjectKey) (generation : ℕ) : Option (List UInt8) :=
  node.bind fun n => n.store.objects.lookup (key, generation)

def usedBytes (node : Option WorkerNode) : ℕ := node.elim 0 fun n => n.store.usedBytes

def isCrashed (node : Option WorkerNode) : Bool := node.elim false WorkerNode.crashed

end WorkerNode

/-- **The simulator's state and the specification's**, for workers of up to `C` bytes. -/
structure Refines (C : ℕ) (s : Sim) (t : CoreState) : Prop where
  workers : ∀ w, t.workers w = coreWorker s.clock (s.master.workers.lookup w)
  objects : ∀ k, t.objects k = coreObject (t.objects k).putId (s.master.objects.lookup k)
  inflight : ∀ k, t.inflight k = coreInFlight (t.inflight k).putId (s.inflight.lookup k)
  crashed : ∀ w, t.crashed w = WorkerNode.isCrashed (s.workers.lookup w)
  store : ∀ w k g, t.store w k g = WorkerNode.held (s.workers.lookup w) k g
  storeSize : ∀ w k g, t.storeSize w k g = (t.store w k g).elim 0 List.length
  workerUsed : ∀ w, t.workerUsed w = WorkerNode.usedBytes (s.workers.lookup w)
  localIndex : ∀ w k, t.localIndex w k = 0
  committedHist : ∀ k c, s.committed.lookup k = some c →
    t.committedHist k c.generation = some c.bytes
  capacities : ∀ w x, s.master.workers.lookup w = some x → x.capacityBytes ≤ C
  nodeCapacities : ∀ w n, s.workers.lookup w = some n → n.capacity ≤ C
  /-- Generation 0 is never written. -/
  positive : ∀ w k g, t.store w k g ≠ none → 1 ≤ g

theorem refines_init (C : ℕ) : ∃ t : CoreState, Core.Init t ∧ Refines C .new t :=
  ⟨_, rfl,
    { workers := fun _ => rfl
      objects := fun _ => rfl
      inflight := fun _ => rfl
      crashed := fun _ => rfl
      store := fun _ _ _ => rfl
      storeSize := fun _ _ _ => rfl
      workerUsed := fun _ => rfl
      localIndex := fun _ _ => rfl
      committedHist := fun _ _ h => by cases h
      capacities := fun _ _ h => by cases h
      nodeCapacities := fun _ _ h => by cases h
      positive := fun _ _ _ h => absurd rfl h }⟩

namespace Refines

variable {C : ℕ} {s : Sim} {t : CoreState}

/-- **The routes are the specification's.** -/
theorem route (h : Refines C s t) (hclock : s.clock + leaseTtlMs ≤ u64Max) (leaseId : LeaseId)
    (key : ObjectKey) :
    (s.getRoute leaseId key).map (Option.map fun r => Core.Route.mk r.workerId r.objectGeneration) =
      .ok (t.route key) := by
  unfold Sim.getRoute MasterState.getRoute Core.State.route Core.State.masterAlive
  rw [MasterState.leaseExpires, if_pos hclock, h.objects key]
  cases s.master.objects.lookup key with
  | none => rfl
  | some obj =>
      cases hst : obj.state <;> simp only [coreObject, coreObjectState, hst] <;> try rfl
      cases hid : obj.workerId with
      | none => rfl
      | some w =>
          simp only [Option.bind_some, h.workers w]
          cases s.master.workers.lookup w with
          | none => rfl
          | some x =>
              by_cases ha : MasterState.workerIsAlive x s.clock = true <;>
                by_cases he : x.epoch = obj.workerEpoch <;>
                simp [coreWorker, ha, he, Except.map]

/-- **The reads are the specification's**: a crashed worker holds nothing. -/
theorem fetch (h : Refines C s t) (hI : s.Inv) (w : WorkerId) (key : ObjectKey) (g : ℕ) :
    s.workerFetch w key g = t.store w key g := by
  rw [h.store]
  unfold Sim.workerFetch WorkerNode.held
  cases hn : s.workers.lookup w with
  | none => rfl
  | some node =>
      by_cases hc : node.crashed = true
      · simp [hc, (hI.nodes w node hn).wiped hc]
      · simp [hc, WorkerStore.getBytes, Except.toOption]

/-! ## 2. Workers -/

/-- The release of a key's reservation is the specification's. -/
theorem released (h : Refines C s t) (key : ObjectKey) (w : WorkerId) :
    t.released key w = coreWorker s.clock ((s.master.releasePrevious key).lookup w) := by
  rw [MasterState.releasePrevious_lookup]
  unfold Core.State.released MasterState.releasedOn
  have hsame : t.workers w = coreWorker s.clock
      ((s.master.workers.lookup w).map fun x => { x with usedBytes := x.usedBytes - 0 }) := by
    rw [h.workers]
    cases s.master.workers.lookup w <;> rfl
  rw [h.objects key]
  cases ho : s.master.objects.lookup key with
  | none => exact hsame
  | some obj =>
      cases hr : obj.reserved with
      | false => simpa [coreObject, hr] using hsame
      | true =>
          cases hid : obj.workerId with
          | none => simpa [coreObject, hr, hid] using hsame
          | some p =>
              by_cases hp : w = p
              · subst hp
                simp only [coreObject, hr, hid, update_self, h.workers w]
                cases s.master.workers.lookup w <;> simp [coreWorker, Core.initWorker,
                  MasterState.workerIsAlive]
              · have hne : ¬ p = w := fun e => hp e.symm
                simpa [coreObject, hr, hid, hp, hne] using hsame

/-- A worker that is not crashed may come to be seen alive, and any may be suspected: the actions of
    the specification that set the sight of finitely many workers. -/
theorem sight_steps {c : Core.Constants} (A : WorkerId → Bool) (ws : Finset WorkerId) :
    ∀ t : CoreState, (∀ w, w ∉ ws → A w = (t.workers w).alive) →
      (∀ w, A w = true → (t.workers w).registered = true ∧ t.crashed w = false) →
      ∃ es, (Core.coreLts c).Steps t es
        { t with workers := fun w => { t.workers w with alive := A w } } := by
  induction ws using Finset.induction_on with
  | empty =>
      intro t hout _
      have he : (fun w => { t.workers w with alive := A w }) = t.workers := by
        funext w
        rw [hout w (Finset.notMem_empty w)]
      rw [he]
      exact ⟨[], .refl⟩
  | insert w ws hw ih =>
      intro t hout hin
      -- first `w`, by an action or by none
      obtain ⟨es, hs⟩ : ∃ es, (Core.coreLts c).Steps t es
          { t with workers := update t.workers w { t.workers w with alive := A w } } := by
        cases ha : A w with
        | true =>
            obtain ⟨hr, hc⟩ := hin w ha
            exact ⟨_, .step .refl (.heartbeat hr hc)⟩
        | false =>
            by_cases hal : (t.workers w).alive = true
            · exact ⟨_, .step .refl (.suspectDead hal)⟩
            · have he : ({ t.workers w with alive := false } : Core.Worker) = t.workers w := by
                rw [← Bool.eq_false_iff.mpr hal]
              rw [he, update_eq_self]
              exact ⟨[], .refl⟩
      obtain ⟨es', hs'⟩ := ih { t with
          workers := update t.workers w { t.workers w with alive := A w } } (fun w' hw' => by
        by_cases he : w' = w
        · simp [he]
        · simpa [he] using hout w' (by simp [he, hw'])) fun w' ha => by
        obtain ⟨hr, hc⟩ := hin w' ha
        by_cases he : w' = w
        · subst he
          simpa using ⟨hr, hc⟩
        · simpa [he] using ⟨hr, hc⟩
      refine ⟨es' ++ es, ?_⟩
      have hfun : (fun w' => { update t.workers w { t.workers w with alive := A w } w' with
          alive := A w' }) = fun w' => ({ t.workers w' with alive := A w' } : Core.Worker) := by
        funext w'
        by_cases he : w' = w
        · simp [he]
        · simp [he]
      rw [← hfun]
      exact hs.trans hs'

/-- **The clock moves**: heartbeat timeouts, and after a wrap of the clock the reverse. -/
theorem advanceClock (h : Refines C s t) (hI : s.Inv) (ms : ℕ) :
    ∃ es t', (Core.coreLts (unbounded C)).Steps t es t' ∧ Refines C (s.advanceClock ms) t' := by
  have hw : ∀ w, { t.workers w with
      alive := (coreWorker (s.advanceClock ms).clock (s.master.workers.lookup w)).alive } =
      coreWorker (s.advanceClock ms).clock (s.master.workers.lookup w) := by
    intro w
    rw [h.workers w]
    cases s.master.workers.lookup w <;> rfl
  have hout : ∀ w, w ∉ s.master.workers.keys →
      (coreWorker (s.advanceClock ms).clock (s.master.workers.lookup w)).alive =
        (t.workers w).alive := by
    intro w hn
    rw [h.workers w, Finmap.lookup_eq_none.mpr fun hm => hn (Finmap.mem_keys.mpr hm)]
    rfl
  have hin : ∀ w, (coreWorker (s.advanceClock ms).clock (s.master.workers.lookup w)).alive = true →
      (t.workers w).registered = true ∧ t.crashed w = false := by
    intro w ha
    rw [h.workers w, h.crashed w]
    cases hx : s.master.workers.lookup w with
    | none =>
        rw [hx] at ha
        cases ha
    | some x =>
        rw [hx] at ha
        refine ⟨rfl, ?_⟩
        cases hn : s.workers.lookup w with
        | none => rfl
        | some node =>
            obtain ⟨x', hx', hdead⟩ := (hI.nodes w node hn).known
            rw [hx] at hx'
            cases hx'
            by_contra hc
            have hc : node.crashed = true := by simpa [WorkerNode.isCrashed] using hc
            simp [coreWorker, MasterState.workerIsAlive, hdead hc] at ha
  obtain ⟨es, hs⟩ := sight_steps (c := unbounded C) _ s.master.workers.keys t hout hin
  exact ⟨es, _, hs, { h with workers := hw }⟩

/-- A statement about each key of a function and of a map, after an assignment to both. -/
theorem forall_insert {α β γ : Type} [DecidableEq α] {f : α → γ} {m : Finmap (fun _ : α => β)}
    {P : α → γ → Option β → Prop} (h : ∀ a, P a (f a) (m.lookup a)) {a : α} {b : β} {c : γ}
    (hb : P a c (some b)) : ∀ a', P a' (update f a c a') ((m.insert a b).lookup a') := by
  intro a'
  by_cases he : a' = a
  · subst he
    rw [update_self, Finmap.lookup_insert]
    exact hb
  · rw [update_of_ne he, Finmap.lookup_insert_of_ne _ he]
    exact h a'

/-- The entries of a map, after an assignment. -/
theorem entries_insert {α β : Type} [DecidableEq α] {m : Finmap (fun _ : α => β)} {P : β → Prop}
    (h : ∀ a b, m.lookup a = some b → P b) {a : α} {b : β} (hb : P b) :
    ∀ a' b', (m.insert a b).lookup a' = some b' → P b' :=
  forall_insert (f := fun _ => ()) (c := ()) (P := fun _ _ e => ∀ b', e = some b' → P b') h
    fun _ he => Option.some.inj he ▸ hb

/-- A worker's bytes and counters, replaced by those of an empty store. -/
theorem wiped (h : Refines C s t) (w : WorkerId) (node : WorkerNode) (hC : node.capacity ≤ C)
    (hobj : node.store.objects = ∅) (hused : node.store.usedBytes = 0)
    {workers : Finmap (fun _ : WorkerId => WorkerMeta)} {sight : WorkerId → Core.Worker}
    (hw : ∀ w, sight w = coreWorker s.clock (workers.lookup w))
    (hcap : ∀ w x, workers.lookup w = some x → x.capacityBytes ≤ C) :
    Refines C
      { s with
        master := { s.master with workers }
        workers := s.workers.insert w node }
      { t with
        workers := sight
        crashed := update t.crashed w node.crashed
        store := update t.store w fun _ _ => none
        storeSize := update t.storeSize w fun _ _ => 0
        workerUsed := update t.workerUsed w 0
        localIndex := update t.localIndex w fun _ => 0 } where
  workers := hw
  objects := h.objects
  inflight := h.inflight
  crashed := forall_insert (P := fun _ x e => x = WorkerNode.isCrashed e) h.crashed rfl
  store := forall_insert
    (P := fun _ (x : ObjectKey → ℕ → Option (List UInt8)) e => ∀ k g, x k g = WorkerNode.held e k g)
    h.store fun k g => by simp [WorkerNode.held, hobj]
  storeSize w' k g := by
    by_cases he : w' = w
    · simp [he]
    · simpa [he] using h.storeSize w' k g
  workerUsed := forall_insert (P := fun _ x e => x = WorkerNode.usedBytes e) h.workerUsed
    hused.symm
  localIndex := Core.forall_update (P := fun x : ObjectKey → ℕ => ∀ k, x k = 0) h.localIndex
    fun _ => rfl
  committedHist := h.committedHist
  capacities := hcap
  nodeCapacities := entries_insert h.nodeCapacities hC
  positive := Core.forall_update
    (P := fun x : ObjectKey → ℕ → Option (List UInt8) => ∀ k g, x k g ≠ none → 1 ≤ g) h.positive
    fun _ _ hne => absurd rfl hne

/-- **A registration** is the specification's. -/
theorem registerWorker (h : Refines C s t) (w : WorkerId) {capacity : ℕ} (hC : capacity ≤ C) :
    ∃ es t', (Core.coreLts (unbounded C)).Steps t es t' ∧
      Refines C (s.registerWorker w capacity) t' := by
  refine ⟨_, _, .step .refl (.register (w := w) (ENat.natCast_lt_top _)), ?_⟩
  refine h.wiped w
    { store := .new w (s.master.registered s.clock w w capacity).epoch capacity, capacity,
      epoch := (s.master.registered s.clock w w capacity).epoch, crashed := false } hC rfl rfl
    ?_ (entries_insert h.capacities (by simpa using hC))
  refine forall_insert (P := fun _ x e => x = coreWorker s.clock e) h.workers ?_
  have hepoch : (s.master.registered s.clock w w capacity).epoch = (t.workers w).epoch + 1 := by
    rw [h.workers w]
    unfold MasterState.registered
    cases s.master.workers.lookup w <;> rfl
  simp [coreWorker, MasterState.workerIsAlive, hepoch]

/-- **A crash** is a crash of the specification, and a suspicion. -/
theorem crash (h : Refines C s t) (hI : s.Inv) (w : WorkerId) :
    ∃ es t', (Core.coreLts (unbounded C)).Steps t es t' ∧ Refines C (s.crash w) t' := by
  unfold Sim.crash MasterState.markWorkerDead
  cases hn : s.workers.lookup w with
  | none =>
      have hx : s.master.workers.lookup w = none := by
        by_contra hne
        exact hI.registered w hne hn
      simp only [hx]
      exact ⟨[], t, .refl, h⟩
  | some node =>
      obtain ⟨x, hx, hdead⟩ := (hI.nodes w node hn).known
      simp only [hx]
      have hkill : ∀ w', (update t.workers w { t.workers w with alive := false }) w' =
          coreWorker s.clock
            ((s.master.workers.insert w { x with status := .dead }).lookup w') := by
        refine forall_insert (P := fun _ x e => x = coreWorker s.clock e) h.workers ?_
        rw [h.workers w, hx]
        simp [coreWorker, MasterState.workerIsAlive]
      have hcap := entries_insert (a := w) (b := { x with status := .dead }) h.capacities
        (h.capacities w x hx)
      have hR := h.wiped w { node with crashed := true, store := .new w node.epoch node.capacity }
        (h.nodeCapacities w node hn) rfl rfl hkill hcap
      have hself : (t.workers w).alive = false →
          update t.workers w { t.workers w with alive := false } = t.workers := fun ha => by
        rw [update_eq_self_iff, ← ha]
      cases hc : node.crashed with
      | true =>
          -- the node is down already: nothing changes
          have hempty : ∀ k g, t.store w k g = none := fun k g => by
            rw [h.store, hn]
            simp [WorkerNode.held, (hI.nodes w node hn).wiped hc]
          have hsize : ∀ k g, t.storeSize w k g = 0 := fun k g => by
            rw [h.storeSize, hempty]
            rfl
          have hused : t.workerUsed w = 0 := by
            rw [h.workerUsed, hn]
            show node.store.usedBytes = 0
            rw [(hI.nodes w node hn).counted, (hI.nodes w node hn).wiped hc]
            rfl
          have ha : (t.workers w).alive = false := by
            rw [h.workers w, hx]
            simp [coreWorker, MasterState.workerIsAlive, hdead hc]
          refine ⟨[], t, .refl, ?_⟩
          have hcrashed : update t.crashed w true = t.crashed := by
            rw [update_eq_self_iff, h.crashed, hn]
            exact hc.symm
          have hstore : update t.store w (fun _ _ => none) = t.store :=
            update_eq_self_iff.mpr (funext₂ fun k g => (hempty k g).symm)
          have hstoreSize : update t.storeSize w (fun _ _ => 0) = t.storeSize :=
            update_eq_self_iff.mpr (funext₂ fun k g => (hsize k g).symm)
          have hworkerUsed : update t.workerUsed w 0 = t.workerUsed :=
            update_eq_self_iff.mpr hused.symm
          have hindex : update t.localIndex w (fun _ => 0) = t.localIndex :=
            update_eq_self_iff.mpr (funext fun k => (h.localIndex w k).symm)
          rw [hself ha, hcrashed, hstore, hstoreSize, hworkerUsed, hindex] at hR
          exact hR
      | false =>
          have hcr : t.crashed w = false := by
            rw [h.crashed, hn]
            exact hc
          have hs := Lts.Steps.step (L := Core.coreLts (unbounded C)) .refl (Core.Step.crash hcr)
          by_cases ha : (t.workers w).alive = true
          · exact ⟨_, _, .step hs (.suspectDead ha), hR⟩
          · rw [hself (by simpa using ha)] at hR
            exact ⟨_, _, hs, hR⟩

/-! ## 3. Objects -/

/-- An open write, as the specification has it. -/
theorem active (h : Refines C s t) (hT : Core.Inv (unbounded C) t) {key : ObjectKey} {f : InFlight}
    (hf : s.inflight.lookup key = some f) :
    (t.inflight key).active = true ∧ (t.inflight key).worker = some f.worker ∧
      (t.inflight key).gen = f.generation ∧ (t.inflight key).value = some f.bytes ∧
      (t.inflight key).size = f.bytes.length ∧ (t.objects key).gen = f.generation ∧
      (t.objects key).putId = (t.inflight key).putId ∧ 1 ≤ f.generation := by
  have he := h.inflight key
  rw [hf] at he
  have ha : (t.inflight key).active = true := by rw [he]; rfl
  obtain ⟨w, v, _, hg, _, _, hfl⟩ := (hT.keys key).active ha
  have hgen : (t.inflight key).gen = f.generation := by rw [he]; rfl
  have hog : (t.objects key).gen = (t.inflight key).gen := by rw [hfl]
  refine ⟨ha, by rw [he]; rfl, hgen, by rw [he]; rfl, by rw [he]; rfl, hog.trans hgen, ?_, ?_⟩
  · rw [hfl]
  · omega

/-- **Opening a write**: granted, it is the specification's; refused, it is the release. -/
theorem putStart (h : Refines C s t) (d : Draw) (key : ObjectKey) {size : ℕ} (hsize : 1 ≤ size) :
    (∃ es t', (Core.coreLts (unbounded C)).Steps t es t' ∧
      Refines C (s.putStart d key size).2 t') ∨
    ((s.putStart d key size).1 = none ∧
      Refines C (s.putStart d key size).2 { t with workers := t.released key }) := by
  unfold Sim.putStart
  have hcap : ∀ w x, (s.master.releasePrevious key).lookup w = some x → x.capacityBytes ≤ C := by
    intro w x hx
    rw [MasterState.releasePrevious_lookup] at hx
    obtain ⟨y, hy, rfl⟩ := Option.map_eq_some_iff.mp hx
    exact h.capacities w y hy
  rcases s.master.putStart_cases s.clock d.order d.putId ⟨key, size, none⟩ with
    ⟨msg, hp⟩ | ⟨id, w, hw, hal, hfit, hp⟩ <;> rw [hp]
  · exact .inr ⟨rfl, { h with workers := h.released key, capacities := hcap }⟩
  refine .inl ?_
  dsimp only at hfit ⊢
  have hC := h.capacities id w hw
  have hrel : t.released key id =
      { registered := true, epoch := w.epoch, used := w.usedBytes - s.master.releasedOn key id,
        alive := true } := by
    rw [h.released, MasterState.releasePrevious_lookup, hw]
    simp only [Option.map_some, coreWorker, Core.Worker.mk.injEq, true_and]
    exact hal
  have hchosen : t.Candidate (unbounded C) key size none id := by
    refine ⟨⟨?_, ?_⟩, fun p hp => by cases hp⟩
    · simp [Core.State.masterAlive, h.workers id, hw, coreWorker, hal]
    · rw [hrel]
      show w.usedBytes - s.master.releasedOn key id + size ≤ C
      omega
  have hgen : s.master.nextGeneration key = (t.objects key).gen + 1 := by
    rw [h.objects key]
    unfold MasterState.nextGeneration
    cases s.master.objects.lookup key <;> rfl
  refine ⟨_, _, .step .refl (@Core.Step.putStart _ _ _ _ _ _ t key size none id
    (List.replicate (max size 1) (s.marker + 1).toUInt8) ⟨hsize, by show size ≤ C; omega⟩ le_top
    (ENat.natCast_lt_top _) hchosen), ?_⟩
  rw [hrel]
  exact { h with
    workers := by
      refine forall_insert (P := fun _ x e => x = coreWorker s.clock e) (h.released key) ?_
      simp [coreWorker, WorkerMeta.recharged, MasterState.workerIsAlive] at hal ⊢
      exact hal
    objects := by
      refine forall_insert (P := fun _ x e => x = coreObject x.putId e) h.objects ?_
      simp [coreObject, MasterState.opened, coreObjectState, hgen]
    inflight := by
      refine forall_insert (P := fun _ x e => x = coreInFlight x.putId e) h.inflight ?_
      simp [coreInFlight, MasterState.granted, hgen, hsize]
    capacities := entries_insert hcap hC }

/-- **A commit** that the Master accepts is the specification's. -/
theorem commit (h : Refines C s t) (hI : s.Inv) (hT : Core.Inv (unbounded C) t) (key : ObjectKey)
    (putId : PutId) :
    ∃ es t', (Core.coreLts (unbounded C)).Steps t es t' ∧ Refines C (s.commit key putId).2 t' := by
  unfold Sim.commit
  rcases s.master.putCommit_cases ⟨key, putId⟩ with ⟨msg, hp, _⟩ | ⟨obj, ho, hst, hid, hp⟩ <;> rw [hp]
  · exact ⟨[], t, .refl, h⟩
  obtain ⟨f, hf, hfid, hgen, hwid, _⟩ := (hI.keys key).open ho
  have hf : s.inflight.lookup key = some f := hf
  have he : f.putId = putId := Option.some.inj (hfid.symm.trans hid)
  simp only [hf, he, if_true]
  obtain ⟨ha, _, _, hval, _, hog, hpid, _⟩ := h.active hT hf
  have hobj := h.objects key
  rw [ho] at hobj
  have hwr : (t.objects key).state = .writing := by
    rw [hobj]
    simp [coreObject, coreObjectState, hst]
  refine ⟨_, _, .step .refl (.putCommit hwr ha hpid), ?_⟩
  exact { h with
    objects := by
      refine forall_insert (P := fun _ x e => x = coreObject x.putId e) h.objects ?_
      dsimp only
      rw [hobj]
      rfl
    committedHist := by
      refine forall_insert (P := fun k (x : ℕ → Option (List UInt8)) e => ∀ c : Sim.Committed,
        e = some c → x c.generation = some c.bytes) h.committedHist ?_
      intro c hc
      cases hc
      rw [hog, hval, update_self] }

/-- One worker's slot, filled or emptied. -/
theorem setSlot (h : Refines C s t) (w : WorkerId) (key : ObjectKey) (g : ℕ) (hg : 1 ≤ g)
    {node : WorkerNode} (hn : s.workers.lookup w = some node) (bytes : Option (List UInt8))
    (store : WorkerStore)
    (hstore : ∀ k g', store.objects.lookup (k, g') =
      if (k, g') = (key, g) then bytes else node.store.objects.lookup (k, g')) :
    Refines C { s with workers := s.workers.insert w { node with store } }
      { t with
        store := Core.except t.store w key g bytes
        storeSize := Core.except t.storeSize w key g (bytes.elim 0 List.length)
        workerUsed := update t.workerUsed w store.usedBytes } := by
  have hcell : ∀ w' k g', Core.except t.store w key g bytes w' k g' =
      WorkerNode.held ((s.workers.insert w { node with store }).lookup w') k g' := by
    intro w' k g'
    by_cases he : w' = w
    · subst he
      rw [Finmap.lookup_insert]
      show _ = store.objects.lookup (k, g')
      rw [hstore]
      rcases Core.except_cases t.store w' key g bytes w' k g' with ⟨hx, _, rfl, rfl⟩ | ⟨hx, hne⟩ <;>
        rw [hx]
      · simp
      · rw [if_neg (fun e => hne ⟨rfl, by cases e; exact ⟨rfl, rfl⟩⟩), h.store, hn]
        rfl
    · rw [Finmap.lookup_insert_of_ne _ he]
      rcases Core.except_cases t.store w key g bytes w' k g' with ⟨_, hx, _⟩ | ⟨hx, _⟩
      · exact absurd hx he
      · rw [hx, h.store]
  exact { h with
    store := hcell
    storeSize := by
      intro w' k g'
      rcases Core.except_cases t.store w key g bytes w' k g' with ⟨hx, hin⟩ | ⟨hx, hne⟩ <;>
        rcases Core.except_cases t.storeSize w key g (bytes.elim 0 List.length) w' k g' with
          ⟨hy, hin'⟩ | ⟨hy, hne'⟩ <;> dsimp only <;> rw [hx, hy]
      · exact absurd hin hne'
      · exact absurd hin' hne
      · exact h.storeSize w' k g'
    crashed := by
      refine fun w' => ?_
      by_cases he : w' = w
      · subst he
        rw [h.crashed, hn, Finmap.lookup_insert]
        rfl
      · rw [Finmap.lookup_insert_of_ne _ he]
        exact h.crashed w'
    workerUsed := forall_insert (P := fun _ x e => x = WorkerNode.usedBytes e) h.workerUsed rfl
    nodeCapacities := entries_insert h.nodeCapacities (h.nodeCapacities w node hn)
    positive := by
      intro w' k g' hne
      rcases Core.except_cases t.store w key g bytes w' k g' with ⟨_, _, _, rfl⟩ | ⟨hx, _⟩
      · exact hg
      · dsimp only at hne
        rw [hx] at hne
        exact h.positive w' k g' hne }

/-- What a slot holds, in the counter of the specification. -/
theorem storeSize_eq (h : Refines C s t) {w : WorkerId} {node : WorkerNode}
    (hn : s.workers.lookup w = some node) (key : ObjectKey) (g : ℕ) :
    t.storeSize w key g = node.store.prevLen key g := by
  rw [h.storeSize, h.store, hn]
  show (node.store.objects.lookup (key, g)).elim 0 List.length = _
  unfold WorkerStore.prevLen
  cases node.store.objects.lookup (key, g) <;> rfl

/-- **A write** that the store accepts is the specification's. -/
theorem workerWrite (h : Refines C s t) (hI : s.Inv) (hT : Core.Inv (unbounded C) t)
    (key : ObjectKey) :
    ∃ es t', (Core.coreLts (unbounded C)).Steps t es t' ∧ Refines C (s.workerWrite key) t' := by
  unfold Sim.workerWrite
  cases hf : s.inflight.lookup key with
  | none => exact ⟨[], t, .refl, h⟩
  | some f =>
      dsimp only
      cases hn : s.workers.lookup f.worker with
      | none => exact ⟨[], t, .refl, h⟩
      | some node =>
          dsimp only
          split_ifs with hcr
          · exact ⟨[], t, .refl, h⟩
          obtain ⟨ha, hwk, hgen, hval, hsz, _, _, hpos⟩ := h.active hT hf
          have hused : t.workerUsed f.worker = node.store.usedBytes := by
            rw [h.workerUsed, hn]
            rfl
          rcases node.store.putBytes_cases key f.generation f.bytes with ⟨msg, hp, _⟩ | ⟨hp, hold, hfit⟩ <;>
            rw [hp]
          · dsimp only
            rw [insert_of_lookup hn]
            exact ⟨[], t, .refl, h⟩
          · have hC := h.nodeCapacities _ _ hn
            have hcap := (hI.nodes _ _ hn).capacity
            refine ⟨_, _, .step .refl (.workerWrite ha hwk (by omega) ?_ ?_ ?_), ?_⟩
            · rw [h.crashed, hn]
              simpa [WorkerNode.isCrashed] using hcr
            · rw [hgen, h.storeSize_eq hn, hused]
              exact hold
            · rw [hgen, hsz, h.storeSize_eq hn, hused]
              show _ ≤ C
              omega
            · rw [hgen, hval, hsz, h.storeSize_eq hn, hused]
              refine h.setSlot f.worker key f.generation hpos hn (some f.bytes) _ fun k g' => ?_
              unfold WorkerStore.stored
              by_cases he : (k, g') = (key, f.generation)
              · rw [he, if_pos rfl]
                exact Finmap.lookup_insert _
              · rw [if_neg he]
                exact Finmap.lookup_insert_of_ne _ he

/-- **An eviction** of a stored slot is the specification's. -/
theorem evict (h : Refines C s t) (hI : s.Inv) (w : WorkerId) (key : ObjectKey) (g : ℕ) :
    ∃ es t', (Core.coreLts (unbounded C)).Steps t es t' ∧ Refines C (s.evict w key g) t' := by
  unfold Sim.evict
  cases hn : s.workers.lookup w with
  | none => exact ⟨[], t, .refl, h⟩
  | some node =>
      dsimp only
      cases hb : node.store.objects.lookup (key, g) with
      | none =>
          have hsame : node.store.deleteGeneration key g = node.store := by
            simp [WorkerStore.deleteGeneration, hb]
          rw [hsame, insert_of_lookup hn]
          exact ⟨[], t, .refl, h⟩
      | some bytes =>
          have hv : t.store w key g = some bytes := by
            rw [h.store, hn]
            exact hb
          have hg : 1 ≤ g := h.positive w key g (by simp [hv])
          have hused : t.workerUsed w = node.store.usedBytes := by
            rw [h.workerUsed, hn]
            rfl
          have hold : t.storeSize w key g ≤ t.workerUsed w := by
            rw [h.storeSize_eq hn, hused]
            exact (hI.nodes w node hn).counted.prevLen_le key g
          have hused' : (node.store.deleteGeneration key g).usedBytes =
              t.workerUsed w - t.storeSize w key g := by
            rw [hused, h.storeSize_eq hn]
            simp [WorkerStore.deleteGeneration, WorkerStore.prevLen, hb]
          refine ⟨_, _, .step .refl (.evict ⟨hg, le_top⟩ (by simp [hv]) hold), ?_⟩
          rw [← hused']
          exact h.setSlot w key g hg hn none _ fun k g' =>
            WorkerStore.deleteGeneration_lookup _ _ _ _

end Refines

/-! ## 4. Calls and traces -/

/-- Workers of up to `C` bytes, and puts of at least one. -/
def Sim.Fits (C : ℕ) : Sim → Sim.Call → Prop
  | _, .apply _ (.register _ capacity) | _, .apply _ (.restart _ capacity) => capacity ≤ C
  | _, .apply _ (.putStart _ size) => 1 ≤ size
  | _, _ => True

/-- A refused put finds no reservation to release. -/
def Sim.Keeps : Sim → Sim.Call → Prop
  | s, .apply d (.putStart key size) =>
    (s.putStart d key size).1 = none → s.master.releasePrevious key = s.master.workers
  | _, _ => True

/-- **Every call is matched**: by the specification, or, a refused put, by the release. -/
theorem Refines.call {C : ℕ} {s s' : Sim} {t : CoreState} {c : Sim.Call} (h : Refines C s t)
    (hI : s.Inv) (hT : Core.Inv (unbounded C) t) (hfit : s.Fits C c) (hc : s.call c = .ok s') :
    (∃ es t', (Core.coreLts (unbounded C)).Steps t es t' ∧ Refines C s' t') ∨
    ∃ d key size, c = .apply d (.putStart key size) ∧ (s.putStart d key size).1 = none ∧
      Refines C s' { t with workers := t.released key } := by
  cases c with
  | advanceClock ms =>
      cases hc
      exact .inl (h.advanceClock hI ms)
  | evict worker key generation =>
      cases hc
      exact .inl (h.evict hI worker key generation)
  | apply d ev =>
      cases ev with
      | register worker capacity =>
          cases hc
          exact .inl (h.registerWorker worker hfit)
      | putStart key size =>
          cases hc
          rcases h.putStart d key hfit with hm | ⟨hnone, hR⟩
          · exact .inl hm
          · exact .inr ⟨d, key, size, rfl, hnone, hR⟩
      | workerWrite key =>
          cases hc
          exact .inl (h.workerWrite hI hT key)
      | commitLatest key =>
          cases hc
          refine .inl ?_
          unfold Sim.commitLatest
          split
          · exact ⟨[], t, .refl, h⟩
          · exact h.commit hI hT key _
      | commitStale key =>
          cases hc
          refine .inl ?_
          unfold Sim.commitStale
          split
          · exact ⟨[], t, .refl, h⟩
          · exact h.commit hI hT key _
      | getAndFetch key =>
          obtain rfl := Sim.eq_of_getAndFetch hc
          exact .inl ⟨[], t, .refl, h⟩
      | crash worker =>
          cases hc
          exact .inl (h.crash hI worker)
      | restart worker capacity =>
          cases hc
          exact .inl (h.registerWorker worker hfit)

/-- What an observer sees: the routes and the reads. -/
def SameView (s : Sim) (t : CoreState) : Prop :=
  (s.clock + leaseTtlMs ≤ u64Max → ∀ leaseId key,
    (s.getRoute leaseId key).map (Option.map fun r => Core.Route.mk r.workerId r.objectGeneration) =
      .ok (t.route key)) ∧
  ∀ w key g, s.workerFetch w key g = t.store w key g

/-- **Every trace of the simulator is a run of the specification with releases**, which routes what
    the Master routes, stores what the workers serve, and is safe. -/
theorem sim_refines_release {C : ℕ} {tr : List Sim.Call} {s : Sim}
    (h : (simLts.restrict (Sim.Fits C)).Run tr s) :
    ∃ es t, (Core.releaseLts (unbounded C)).Run es t ∧ Refines C s t ∧ SameView s t ∧
      Core.Safe (unbounded C) t := by
  have hsim : ∃ es t, (Core.releaseLts (unbounded C)).Run es t ∧ Refines C s t := by
    refine Lts.Run.simulate (R := fun s t => Refines C s t) (fun s hs => ?_)
      (fun tr s c s' es t hrun ht hR hs => ?_) h
    · obtain rfl := hs
      exact refines_init C
    · rcases hR.call (sim_inv_run hrun.of_restrict) (Core.inv_run ht) hs.2 hs.1 with
        ⟨es', t', hs', hR'⟩ | ⟨d, key, size, _, _, hR'⟩
      · exact ⟨_, t', hs'.map (f := Sum.inl) fun _ _ _ hx => hx, hR'⟩
      · exact ⟨[.inr key], _, .step .refl (show Core.Release key t _ from rfl), hR'⟩
  obtain ⟨es, t, ht, hR⟩ := hsim
  exact ⟨es, t, ht, hR, ⟨hR.route, hR.fetch (sim_inv_run h.of_restrict)⟩, (Core.inv_run ht).safe⟩

/-- **A trace whose refused puts find nothing to release is a run of the specification itself.** -/
theorem sim_refines_core {C : ℕ} {tr : List Sim.Call} {s : Sim}
    (h : (simLts.restrict fun s c => s.Fits C c ∧ s.Keeps c).Run tr s) :
    ∃ es t, (Core.coreLts (unbounded C)).Run es t ∧ Refines C s t ∧ SameView s t := by
  have hsim : ∃ es t, (Core.coreLts (unbounded C)).Run es t ∧ Refines C s t := by
    refine Lts.Run.simulate (R := fun s t => Refines C s t) (fun s hs => ?_)
      (fun tr s c s' es t hrun ht hR hs => ?_) h
    · obtain rfl := hs
      exact refines_init C
    · rcases hR.call (sim_inv_run hrun.of_restrict) (Core.inv_run (Core.release_run ht)) hs.2.1 hs.1
        with hm | ⟨d, key, size, rfl, hnone, hR'⟩
      · exact hm
      · have hkeep : t.released key = t.workers := by
          funext w
          rw [hR.released, hs.2.2 hnone, hR.workers]
        rw [hkeep] at hR'
        exact ⟨[], t, .refl, hR'⟩
  obtain ⟨es, t, ht, hR⟩ := hsim
  exact ⟨es, t, ht, hR, hR.route, hR.fetch (sim_inv_run h.of_restrict)⟩

/-- The route of `simTrace` in the specification. -/
theorem simTrace_refines : ∃ s es t, (simLts.restrict (Sim.Fits 1024)).Run simTrace s ∧
    (Core.releaseLts (unbounded 1024)).Run es t ∧ Refines 1024 s t ∧ SameView s t ∧
    Core.Safe (unbounded 1024) t := by
  have hrun : (simLts.restrict (Sim.Fits 1024)).Run simTrace _ :=
    .step (.step (.step (.step (.step (.start rfl) ⟨rfl, le_refl 1024⟩) ⟨rfl, one_le_two⟩)
      ⟨rfl, trivial⟩) ⟨rfl, trivial⟩) ⟨rfl, trivial⟩
  obtain ⟨es, t, h⟩ := sim_refines_release hrun
  exact ⟨_, es, t, hrun, h⟩

/-- `simTrace` refuses no put. -/
theorem simTrace_refines_core : ∃ s es t,
    (simLts.restrict fun s c => Sim.Fits 1024 s c ∧ s.Keeps c).Run simTrace s ∧
    (Core.coreLts (unbounded 1024)).Run es t ∧ Refines 1024 s t ∧ SameView s t := by
  have hrun : (simLts.restrict fun s c => Sim.Fits 1024 s c ∧ s.Keeps c).Run simTrace _ :=
    .step (.step (.step (.step (.step (.start rfl) ⟨rfl, le_refl 1024, trivial⟩)
      ⟨rfl, one_le_two, fun h => by cases h⟩) ⟨rfl, trivial, trivial⟩) ⟨rfl, trivial, trivial⟩)
      ⟨rfl, trivial, trivial⟩
  obtain ⟨es, t, h⟩ := sim_refines_core hrun
  exact ⟨_, es, t, hrun, h⟩

end Flour.DistKv
