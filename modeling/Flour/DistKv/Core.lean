/-
  File:      Flour/DistKv/Core.lean
  Subject:   The repository's own specification of the store, `test/tla-plus/DistKVCore.tla`, for
             arbitrary sets of keys, workers and values and arbitrary bounds.

  Variables, actions and invariants are those of the specification, under its names; where it has a
  function over a set, the state has one over a type, and `NoWorker`, `NoVal` are `none`.

  * `Constants`, `State`, `Step`, `coreLts` -- the specification; `Safe` -- its list `INVARIANTS`.
  * `Release`, `releaseLts` -- the same with one more action, which the specification does not have
    and the Master does: a refused `put_start` has already released the key's old reservation.
  * `KeyInv`, `Inv` -- the inductive invariant, key by key; `Inv.step`, `Inv.release` -- its steps.
  * **`safe_run`** -- every run of either system meets every invariant of the specification. The
    model checker looks at two keys, two workers and two generations.
-/
import Flour.Lib.Run
import Mathlib.Data.ENat.Basic
import Mathlib.Logic.Function.Basic

namespace Flour.DistKv.Core

open Flour.Lib Function

/-! ## 1. The specification -/

/-- The constants; `⊤` is no bound. -/
structure Constants where
  /-- The object sizes used by `PutStart`. -/
  sizes : Set ℕ
  capacity : ℕ
  maxGen : ℕ∞
  maxPutId : ℕ∞
  maxEpoch : ℕ∞
  /-- `ASSUME Sizes \subseteq 1..Capacity`. -/
  sizes_range : ∀ sz ∈ sizes, 1 ≤ sz ∧ sz ≤ capacity

inductive ObjectState where
  | absent
  | writing
  | complete
  deriving DecidableEq

/-- What the Master knows of a worker. -/
structure Worker where
  registered : Bool
  epoch : ℕ
  used : ℕ
  alive : Bool

/-- What the Master knows of an object. -/
structure Object (W : Type) where
  state : ObjectState
  gen : ℕ
  putId : ℕ
  size : ℕ
  worker : Option W
  workerEpoch : ℕ
  reserved : Bool

/-- The latest open put of a key. -/
structure InFlight (W V : Type) where
  active : Bool
  putId : ℕ
  gen : ℕ
  worker : Option W
  value : Option V
  size : ℕ

def initWorker : Worker := { registered := false, epoch := 0, used := 0, alive := false }

def initObject {W : Type} : Object W :=
  { state := .absent, gen := 0, putId := 0, size := 0, worker := none, workerEpoch := 0,
    reserved := false }

def initInFlight {W V : Type} : InFlight W V :=
  { active := false, putId := 0, gen := 0, worker := none, value := none, size := 0 }

/-- The variables. -/
structure State (K W V : Type) where
  workers : W → Worker
  objects : K → Object W
  putSeq : ℕ
  inflight : K → InFlight W V
  crashed : W → Bool
  /-- The bytes of each worker, by key and generation. -/
  store : W → K → ℕ → Option V
  storeSize : W → K → ℕ → ℕ
  workerUsed : W → ℕ
  /-- The committed index of each worker; 0 is no entry. -/
  localIndex : W → K → ℕ
  /-- The value that the Master accepted, by key and generation. -/
  committedHist : K → ℕ → Option V

inductive Action (K W : Type) where
  | register (w : W)
  | heartbeat (w : W)
  | suspectDead (w : W)
  | putStart (k : K) (sz : ℕ) (preferred : Option W)
  | putCommit (k : K)
  | workerWrite (k : K)
  | evict (w : W) (k : K) (g : ℕ)
  | crash (w : W)
  | localMarkFromRoute (w : W) (k : K)

structure Route (W : Type) where
  worker : W
  gen : ℕ
  deriving DecidableEq

variable {K W V : Type}

def Init (s : State K W V) : Prop :=
  s = { workers := fun _ => initWorker
        objects := fun _ => initObject
        putSeq := 1
        inflight := fun _ => initInFlight
        crashed := fun _ => false
        store := fun _ _ _ => none
        storeSize := fun _ _ _ => 0
        workerUsed := fun _ => 0
        localIndex := fun _ _ => 0
        committedHist := fun _ _ => none }

namespace State

variable (s : State K W V)

def masterAlive (w : W) : Bool := (s.workers w).registered && (s.workers w).alive

/-- A route of a key, if it is present. -/
def route (k : K) : Option (Route W) :=
  if (s.objects k).state = .complete then
    (s.objects k).worker.bind fun w =>
      if s.masterAlive w ∧ (s.workers w).epoch = (s.objects k).workerEpoch then
        some ⟨w, (s.objects k).gen⟩
      else none
  else none

variable [DecidableEq W]

/-- The workers after the reservation of the key's prior generation is released. -/
def released (k : K) : W → Worker :=
  match (s.objects k).reserved, (s.objects k).worker with
  | true, some w =>
    update s.workers w { s.workers w with used := (s.workers w).used - (s.objects k).size }
  | _, _ => s.workers

def UsableR (c : Constants) (k : K) (sz : ℕ) (w : W) : Prop :=
  s.masterAlive w ∧ (s.released k w).used + sz ≤ c.capacity

/-- The preferred worker if it is usable, else any usable one. -/
def Candidate (c : Constants) (k : K) (sz : ℕ) (preferred : Option W) (w : W) : Prop :=
  s.UsableR c k sz w ∧ ∀ p, preferred = some p → s.UsableR c k sz p → w = p

end State

section Steps

variable [DecidableEq K] [DecidableEq W]

/-- `[f EXCEPT ![w][k][g] = a]`. -/
def except {α : Type} (f : W → K → ℕ → α) (w : W) (k : K) (g : ℕ) (a : α) : W → K → ℕ → α :=
  update f w (update (f w) k (update (f w k) g a))

/-- `Next`, action by action. -/
inductive Step (c : Constants) : State K W V → Action K W → State K W V → Prop where
  /-- A registration is a fresh store and a fresh index. -/
  | register {s : State K W V} {w : W} (h : ((s.workers w).epoch : ℕ∞) < c.maxEpoch) :
      Step c s (.register w)
        { s with
          workers := update s.workers w
            { registered := true, epoch := (s.workers w).epoch + 1, used := 0, alive := true }
          crashed := update s.crashed w false
          store := update s.store w fun _ _ => none
          storeSize := update s.storeSize w fun _ _ => 0
          workerUsed := update s.workerUsed w 0
          localIndex := update s.localIndex w fun _ => 0 }
  | heartbeat {s : State K W V} {w : W} (hr : (s.workers w).registered) (hc : s.crashed w = false) :
      Step c s (.heartbeat w)
        { s with workers := update s.workers w { s.workers w with alive := true } }
  /-- A heartbeat timeout, or `mark_worker_dead`. -/
  | suspectDead {s : State K W V} {w : W} (h : (s.workers w).alive) :
      Step c s (.suspectDead w)
        { s with workers := update s.workers w { s.workers w with alive := false } }
  | putStart {s : State K W V} {k : K} {sz : ℕ} {preferred : Option W} {chosen : W} {val : V}
      (hsz : sz ∈ c.sizes) (hid : (s.putSeq : ℕ∞) ≤ c.maxPutId)
      (hgen : ((s.objects k).gen : ℕ∞) < c.maxGen)
      (hchosen : s.Candidate c k sz preferred chosen) :
      Step c s (.putStart k sz preferred)
        { s with
          workers := update (s.released k) chosen
            { s.released k chosen with used := (s.released k chosen).used + sz }
          objects := update s.objects k
            { state := .writing, gen := (s.objects k).gen + 1, putId := s.putSeq, size := sz,
              worker := some chosen, workerEpoch := (s.released k chosen).epoch, reserved := true }
          inflight := update s.inflight k
            { active := true, putId := s.putSeq, gen := (s.objects k).gen + 1,
              worker := some chosen, value := some val, size := sz }
          putSeq := s.putSeq + 1 }
  | putCommit {s : State K W V} {k : K} (hs : (s.objects k).state = .writing)
      (ha : (s.inflight k).active) (hid : (s.objects k).putId = (s.inflight k).putId) :
      Step c s (.putCommit k)
        { s with
          objects := update s.objects k { s.objects k with state := .complete }
          committedHist := update s.committedHist k
            (update (s.committedHist k) (s.objects k).gen (s.inflight k).value) }
  | workerWrite {s : State K W V} {k : K} {w : W} (ha : (s.inflight k).active)
      (hw : (s.inflight k).worker = some w) (hg : 1 ≤ (s.inflight k).gen)
      (hc : s.crashed w = false)
      (hold : s.storeSize w k (s.inflight k).gen ≤ s.workerUsed w)
      (hnew : s.workerUsed w - s.storeSize w k (s.inflight k).gen + (s.inflight k).size ≤ c.capacity) :
      Step c s (.workerWrite k)
        { s with
          store := except s.store w k (s.inflight k).gen (s.inflight k).value
          storeSize := except s.storeSize w k (s.inflight k).gen (s.inflight k).size
          workerUsed := update s.workerUsed w
            (s.workerUsed w - s.storeSize w k (s.inflight k).gen + (s.inflight k).size) }
  | evict {s : State K W V} {w : W} {k : K} {g : ℕ} (hg : 1 ≤ g ∧ (g : ℕ∞) ≤ c.maxGen)
      (hv : s.store w k g ≠ none) (hold : s.storeSize w k g ≤ s.workerUsed w) :
      Step c s (.evict w k g)
        { s with
          store := except s.store w k g none
          workerUsed := update s.workerUsed w (s.workerUsed w - s.storeSize w k g)
          storeSize := except s.storeSize w k g 0 }
  /-- A crash wipes bytes and index; the Master is not told. -/
  | crash {s : State K W V} {w : W} (h : s.crashed w = false) :
      Step c s (.crash w)
        { s with
          crashed := update s.crashed w true
          store := update s.store w fun _ _ => none
          storeSize := update s.storeSize w fun _ _ => 0
          workerUsed := update s.workerUsed w 0
          localIndex := update s.localIndex w fun _ => 0 }
  | localMarkFromRoute {s : State K W V} {w : W} {k : K} {r : Route W} (hr : s.route k = some r)
      (hw : r.worker = w) (hv : s.store w k r.gen ≠ none) :
      Step c s (.localMarkFromRoute w k)
        { s with localIndex := update s.localIndex w (update (s.localIndex w) k r.gen) }

def coreLts (c : Constants) : Lts (State K W V) (Action K W) where
  init := Init
  step := Step c

/-- What a refused `put_start` of key `k` does in the code: the old reservation is released. -/
def Release (k : K) (s s' : State K W V) : Prop := s' = { s with workers := s.released k }

/-- The specification with the releases of refused puts. -/
def releaseLts (c : Constants) : Lts (State K W V) (Action K W ⊕ K) where
  init := Init
  step s a s' :=
    match a with
    | .inl a => Step c s a s'
    | .inr k => Release k s s'

end Steps

/-! ## 2. Its invariants -/

/-- The bounds of `TypeOK`; membership in the sets is typing here. -/
structure TypeOK (c : Constants) (s : State K W V) : Prop where
  epoch : ∀ w, ((s.workers w).epoch : ℕ∞) ≤ c.maxEpoch
  used : ∀ w, (s.workers w).used ≤ c.capacity
  gen : ∀ k, ((s.objects k).gen : ℕ∞) ≤ c.maxGen
  putId : ∀ k, ((s.objects k).putId : ℕ∞) ≤ c.maxPutId
  size : ∀ k, (s.objects k).size ≤ c.capacity
  workerEpoch : ∀ k, ((s.objects k).workerEpoch : ℕ∞) ≤ c.maxEpoch
  putSeq : 1 ≤ s.putSeq ∧ (s.putSeq : ℕ∞) ≤ c.maxPutId + 1
  inflightPutId : ∀ k, ((s.inflight k).putId : ℕ∞) ≤ c.maxPutId
  inflightGen : ∀ k, ((s.inflight k).gen : ℕ∞) ≤ c.maxGen
  inflightSize : ∀ k, (s.inflight k).size ≤ c.capacity
  storeSize : ∀ w k g, s.storeSize w k g ≤ c.capacity
  workerUsed : ∀ w, s.workerUsed w ≤ c.capacity
  localIndex : ∀ w k, (s.localIndex w k : ℕ∞) ≤ c.maxGen

/-- The list `INVARIANTS` of the configuration. -/
structure Safe (c : Constants) (s : State K W V) : Prop where
  typeOK : TypeOK c s
  masterCapacityBound : ∀ w, (s.workers w).used ≤ c.capacity
  workerCapacityBound : ∀ w, s.workerUsed w ≤ c.capacity
  slotSizeConsistency : ∀ w k g, s.store w k g = none ↔ s.storeSize w k g = 0
  routeIsCommittedGeneration : ∀ k r, s.route k = some r →
    (s.objects k).state = .complete ∧ r.gen = (s.objects k).gen ∧ s.committedHist k r.gen ≠ none
  storeAgreesWithCommit : ∀ w k g, s.store w k g ≠ none → s.committedHist k g ≠ none →
    s.store w k g = s.committedHist k g
  routeReadExactOrMiss : ∀ k r, s.route k = some r →
    s.store r.worker k r.gen = none ∨ s.store r.worker k r.gen = s.committedHist k r.gen
  localHitWasCommitted : ∀ w k, s.localIndex w k ≠ 0 → s.store w k (s.localIndex w k) ≠ none →
    s.committedHist k (s.localIndex w k) ≠ none ∧
      s.store w k (s.localIndex w k) = s.committedHist k (s.localIndex w k)

/-! ## 3. The invariant of a key -/

/-- What holds of the object, the open put, the accepted values, the slots and the index entries of
    one key. -/
structure KeyInv (c : Constants) (o : Object W) (f : InFlight W V) (hist : ℕ → Option V)
    (store : W → ℕ → Option V) (size : W → ℕ → ℕ) (mark : W → ℕ) : Prop where
  /-- Nothing was put, or the object is that of the open put. -/
  shape : (o = initObject ∧ f = initInFlight) ∨ ∃ w v, o.state ≠ .absent ∧ 1 ≤ o.gen ∧
    o.worker = some w ∧ o.size ∈ c.sizes ∧
    f = { active := true, putId := o.putId, gen := o.gen, worker := some w, value := some v,
          size := o.size }
  accepted : ∀ g v, hist g = some v → g ≤ o.gen ∧ (g = o.gen → o.state = .complete ∧ f.value = some v)
  complete : o.state = .complete → hist o.gen = f.value
  stored : ∀ w g v, store w g = some v → g ≤ o.gen ∧ (g = o.gen → f.value = some v) ∧
    ∀ v', hist g = some v' → v' = v
  slot : ∀ w g, store w g = none ↔ size w g = 0
  marked : ∀ w, mark w ≠ 0 → hist (mark w) ≠ none

namespace KeyInv

variable {c : Constants} {o : Object W} {f : InFlight W V} {hist : ℕ → Option V}
  {store store' : W → ℕ → Option V} {size size' : W → ℕ → ℕ} {mark mark' : W → ℕ}

theorem init : KeyInv c (initObject : Object W) (initInFlight : InFlight W V) (fun _ => none)
    (fun _ _ => none) (fun _ _ => 0) fun _ => 0 where
  shape := .inl ⟨rfl, rfl⟩
  accepted _ _ h := by cases h
  complete h := by cases h
  stored _ _ _ h := by cases h
  slot _ _ := by simp
  marked _ h := absurd rfl h

/-- An active put is that of the object. -/
theorem active (h : KeyInv c o f hist store size mark) (ha : f.active) :
    ∃ w v, o.state ≠ .absent ∧ 1 ≤ o.gen ∧ o.worker = some w ∧ o.size ∈ c.sizes ∧
      f = { active := true, putId := o.putId, gen := o.gen, worker := some w, value := some v,
            size := o.size } := by
  rcases h.shape with ⟨_, rfl⟩ | h
  · cases ha
  · exact h

/-- The accepted value of a complete object is there. -/
theorem hist_complete (h : KeyInv c o f hist store size mark) (hc : o.state = .complete) :
    ∃ v, hist o.gen = some v ∧ f.value = some v := by
  rcases h.shape with ⟨rfl, _⟩ | ⟨w, v, _, _, _, _, hf⟩
  · cases hc
  · exact ⟨v, by rw [h.complete hc, hf], by rw [hf]⟩

/-- **A new put** gets a generation of which nothing was stored or accepted. -/
theorem opened (h : KeyInv c o f hist store size mark) {w : W} {v : V} {sz : ℕ}
    (hsz : sz ∈ c.sizes) (putId epoch : ℕ) :
    KeyInv c { state := .writing, gen := o.gen + 1, putId, size := sz, worker := some w,
               workerEpoch := epoch, reserved := true }
      { active := true, putId, gen := o.gen + 1, worker := some w, value := some v, size := sz }
      hist store size mark where
  shape := .inr ⟨w, v, by simp, by simp, rfl, hsz, rfl⟩
  accepted g v' hg := by
    have hle := (h.accepted g v' hg).1
    exact ⟨by simp; omega, fun he => by simp at he; omega⟩
  complete hc := by cases hc
  stored w' g v' hg := by
    obtain ⟨hle, _, hag⟩ := h.stored w' g v' hg
    exact ⟨by simp; omega, fun he => by simp at he; omega, hag⟩
  slot := h.slot
  marked := h.marked

/-- **A commit** accepts the value of the open put, with which all slots of its generation agree. -/
theorem committed (h : KeyInv c o f hist store size mark) (ha : f.active) :
    KeyInv c { o with state := .complete } f (update hist o.gen f.value) store size mark := by
  obtain ⟨w, v, _, hg, hw, hsz, rfl⟩ := h.active ha
  refine ⟨.inr ⟨w, v, by simp, hg, hw, hsz, rfl⟩, fun g v' hv => ?_, fun _ => by simp,
    fun w' g v' hv => ?_, h.slot, fun w' hm => ?_⟩
  · by_cases he : g = o.gen
    · subst he
      rw [update_self] at hv
      exact ⟨le_rfl, fun _ => ⟨rfl, hv⟩⟩
    · rw [update_of_ne he] at hv
      exact ⟨(h.accepted g v' hv).1, fun he' => absurd he' he⟩
  · obtain ⟨hle, hcur, hag⟩ := h.stored w' g v' hv
    refine ⟨hle, hcur, fun v'' hv' => ?_⟩
    by_cases he : g = o.gen
    · subst he
      rw [update_self, hcur rfl] at hv'
      exact (Option.some.inj hv').symm
    · rw [update_of_ne he] at hv'
      exact hag v'' hv'
  · by_cases he : mark w' = o.gen
    · rw [he, update_self]
      simp
    · rw [update_of_ne he]
      exact h.marked w' hm

/-- **Erasing** slots and index entries. -/
theorem erased (h : KeyInv c o f hist store size mark)
    (hs : ∀ w g, (store' w g = store w g ∧ size' w g = size w g) ∨ (store' w g = none ∧ size' w g = 0))
    (hm : ∀ w, mark' w = mark w ∨ mark' w = 0) : KeyInv c o f hist store' size' mark' where
  shape := h.shape
  accepted := h.accepted
  complete := h.complete
  stored w g v hv := by
    rcases hs w g with ⟨he, _⟩ | ⟨he, _⟩
    · exact h.stored w g v (he ▸ hv)
    · rw [he] at hv
      cases hv
  slot w g := by
    rcases hs w g with ⟨he, he'⟩ | ⟨he, he'⟩
    · rw [he, he']
      exact h.slot w g
    · simp [he, he']
  marked w hne := by
    rcases hm w with he | he
    · rw [he] at hne ⊢
      exact h.marked w hne
    · exact absurd he hne

/-- **A write** of the open put fills its slot on one worker. -/
theorem written [DecidableEq W] (h : KeyInv c o f hist store size mark) (ha : f.active) (w : W) :
    KeyInv c o f hist (update store w (update (store w) f.gen f.value))
      (update size w (update (size w) f.gen f.size)) mark := by
  obtain ⟨w₀, v, hst, hg, hw, hsz, rfl⟩ := h.active ha
  have hpos := (c.sizes_range _ hsz).1
  have hcell : ∀ w' g, (w' = w ∧ g = o.gen) ∨
      (update store w (update (store w) o.gen (some v)) w' g = store w' g ∧
        update size w (update (size w) o.gen o.size) w' g = size w' g) := by
    intro w' g
    by_cases hw' : w' = w
    · subst hw'
      by_cases hg' : g = o.gen
      · exact .inl ⟨rfl, hg'⟩
      · exact .inr (by simp [hg'])
    · exact .inr (by simp [hw'])
  refine ⟨h.shape, h.accepted, h.complete, fun w' g v' hv => ?_, fun w' g => ?_, h.marked⟩
  · rcases hcell w' g with ⟨rfl, rfl⟩ | ⟨he, _⟩
    · simp only [update_self, Option.some.injEq] at hv
      subst hv
      exact ⟨le_rfl, fun _ => rfl, fun v'' hv'' =>
        (Option.some.inj ((h.accepted _ v'' hv'').2 rfl).2).symm⟩
    · exact h.stored w' g v' (he ▸ hv)
  · rcases hcell w' g with ⟨rfl, rfl⟩ | ⟨he, he'⟩
    · simp
      omega
    · rw [he, he']
      exact h.slot w' g

/-- **An index entry** for an accepted generation. -/
theorem indexed [DecidableEq W] (h : KeyInv c o f hist store size mark) (hc : o.state = .complete)
    (w : W) : KeyInv c o f hist store size (update mark w o.gen) := by
  refine ⟨h.shape, h.accepted, h.complete, h.stored, h.slot, fun w' hne => ?_⟩
  by_cases hw : w' = w
  · subst hw
    obtain ⟨v, hv, _⟩ := h.hist_complete hc
    simp [hv]
  · rw [update_of_ne hw] at hne ⊢
    exact h.marked w' hne

end KeyInv

/-! ## 4. The invariant of the system -/

/-- The invariant of key `k`. -/
def State.KeyOK (c : Constants) (s : State K W V) (k : K) : Prop :=
  KeyInv c (s.objects k) (s.inflight k) (s.committedHist k) (fun w g => s.store w k g)
    (fun w g => s.storeSize w k g) fun w => s.localIndex w k

structure Inv (c : Constants) (s : State K W V) : Prop where
  typeOK : TypeOK c s
  keys : ∀ k, s.KeyOK c k

theorem route_eq_some {s : State K W V} {k : K} {r : Route W} (h : s.route k = some r) :
    (s.objects k).state = .complete ∧ r.gen = (s.objects k).gen ∧
      (s.objects k).worker = some r.worker ∧ s.masterAlive r.worker ∧
      (s.workers r.worker).epoch = (s.objects k).workerEpoch := by
  unfold State.route at h
  split_ifs at h with hc
  obtain ⟨w, hw, h⟩ := Option.bind_eq_some_iff.mp h
  split_ifs at h with ha
  cases h
  exact ⟨hc, rfl, hw, ha⟩

/-- **The invariants of the specification follow.** -/
theorem Inv.safe {c : Constants} {s : State K W V} (h : Inv c s) : Safe c s where
  typeOK := h.typeOK
  masterCapacityBound := h.typeOK.used
  workerCapacityBound := h.typeOK.workerUsed
  slotSizeConsistency w k g := (h.keys k).slot w g
  routeIsCommittedGeneration k r hr := by
    obtain ⟨hc, hg, _⟩ := route_eq_some hr
    obtain ⟨v, hv, _⟩ := (h.keys k).hist_complete hc
    exact ⟨hc, hg, by rw [hg, hv]; simp⟩
  storeAgreesWithCommit w k g hs hv := by
    obtain ⟨v, hs⟩ := Option.ne_none_iff_exists'.mp hs
    obtain ⟨v', hv⟩ := Option.ne_none_iff_exists'.mp hv
    rw [hs, hv, ((h.keys k).stored w g v hs).2.2 v' hv]
  routeReadExactOrMiss k r hr := by
    obtain ⟨hc, hg, _⟩ := route_eq_some hr
    obtain ⟨v, hv, _⟩ := (h.keys k).hist_complete hc
    cases hs : s.store r.worker k r.gen with
    | none => exact .inl rfl
    | some v' =>
      rw [hg] at hs ⊢
      rw [hv, ((h.keys k).stored _ _ v' hs).2.2 v hv]
      exact .inr rfl
  localHitWasCommitted w k hne hs := by
    have hv := (h.keys k).marked w hne
    obtain ⟨v, hs⟩ := Option.ne_none_iff_exists'.mp hs
    obtain ⟨v', hv'⟩ := Option.ne_none_iff_exists'.mp hv
    exact ⟨hv, by rw [hs, hv', ((h.keys k).stored w _ v hs).2.2 v' hv']⟩

theorem Inv.init {c : Constants} {s : State K W V} (h : Init s) : Inv c s := by
  obtain rfl := h
  refine ⟨?_, fun k => KeyInv.init⟩
  constructor <;> intros <;> simp [initWorker, initObject, initInFlight]

section Preserve

variable [DecidableEq K] [DecidableEq W] {c : Constants} {s s' : State K W V}

theorem forall_update {α β : Type} [DecidableEq α] {f : α → β} {P : β → Prop} {a : α} {b : β}
    (h : ∀ x, P (f x)) (hb : P b) : ∀ x, P (update f a b x) := by
  intro x
  by_cases hx : x = a
  · rw [hx, update_self]
    exact hb
  · rw [update_of_ne hx]
    exact h x

/-- A slot that is not the exception is as it was. -/
theorem except_cases {α : Type} (f : W → K → ℕ → α) (w : W) (k : K) (g : ℕ) (a : α) (w' : W) (k' : K)
    (g' : ℕ) : (except f w k g a w' k' g' = a ∧ w' = w ∧ k' = k ∧ g' = g) ∨
      (except f w k g a w' k' g' = f w' k' g' ∧ ¬ (w' = w ∧ k' = k ∧ g' = g)) := by
  unfold except
  by_cases hw : w' = w
  · subst hw
    by_cases hk : k' = k
    · subst hk
      by_cases hg : g' = g
      · subst hg
        simp
      · simp [hg]
    · simp [hk]
  · simp [hw]

/-- The slots of the key itself. -/
theorem except_key {α : Type} (f : W → K → ℕ → α) (w : W) (k : K) (g : ℕ) (a : α) :
    (fun w' g' => except f w k g a w' k g') =
      update (fun w' g' => f w' k g') w (update (f w k) g a) := by
  funext w' g'
  unfold except
  by_cases hw : w' = w
  · subst hw
    simp
  · simp [hw]

theorem except_of_ne {α : Type} (f : W → K → ℕ → α) (w : W) {k k' : K} (h : k' ≠ k) (g : ℕ) (a : α) :
    (fun w' g' => except f w k g a w' k' g') = fun w' g' => f w' k' g' := by
  funext w' g'
  rcases except_cases f w k g a w' k' g' with ⟨_, _, hk, _⟩ | ⟨he, _⟩
  · exact absurd hk h
  · exact he

omit [DecidableEq K] in
/-- A release lowers used counters, and does nothing else. -/
theorem released_cases (s : State K W V) (k : K) (w : W) :
    ∃ n, s.released k w = { s.workers w with used := (s.workers w).used - n } := by
  unfold State.released
  cases (s.objects k).reserved with
  | false => exact ⟨0, rfl⟩
  | true =>
      cases (s.objects k).worker with
      | none => exact ⟨0, rfl⟩
      | some w' =>
          by_cases hw : w = w'
          · exact ⟨(s.objects k).size, by simp [hw]⟩
          · exact ⟨0, by simp [hw]⟩

omit [DecidableEq K] in
theorem TypeOK.released (h : TypeOK c s) (k : K) :
    TypeOK c { s with workers := s.released k } where
  epoch w := by
    obtain ⟨n, hn⟩ := released_cases s k w
    simpa [hn] using h.epoch w
  used w := by
    obtain ⟨n, hn⟩ := released_cases s k w
    have := h.used w
    simp [hn]
    omega
  gen := h.gen
  putId := h.putId
  size := h.size
  workerEpoch := h.workerEpoch
  putSeq := h.putSeq
  inflightPutId := h.inflightPutId
  inflightGen := h.inflightGen
  inflightSize := h.inflightSize
  storeSize := h.storeSize
  workerUsed := h.workerUsed
  localIndex := h.localIndex

/-- **`TypeOK` is kept.** -/
theorem TypeOK.step {a : Action K W} (h : TypeOK c s) (hs : Step c s a s') : TypeOK c s' := by
  cases hs with
  | @register w hlt =>
      have hle : (((s.workers w).epoch + 1 : ℕ) : ℕ∞) ≤ c.maxEpoch := by
        push_cast
        exact Order.add_one_le_of_lt hlt
      exact { h with
        epoch := forall_update (P := fun x : Worker => (x.epoch : ℕ∞) ≤ c.maxEpoch) h.epoch hle
        used := forall_update (P := fun x : Worker => x.used ≤ c.capacity) h.used (Nat.zero_le _)
        storeSize := forall_update (P := fun x : K → ℕ → ℕ => ∀ k g, x k g ≤ c.capacity) h.storeSize
          fun _ _ => Nat.zero_le _
        workerUsed := forall_update (P := (· ≤ c.capacity)) h.workerUsed (Nat.zero_le _)
        localIndex := forall_update (P := fun x : K → ℕ => ∀ k, (x k : ℕ∞) ≤ c.maxGen) h.localIndex
          fun _ => by simp }
  | @heartbeat w _ _ =>
      exact { h with
        epoch := forall_update (P := fun x : Worker => (x.epoch : ℕ∞) ≤ c.maxEpoch) h.epoch (h.epoch w)
        used := forall_update (P := fun x : Worker => x.used ≤ c.capacity) h.used (h.used w) }
  | @suspectDead w _ =>
      exact { h with
        epoch := forall_update (P := fun x : Worker => (x.epoch : ℕ∞) ≤ c.maxEpoch) h.epoch (h.epoch w)
        used := forall_update (P := fun x : Worker => x.used ≤ c.capacity) h.used (h.used w) }
  | @putStart k sz _ chosen val hsz hid hgen hchosen =>
      have hr := h.released k
      have hgen' : (((s.objects k).gen + 1 : ℕ) : ℕ∞) ≤ c.maxGen := by
        push_cast
        exact Order.add_one_le_of_lt hgen
      have hsize := (c.sizes_range sz hsz).2
      refine { h with
        epoch := forall_update (P := fun x : Worker => (x.epoch : ℕ∞) ≤ c.maxEpoch) hr.epoch
          (hr.epoch chosen)
        used := forall_update (P := fun x : Worker => x.used ≤ c.capacity) hr.used hchosen.1.2
        gen := forall_update (P := fun x : Object W => (x.gen : ℕ∞) ≤ c.maxGen) h.gen hgen'
        putId := forall_update (P := fun x : Object W => (x.putId : ℕ∞) ≤ c.maxPutId) h.putId hid
        size := forall_update (P := fun x : Object W => x.size ≤ c.capacity) h.size hsize
        workerEpoch := forall_update (P := fun x : Object W => (x.workerEpoch : ℕ∞) ≤ c.maxEpoch)
          h.workerEpoch (hr.epoch chosen)
        putSeq := ⟨by simp, ?_⟩
        inflightPutId := forall_update (P := fun x : InFlight W V => (x.putId : ℕ∞) ≤ c.maxPutId)
          h.inflightPutId hid
        inflightGen := forall_update (P := fun x : InFlight W V => (x.gen : ℕ∞) ≤ c.maxGen)
          h.inflightGen hgen'
        inflightSize := forall_update (P := fun x : InFlight W V => x.size ≤ c.capacity)
          h.inflightSize hsize }
      push_cast
      exact add_le_add_left hid 1
  | @putCommit k _ _ _ =>
      exact { h with
        gen := forall_update (P := fun x : Object W => (x.gen : ℕ∞) ≤ c.maxGen) h.gen (h.gen k)
        putId := forall_update (P := fun x : Object W => (x.putId : ℕ∞) ≤ c.maxPutId) h.putId (h.putId k)
        size := forall_update (P := fun x : Object W => x.size ≤ c.capacity) h.size (h.size k)
        workerEpoch := forall_update (P := fun x : Object W => (x.workerEpoch : ℕ∞) ≤ c.maxEpoch)
          h.workerEpoch (h.workerEpoch k) }
  | @workerWrite k w _ _ _ _ _ hnew =>
      refine { h with
        storeSize := fun w' k' g' => ?_
        workerUsed := forall_update (P := (· ≤ c.capacity)) h.workerUsed hnew }
      rcases except_cases s.storeSize w k (s.inflight k).gen (s.inflight k).size w' k' g' with
        ⟨he, _⟩ | ⟨he, _⟩ <;> dsimp only <;> rw [he]
      · exact h.inflightSize k
      · exact h.storeSize w' k' g'
  | @evict w k g _ _ _ =>
      refine { h with
        storeSize := fun w' k' g' => ?_
        workerUsed := forall_update (P := (· ≤ c.capacity)) h.workerUsed
          (le_trans (Nat.sub_le _ _) (h.workerUsed w)) }
      rcases except_cases s.storeSize w k g 0 w' k' g' with ⟨he, _⟩ | ⟨he, _⟩ <;>
        dsimp only <;> rw [he]
      · exact Nat.zero_le _
      · exact h.storeSize w' k' g'
  | crash _ =>
      exact { h with
        storeSize := forall_update (P := fun x : K → ℕ → ℕ => ∀ k g, x k g ≤ c.capacity) h.storeSize
          fun _ _ => Nat.zero_le _
        workerUsed := forall_update (P := (· ≤ c.capacity)) h.workerUsed (Nat.zero_le _)
        localIndex := forall_update (P := fun x : K → ℕ => ∀ k, (x k : ℕ∞) ≤ c.maxGen) h.localIndex
          fun _ => by simp }
  | @localMarkFromRoute w k r hr _ _ =>
      refine { h with
        localIndex := forall_update (P := fun x : K → ℕ => ∀ k, (x k : ℕ∞) ≤ c.maxGen) h.localIndex
          (forall_update (P := fun n : ℕ => (n : ℕ∞) ≤ c.maxGen) (h.localIndex w) ?_) }
      rw [(route_eq_some hr).2.1]
      exact h.gen k

omit [DecidableEq K] in
/-- A worker's slots and entries of every key, wiped. -/
theorem State.KeyOK.wiped {k : K} (h : s.KeyOK c k) (w : W) (workers : W → Worker)
    (crashed : W → Bool) :
    State.KeyOK c
      { s with
        workers, crashed
        store := update s.store w fun _ _ => none
        storeSize := update s.storeSize w fun _ _ => 0
        workerUsed := update s.workerUsed w 0
        localIndex := update s.localIndex w fun _ => 0 } k := by
  refine KeyInv.erased h (fun w' g => ?_) fun w' => ?_
  · by_cases hw : w' = w
    · exact .inr (by simp [hw])
    · exact .inl (by simp [hw])
  · by_cases hw : w' = w
    · exact .inr (by simp [hw])
    · exact .inl (by simp [hw])

/-- **The invariant of each key is kept**: an action on another key does not touch it. -/
theorem keys_step {a : Action K W} (h : ∀ k, s.KeyOK c k) (hs : Step c s a s') (k' : K) :
    s'.KeyOK c k' := by
  cases hs with
  | @register w _ => exact (h k').wiped w _ _
  | heartbeat _ _ => exact h k'
  | suspectDead _ => exact h k'
  | @putStart k sz _ chosen val hsz _ _ _ =>
      unfold State.KeyOK
      by_cases hk : k' = k
      · subst hk
        simp only [update_self]
        exact KeyInv.opened (h k') hsz _ _
      · simp only [update_of_ne hk]
        exact h k'
  | @putCommit k _ ha _ =>
      unfold State.KeyOK
      by_cases hk : k' = k
      · subst hk
        simp only [update_self]
        exact KeyInv.committed (h k') ha
      · simp only [update_of_ne hk]
        exact h k'
  | @workerWrite k w ha _ _ _ _ _ =>
      unfold State.KeyOK
      by_cases hk : k' = k
      · subst hk
        simp only [except_key]
        exact KeyInv.written (h k') ha w
      · simp only [except_of_ne _ _ hk]
        exact h k'
  | @evict w k g _ _ _ =>
      refine KeyInv.erased (h k') (fun w' g' => ?_) fun w' => .inl rfl
      rcases except_cases s.store w k g none w' k' g' with ⟨he, rfl, rfl, rfl⟩ | ⟨he, hne⟩
      · exact .inr ⟨he, by simp [except]⟩
      · refine .inl ⟨he, ?_⟩
        rcases except_cases s.storeSize w k g 0 w' k' g' with ⟨_, hin⟩ | ⟨he', _⟩
        · exact absurd hin hne
        · exact he'
  | @crash w _ => exact (h k').wiped w s.workers _
  | @localMarkFromRoute w k r hr _ _ =>
      obtain ⟨hc, hg, _⟩ := route_eq_some hr
      unfold State.KeyOK
      by_cases hk : k' = k
      · subst hk
        have hidx := KeyInv.indexed (h k') hc w
        have heq : (fun w' => update s.localIndex w (update (s.localIndex w) k' r.gen) w' k') =
            update (fun w' => s.localIndex w' k') w (s.objects k').gen := by
          funext w'
          by_cases hw : w' = w
          · subst hw
            simp [hg]
          · simp [hw]
        simp only [heq]
        exact hidx
      · have heq : (fun w' => update s.localIndex w (update (s.localIndex w) k r.gen) w' k') =
            fun w' => s.localIndex w' k' := by
          funext w'
          by_cases hw : w' = w
          · subst hw
            simp [hk]
          · simp [hw]
        simp only [heq]
        exact h k'

theorem Inv.step {a : Action K W} (h : Inv c s) (hs : Step c s a s') : Inv c s' :=
  ⟨h.typeOK.step hs, keys_step h.keys hs⟩

omit [DecidableEq K] in
theorem Inv.release {k : K} (h : Inv c s) (hs : Release k s s') : Inv c s' := by
  obtain rfl := hs
  exact ⟨h.typeOK.released k, h.keys⟩

/-! ## 5. Runs -/

/-- The specification has no more runs than the system with releases. -/
theorem release_run {tr : List (Action K W)} (h : (coreLts c).Run tr s) :
    (releaseLts c).Run (tr.map Sum.inl) s := by
  induction h with
  | start h => exact .start h
  | step _ hs ih => exact .step ih hs

theorem inv_run {tr : List (Action K W ⊕ K)} (h : (releaseLts c).Run tr s) : Inv c s := by
  refine h.invariant (I := fun _ s => Inv c s) (fun s h => .init h) fun _ s a s' _ hI hs => ?_
  cases a with
  | inl a => exact hI.step hs
  | inr k => exact hI.release hs

/-- **Every run meets every invariant of the specification**, also with the releases of refused puts:
    for any number of keys, workers and values, and with or without bounds on generations, put ids
    and epochs. -/
theorem safe_run {tr : List (Action K W ⊕ K)} (h : (releaseLts c).Run tr s) : Safe c s :=
  (inv_run h).safe

end Preserve

/-- The constants of `DistKVCore.cfg`. -/
def modelChecked : Constants where
  sizes := {1, 2}
  capacity := 2
  maxGen := 2
  maxPutId := 3
  maxEpoch := 2
  sizes_range := by simp

/-- A put that was written and committed has a route. -/
theorem safe_run_routed : ∃ (tr : List (Action Bool Bool ⊕ Bool)) (s : State Bool Bool Bool),
    (releaseLts modelChecked).Run tr s ∧ s.route true = some ⟨false, 1⟩ ∧
      s.store false true 1 = some true ∧ Safe modelChecked s := by
  have hrun : (releaseLts modelChecked).Run [.inl (.putCommit true), .inl (.workerWrite true),
      .inl (.putStart true 2 none), .inl (.register false)] _ :=
    .step (.step (.step (.step (.start (rfl : Init (K := Bool) (W := Bool) (V := Bool) _))
      (Step.register (by decide)))
      (@Step.putStart Bool Bool Bool _ _ _ _ true 2 none false true (by simp [modelChecked]) (by decide)
        (by decide) ⟨⟨by decide, by decide⟩, fun _ h => by cases h⟩))
      (Step.workerWrite (w := false) (by decide) (by decide) (by decide) (by decide) (by decide)
        (by decide)))
      (Step.putCommit (by decide) (by decide) (by decide))
  exact ⟨_, _, hrun, by decide, by decide, safe_run hrun⟩

end Flour.DistKv.Core
