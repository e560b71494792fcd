/-
  File:      Flour/DistKv/Capacity.lean
  Subject:   The Master's capacity accounting: the used counter of a worker against the
             reservations that live on it.

  * `liveBytes m w epoch` -- what the objects reserve on `w` at `epoch`; `Accounted` -- the used
    counter of every worker is exactly that, and no worker is overbooked.
  * `MasterStep.usage` and `MasterStep.live` -- all a step can do to the counter and to the sum.
  * `used_le_capacity_run` -- the counter never exceeds the capacity, in any run.
  * `accounted_iff_clean` -- the counter is exact in every state of a run if and only if no
    `putStart` of the run released a reservation of an epoch that was over: such a reservation
    is subtracted from a counter it is not part of any more.
  * `rejected_putStart_unchanged_iff` -- a rejected `putStart` keeps its release: when it changes
    nothing, exactly.
-/
import Flour.DistKv.History

namespace Flour.DistKv

open Flour.Lib

/-! ## 1. Reservations -/

/-- What an object reserves on worker `w` at `epoch`. -/
def ObjectMeta.bytesOn (w : WorkerId) (epoch : ℕ) (obj : ObjectMeta) : ℕ :=
  if obj.reserved ∧ obj.workerId = some w ∧ obj.workerEpoch = epoch then obj.sizeBytes else 0

/-- The bytes reserved on worker `w` at `epoch`, over all objects. -/
def liveBytes (m : MasterState) (w : WorkerId) (epoch : ℕ) : ℕ :=
  sumBy (fun _ obj => obj.bytesOn w epoch) m.objects

/-- **Exact accounting**: every used counter is the sum of the live reservations, and these fit
    the capacity. -/
structure Accounted (m : MasterState) : Prop where
  exact : ∀ w x, m.workers.lookup w = some x → x.usedBytes = liveBytes m w x.epoch
  fits : ∀ w x, m.workers.lookup w = some x → liveBytes m w x.epoch ≤ x.capacityBytes

namespace Event

/-- The event is no failed `putStart`. -/
def PutOk : Event → Prop
  | .putStart _ _ (.error _) => False
  | _ => True

/-- The bytes a granted `putStart` reserves on worker `w`. -/
def placedOn (w : WorkerId) : Event → ℕ
  | .putStart _ req (.ok p) => if p.workerId = w then req.sizeBytes else 0
  | _ => 0

/-- The bytes a `putStart` takes off the counter of worker `w` in state `m`. -/
def releasedOn (m : MasterState) (w : WorkerId) : Event → ℕ
  | .putStart _ req _ => m.releasedOn req.key w
  | _ => 0

/-- The live bytes on `w` at `epoch` of the generation a `putStart` supersedes in state `m`. -/
def supersededOn (m : MasterState) (w : WorkerId) (epoch : ℕ) : Event → ℕ
  | .putStart _ req _ => ((m.objects.lookup req.key).map (·.bytesOn w epoch)).getD 0
  | _ => 0

end Event

/-- A `putStart` that releases only what its worker's counter still holds: the reservation's epoch
    is the worker's epoch, or there is nothing to subtract, or nothing to subtract it from. -/
def CleanRelease (m : MasterState) : Event → Prop
  | .putStart _ req _ => ∀ obj w x, m.objects.lookup req.key = some obj → obj.reserved = true →
      obj.workerId = some w → m.workers.lookup w = some x →
      x.epoch = obj.workerEpoch ∨ obj.sizeBytes = 0 ∨ x.usedBytes = 0
  | _ => True

/-! ## 2. All a step can do to a counter and to a sum -/

/-- **All a step can do to the counter of a worker**: a registration clears it; any other step
    takes off what it releases and adds what it places, which then fits the capacity. -/
theorem MasterStep.usage {m m' : MasterState} {e : Event} (h : MasterStep m e m') {w : WorkerId}
    {x' : WorkerMeta} (hx' : m'.workers.lookup w = some x') :
    (x'.usedBytes = 0 ∧ (∀ x, m.workers.lookup w = some x → x'.epoch = x.epoch + 1) ∧
      m'.objects = m.objects) ∨
    (∃ x, m.workers.lookup w = some x ∧ x'.epoch = x.epoch ∧
      x'.capacityBytes = x.capacityBytes ∧
      x'.usedBytes = x.usedBytes - e.releasedOn m w + e.placedOn w ∧
      e.placedOn w ≤ x.capacityBytes - (x.usedBytes - e.releasedOn m w)) := by
  have hold : m.workers.lookup w = some x' → e.releasedOn m w = 0 → e.placedOn w = 0 →
      ∃ x, m.workers.lookup w = some x ∧ x'.epoch = x.epoch ∧
        x'.capacityBytes = x.capacityBytes ∧
        x'.usedBytes = x.usedBytes - e.releasedOn m w + e.placedOn w ∧
        e.placedOn w ≤ x.capacityBytes - (x.usedBytes - e.releasedOn m w) := by
    intro hx hr hp
    exact ⟨x', hx, rfl, rfl, by rw [hr, hp]; rfl, by rw [hp]; exact Nat.zero_le _⟩
  -- an entry replaced by one that differs in its status or its lease only
  have hset : ∀ {id : WorkerId} {x y : WorkerMeta}, m.workers.lookup id = some x →
      (m.workers.insert id y).lookup w = some x' → y.epoch = x.epoch →
      y.capacityBytes = x.capacityBytes → y.usedBytes = x.usedBytes → e.releasedOn m w = 0 →
      e.placedOn w = 0 → ∃ x, m.workers.lookup w = some x ∧ x'.epoch = x.epoch ∧
        x'.capacityBytes = x.capacityBytes ∧
        x'.usedBytes = x.usedBytes - e.releasedOn m w + e.placedOn w ∧
        e.placedOn w ≤ x.capacityBytes - (x.usedBytes - e.releasedOn m w) := by
    intro id x y hx hy hepoch hcap hused hr hp
    by_cases hw : w = id
    · subst hw
      cases (Finmap.lookup_insert _).symm.trans hy
      exact ⟨x, hx, hepoch, hcap, by rw [hr, hp, hused]; rfl, by rw [hp]; exact Nat.zero_le _⟩
    · exact hold ((Finmap.lookup_insert_of_ne _ hw).symm.trans hy) hr hp
  cases h.effect with
  | heartbeatRefused | commitRefused | committed | routed | unknownDead =>
      exact Or.inr (hold hx' rfl rfl)
  | registered now id addr cap =>
      by_cases hw : w = id
      · subst hw
        have hl := Finmap.lookup_insert (a := w) (b := m.registered now w addr cap) m.workers
        cases Option.some.inj (hx'.symm.trans hl)
        exact Or.inl ⟨by simp, fun x hx => MasterState.registered_epoch_of_some m now w addr cap hx,
          rfl⟩
      · exact Or.inr (hold ((Finmap.lookup_insert_of_ne _ hw).symm.trans hx') rfl rfl)
  | @beaten _ _ _ _ hx => exact Or.inr (hset hx hx' rfl rfl rfl rfl rfl)
  | startRefused _ req =>
      have hl := MasterState.releasePrevious_lookup m req.key w
      rw [hx'] at hl
      obtain ⟨x, hx, rfl⟩ := Option.map_eq_some_iff.mp hl.symm
      exact Or.inr ⟨x, hx, rfl, rfl, rfl, Nat.zero_le _⟩
  | @started now putId req id x hx hfit =>
      by_cases hw : w = id
      · subst hw
        have hp : Event.placedOn w (.putStart now req (.ok (m.granted putId req w x))) =
            req.sizeBytes := if_pos rfl
        cases (Finmap.lookup_insert _).symm.trans hx'
        exact Or.inr ⟨x, hx, rfl, rfl, by rw [hp]; rfl, by rw [hp]; exact hfit⟩
      · have hp : Event.placedOn w (.putStart now req (.ok (m.granted putId req id x))) = 0 :=
          if_neg (Ne.symm hw)
        have hl := MasterState.releasePrevious_lookup m req.key w
        rw [← Finmap.lookup_insert_of_ne (m.releasePrevious req.key) hw, hx'] at hl
        obtain ⟨y, hy, rfl⟩ := Option.map_eq_some_iff.mp hl.symm
        exact Or.inr ⟨y, hy, rfl, rfl, by rw [hp]; rfl, by rw [hp]; exact Nat.zero_le _⟩
  | @dead _ _ hx => exact Or.inr (hset hx hx' rfl rfl rfl rfl rfl)

/-- **All a step can do to the live sum of a worker at its epoch**: what a granted `putStart`
    supersedes goes, what it places comes. -/
theorem MasterStep.live {m m' : MasterState} {e : Event} (h : MasterStep m e m') (hok : e.PutOk)
    {w : WorkerId} {x : WorkerMeta} (hx : m.workers.lookup w = some x) :
    liveBytes m' w x.epoch + e.supersededOn m w x.epoch =
      liveBytes m w x.epoch + e.placedOn w := by
  cases h.effect with
  | registered | heartbeatRefused | beaten | commitRefused | routed | unknownDead | dead => rfl
  | startRefused => exact hok.elim
  | @started now putId req id y hy =>
      have hnew : (m.opened putId req id y).bytesOn w x.epoch =
          Event.placedOn w (.putStart now req (.ok (m.granted putId req id y))) := by
        by_cases hw : id = w
        · subst hw
          rw [hx] at hy
          cases hy
          simp [ObjectMeta.bytesOn, MasterState.opened, Event.placedOn, MasterState.granted]
        · simp [ObjectMeta.bytesOn, MasterState.opened, Event.placedOn, MasterState.granted, hw]
      unfold liveBytes
      rw [sumBy_insert, hnew]
      cases ho : m.objects.lookup req.key with
      | none =>
          rw [sumBy_erase_of_none _ ho]
          simp only [Event.supersededOn, ho, Option.map_none, Option.getD_none]
          omega
      | some obj =>
          rw [sumBy_of_lookup _ ho]
          simp only [Event.supersededOn, ho, Option.map_some, Option.getD_some]
          omega
  | committed ho =>
      unfold liveBytes
      rw [sumBy_insert, sumBy_of_lookup _ ho]
      rfl

/-! ## 3. The counter never exceeds the capacity -/

/-- **Capacity bound, in every run**: whatever is released when, no counter exceeds its worker's
    capacity. -/
theorem used_le_capacity_run {tr : List Event} {m : MasterState} (h : masterLts.Run tr m) :
    ∀ w x, m.workers.lookup w = some x → x.usedBytes ≤ x.capacityBytes := by
  refine h.invariant (I := fun _ m => ∀ w x, m.workers.lookup w = some x →
    x.usedBytes ≤ x.capacityBytes) (fun m (h0 : m = MasterState.new) w x hx => ?_) ?_
  · rw [h0] at hx
    cases hx
  · intro tr m e m' _ hI hs w x' hx'
    rcases hs.usage hx' with ⟨h0, _⟩ | ⟨x, hx, _, hc, hu, hp⟩
    · omega
    · have := hI w x hx
      omega

/-! ## 4. The counter is exact while releases are clean -/

/-- In every run, an object placed on a worker was placed there at no later epoch than now. -/
theorem placement_epoch_le {tr : List Event} {m : MasterState} (h : masterLts.Run tr m)
    {k : ObjectKey} {obj : ObjectMeta} {w : WorkerId} {x : WorkerMeta}
    (ho : m.objects.lookup k = some obj) (hw : obj.workerId = some w)
    (hx : m.workers.lookup w = some x) : obj.workerEpoch ≤ x.epoch := by
  obtain ⟨since, p, _, hP⟩ := (encodes_run h).put k obj ho
  obtain ⟨y, hy, hle, _⟩ := hP.worker
  have hwp : p.workerId = w := Option.some.inj (hP.workerId.symm.trans hw)
  rw [hwp, hx] at hy
  cases hy
  exact hle

/-- In every run, an object names a registered worker. -/
theorem placement_registered {tr : List Event} {m : MasterState} (h : masterLts.Run tr m)
    {k : ObjectKey} {obj : ObjectMeta} {w : WorkerId} (ho : m.objects.lookup k = some obj)
    (hw : obj.workerId = some w) : ∃ x, m.workers.lookup w = some x := by
  obtain ⟨since, p, _, hP⟩ := (encodes_run h).put k obj ho
  obtain ⟨y, hy, _⟩ := hP.worker
  have hwp : p.workerId = w := Option.some.inj (hP.workerId.symm.trans hw)
  exact ⟨y, hwp ▸ hy⟩

theorem bytesOn_le_liveBytes {m : MasterState} {k : ObjectKey} {obj : ObjectMeta}
    (ho : m.objects.lookup k = some obj) (w : WorkerId) (epoch : ℕ) :
    obj.bytesOn w epoch ≤ liveBytes m w epoch :=
  sumBy_le_of_lookup (fun _ obj => ObjectMeta.bytesOn w epoch obj) ho

/-- Before a clean release, taking off what is recorded is taking off what is superseded. -/
theorem released_eq_superseded {m : MasterState} {e : Event} (hc : CleanRelease m e)
    {w : WorkerId} {x : WorkerMeta} (hx : m.workers.lookup w = some x)
    (hu : x.usedBytes = liveBytes m w x.epoch) :
    x.usedBytes - e.releasedOn m w = x.usedBytes - e.supersededOn m w x.epoch ∧
      e.supersededOn m w x.epoch ≤ x.usedBytes := by
  cases e with
  | putStart now req reply =>
      simp only [Event.releasedOn, Event.supersededOn, MasterState.releasedOn]
      cases ho : m.objects.lookup req.key with
      | none => exact ⟨rfl, Nat.zero_le _⟩
      | some obj =>
          have hle := bytesOn_le_liveBytes ho w x.epoch
          simp only [Option.map_some, Option.getD_some]
          by_cases hr : obj.reserved = true ∧ obj.workerId = some w
          · have hcl := hc obj w x ho hr.1 hr.2 hx
            by_cases he : x.epoch = obj.workerEpoch
            · have hb : obj.bytesOn w x.epoch = obj.sizeBytes := if_pos ⟨hr.1, hr.2, he.symm⟩
              rw [if_pos hr]
              omega
            · have hb : obj.bytesOn w x.epoch = 0 := if_neg fun hx => he hx.2.2.symm
              rw [if_pos hr, hb]
              omega
          · have hb : obj.bytesOn w x.epoch = 0 := if_neg fun hx => hr ⟨hx.1, hx.2.1⟩
            rw [if_neg hr, hb]
            omega
  | _ => exact ⟨rfl, Nat.zero_le _⟩

/-- **A step with a clean release keeps the accounting exact.** -/
theorem accounted_step {tr : List Event} {m m' : MasterState} {e : Event}
    (hrun : masterLts.Run tr m) (h : MasterStep m e m') (hok : e.PutOk) (hc : CleanRelease m e)
    (hI : Accounted m) : Accounted m' := by
  have hexact : ∀ w x', m'.workers.lookup w = some x' →
      x'.usedBytes = liveBytes m' w x'.epoch := by
    intro w x' hx'
    rcases h.usage hx' with ⟨h0, hep, hobj⟩ | ⟨x, hx, hep, _, hu, _⟩
    · -- every reservation on `w` is of an epoch before the new one
      rw [h0]
      refine (sumBy_eq_zero fun k obj ho => if_neg ?_).symm
      rintro ⟨_, hw, he⟩
      rw [hobj] at ho
      obtain ⟨x, hx⟩ := placement_registered hrun ho hw
      have hle := placement_epoch_le hrun ho hw hx
      have := hep x hx
      omega
    · have hlive := h.live hok hx
      obtain ⟨heq, hle⟩ := released_eq_superseded hc hx (hI.exact w x hx)
      have := hI.exact w x hx
      rw [hep]
      omega
  have hrun' := hrun.step h
  exact ⟨hexact, fun w x' hx' => hexact w x' hx' ▸ used_le_capacity_run hrun' w x' hx'⟩

/-- **A step with an unclean release breaks it.** -/
theorem not_accounted_step {m m' : MasterState} {e : Event} (h : MasterStep m e m')
    (hok : e.PutOk) (hI : Accounted m) (hc : ¬ CleanRelease m e) : ¬ Accounted m' := by
  cases e with
  | putStart now req reply =>
      simp only [CleanRelease, not_forall, not_or] at hc
      obtain ⟨obj, w, x, ho, hr, hw, hx, he, hsize, hused⟩ := hc
      have hsup : Event.supersededOn m w x.epoch (.putStart now req reply) = 0 := by
        have hb : obj.bytesOn w x.epoch = 0 := if_neg fun hx => he hx.2.2.symm
        simp [Event.supersededOn, ho, hb]
      have hrel : Event.releasedOn m w (.putStart now req reply) = obj.sizeBytes := by
        simp [Event.releasedOn, MasterState.releasedOn, ho, hr, hw]
      have hstay : ∃ x', m'.workers.lookup w = some x' ∧ x'.epoch = x.epoch := by
        rcases h.worker w with ⟨hi, _⟩ | ⟨_, _, _, hreg, _⟩ | ⟨_, _, _, hb, _⟩ | ⟨_, _, _, hs, _⟩
        · rw [hx] at hi
          obtain ⟨x', hx', _, hep, _⟩ := idle_eq hi
          exact ⟨x', hx', hep⟩
        · exact hreg.elim
        · cases hb
        · cases hs
      obtain ⟨x', hx', hep⟩ := hstay
      have hlive := h.live hok hx
      have hold := hI.exact w x hx
      intro hA
      have hnew := hA.exact w x' hx'
      rw [hep] at hnew
      rcases h.usage hx' with ⟨_, hbump, _⟩ | ⟨y, hy, _, _, hu, _⟩
      · have := hbump x hx
        omega
      · rw [hx] at hy
        cases hy
        omega
  | _ => exact absurd trivial hc

theorem accounted_new : Accounted MasterState.new :=
  ⟨fun _ _ h => (by cases h), fun _ _ h => (by cases h)⟩

/-- **Exact capacity accounting, when it holds.** In every run of the Master from the empty state
    in which every `putStart` is granted: the accounting is exact in every state of the run if
    and only if no `putStart` of it released a reservation of a past epoch off a counter. -/
theorem accounted_iff_clean {ltr : List (MasterState × Event)} {m : MasterState}
    (h : masterLts.logged.Run ltr m) (hok : ∀ x ∈ ltr, x.2.PutOk) :
    ((∀ x ∈ ltr, Accounted x.1) ∧ Accounted m) ↔ ∀ x ∈ ltr, CleanRelease x.1 x.2 := by
  induction h with
  | start h0 =>
    have h0 : _ = MasterState.new := h0
    subst h0
    exact ⟨fun _ _ hx => absurd hx List.not_mem_nil,
      fun _ => ⟨fun _ hx => absurd hx List.not_mem_nil, accounted_new⟩⟩
  | @step ltr m m' x h hs ih =>
    obtain ⟨hm, hs⟩ := hs
    have ih := ih fun y hy => hok y (List.mem_cons_of_mem _ hy)
    have hokx := hok x List.mem_cons_self
    simp only [List.forall_mem_cons]
    rw [← ih, hm]
    constructor
    · rintro ⟨⟨hA, hAll⟩, hA'⟩
      refine ⟨?_, hAll, hA⟩
      by_contra hc
      exact not_accounted_step hs hokx hA hc hA'
    · rintro ⟨hc, hAll, hA⟩
      exact ⟨⟨hA, hAll⟩, accounted_step h.of_logged hs hokx hc hA⟩

/-- A worker, a put, and a smaller put of the same key: its 128 bytes are taken off again. -/
def rewrittenMaster : MasterState :=
  let m1 := (MasterState.new.registerWorker 1000 "w1" "http://w1" 1024).2
  let m2 := (m1.putStart 1000 ["w1"] 7 ⟨"k", 128, none⟩).2
  (m2.putStart 1000 ["w1"] 8 ⟨"k", 64, none⟩).2

/-- A put that overwrites another within an epoch: the counter is exact throughout. -/
theorem rewritten_accounted : Accounted rewrittenMaster ∧
    (rewrittenMaster.workers.lookup "w1").map WorkerMeta.usedBytes = some 64 := by
  let m1 := (MasterState.new.registerWorker 1000 "w1" "http://w1" 1024).2
  let m2 := (m1.putStart 1000 ["w1"] 7 ⟨"k", 128, none⟩).2
  have hrun : masterLts.logged.Run
      [(m2, .putStart 1000 ⟨"k", 64, none⟩ (.ok ⟨8, "w1", "http://w1", 2⟩)),
        (m1, .putStart 1000 ⟨"k", 128, none⟩ (.ok ⟨7, "w1", "http://w1", 1⟩)),
        (MasterState.new, .registered 1000 "w1" "http://w1" 1024 1)] rewrittenMaster :=
    .step (.step (.step (.start rfl) ⟨rfl, .registerWorker rfl⟩)
      ⟨rfl, @MasterStep.putStart _ _ 1000 ["w1"] 7 _ _ rfl⟩)
      ⟨rfl, @MasterStep.putStart _ _ 1000 ["w1"] 8 _ _ rfl⟩
  refine ⟨((accounted_iff_clean hrun ?_).mpr ?_).2, rfl⟩
  · simp [Event.PutOk]
  · refine List.forall_mem_cons.mpr ⟨?_, List.forall_mem_cons.mpr ⟨?_, List.forall_mem_cons.mpr
      ⟨trivial, fun _ hx => absurd hx List.not_mem_nil⟩⟩⟩
    · -- the reservation of the first put is of the worker's epoch
      rintro obj w x ho - hw hx
      cases ho
      cases hw
      cases hx
      exact .inl rfl
    · rintro obj w x ho
      cases ho

/-- A worker registered twice, with a reservation of its first epoch overwritten in the second:
    the calls, newest first. -/
def overbookedTrace : List Event :=
  [.putStart 1000 ⟨"k3", 90, none⟩ (.ok ⟨4, "w1", "http://w1", 1⟩),
   .putStart 1000 ⟨"k1", 10, none⟩ (.ok ⟨3, "w1", "http://w1", 2⟩),
   .putStart 1000 ⟨"k2", 30, none⟩ (.ok ⟨2, "w1", "http://w1", 1⟩),
   .registered 1000 "w1" "http://w1" 100 2,
   .putStart 1000 ⟨"k1", 50, none⟩ (.ok ⟨1, "w1", "http://w1", 1⟩),
   .registered 1000 "w1" "http://w1" 100 1]

/-- The Master after the calls of `overbookedTrace`, oldest first. -/
def overbookedMaster : MasterState :=
  let m1 := (MasterState.new.registerWorker 1000 "w1" "http://w1" 100).2
  let m2 := (m1.putStart 1000 ["w1"] 1 ⟨"k1", 50, none⟩).2
  let m3 := (m2.registerWorker 1000 "w1" "http://w1" 100).2
  let m4 := (m3.putStart 1000 ["w1"] 2 ⟨"k2", 30, none⟩).2
  let m5 := (m4.putStart 1000 ["w1"] 3 ⟨"k1", 10, none⟩).2
  (m5.putStart 1000 ["w1"] 4 ⟨"k3", 90, none⟩).2

theorem overbooked_run : masterLts.Run overbookedTrace overbookedMaster :=
  .step (.step (.step (.step (.step (.step (.start rfl) (.registerWorker rfl))
    (@MasterStep.putStart _ _ 1000 ["w1"] 1 _ _ rfl)) (.registerWorker rfl))
    (@MasterStep.putStart _ _ 1000 ["w1"] 2 _ _ rfl))
    (@MasterStep.putStart _ _ 1000 ["w1"] 3 _ _ rfl))
    (@MasterStep.putStart _ _ 1000 ["w1"] 4 _ _ rfl)

/-- **Exact accounting fails.** All four puts are granted, and the worker of 100 bytes ends with
    130 live ones under a counter of 100: the overwrite of `k1` took the 50 bytes of the first
    epoch off the counter of the second. -/
theorem overbooked_not_accounted :
    masterLts.Run overbookedTrace overbookedMaster ∧ (∀ e ∈ overbookedTrace, e.PutOk) ∧
      ∃ x, overbookedMaster.workers.lookup "w1" = some x ∧ x.usedBytes = 100 ∧
        x.capacityBytes = 100 ∧ liveBytes overbookedMaster "w1" x.epoch = 130 := by
  refine ⟨overbooked_run, ?_, ⟨"http://w1", 100, 100, 2, 1000, .alive⟩, rfl, rfl, rfl, rfl⟩
  simp [overbookedTrace, Event.PutOk]

/-! ## 5. A rejected `putStart` -/

namespace MasterState

/-- Some alive worker has room for the request, once the key's old reservation is released. -/
def HasRoom (m : MasterState) (now : ℕ) (req : PutStartRequest) : Prop :=
  ∃ id w, m.workers.lookup id = some w ∧ workerIsAlive w now = true ∧
    req.sizeBytes ≤ w.capacityBytes - (w.usedBytes - m.releasedOn req.key id)

/-- The key has no reservation on a known worker that would come off its counter. -/
def ReleasesNothing (m : MasterState) (key : ObjectKey) : Prop :=
  ∀ id w, m.workers.lookup id = some w → m.releasedOn key id = 0 ∨ w.usedBytes = 0

theorem releasePrevious_eq_iff (m : MasterState) (key : ObjectKey) :
    m.releasePrevious key = m.workers ↔ m.ReleasesNothing key := by
  constructor
  · intro h id w hw
    have hl := releasePrevious_lookup m key id
    rw [h, hw] at hl
    have hu := congrArg WorkerMeta.usedBytes (Option.some.inj hl)
    dsimp only at hu
    omega
  · intro h
    refine Finmap.ext_lookup fun id => ?_
    rw [releasePrevious_lookup]
    cases hw : m.workers.lookup id with
    | none => rfl
    | some w =>
      have hu : w.usedBytes - m.releasedOn key id = w.usedBytes := by
        have := h id w hw
        omega
      simp [hu]

/-- With every worker in the iteration, the search finds one that is usable. -/
theorem mostFree_ne_none {workers : Finmap (fun _ : WorkerId => WorkerMeta)}
    {order : List WorkerId} {now size : ℕ} {id : WorkerId} {w : WorkerMeta} (hid : id ∈ order)
    (hw : workers.lookup id = some w) (hu : usable w now size = true) :
    mostFree workers order now size ≠ none := by
  intro hnone
  have hargmax := List.argmax_eq_none.mp (Option.map_eq_none_iff.mp hnone)
  have hempty := List.reverse_eq_nil_iff.mp hargmax
  have hmem : (id, w) ∈ (order.filterMap fun id => (workers.lookup id).map fun w => (id, w)) :=
    List.mem_filterMap.mpr ⟨id, hid, by rw [hw]; rfl⟩
  have hin : (id, w) ∈ (order.filterMap fun id => (workers.lookup id).map fun w => (id, w)).filter
      fun e => usable e.2 now size := List.mem_filter.mpr ⟨hmem, hu⟩
  rw [hempty] at hin
  exact absurd hin List.not_mem_nil

/-- **When a `putStart` is rejected**: no alive worker has room. -/
theorem putStart_rejected_iff (m : MasterState) (now : ℕ) {order : List WorkerId}
    (horder : ∀ id ∈ m.workers, id ∈ order) (putId : PutId) (req : PutStartRequest) :
    (∃ msg m', m.putStart now order putId req = (.error msg, m')) ↔ ¬ m.HasRoom now req := by
  constructor
  · rintro ⟨msg, m', h⟩ ⟨id, w, hw, halive, hfit⟩
    have hl : (m.releasePrevious req.key).lookup id =
        some { w with usedBytes := w.usedBytes - m.releasedOn req.key id } := by
      rw [releasePrevious_lookup, hw]
      rfl
    have hu : usable { w with usedBytes := w.usedBytes - m.releasedOn req.key id } now
        req.sizeBytes = true := by
      simp only [usable, Bool.and_eq_true, decide_eq_true_eq]
      exact ⟨halive, hfit⟩
    have hsome := mostFree_ne_none (horder id (Finmap.mem_of_lookup_eq_some hw)) hl hu
    unfold putStart at h
    dsimp only at h
    cases hc : chooseWorker (m.releasePrevious req.key) order now req with
    | none => exact hsome (Option.or_eq_none_iff.mp hc).2
    | some chosen =>
      obtain ⟨x, hx, _⟩ := usable_of_chooseWorker hc
      simp [hc, hx] at h
  · intro hno
    rcases m.putStart_cases now order putId req with ⟨msg, h⟩ | ⟨id, w, hw, halive, hfit, _⟩
    · exact ⟨msg, _, h⟩
    · exact absurd ⟨id, w, hw, halive, hfit⟩ hno

/-- **When a rejected `putStart` changes nothing.** Whatever the iteration order of the workers and
    the id drawn: the state is unchanged on every rejection if and only if there is none (a worker
    has room), or the release took nothing off a counter. -/
theorem rejected_putStart_unchanged_iff (m : MasterState) (now : ℕ) (req : PutStartRequest) :
    (∀ order putId msg m', (∀ id, id ∈ order ↔ id ∈ m.workers) →
      m.putStart now order putId req = (.error msg, m') → m' = m) ↔
    m.HasRoom now req ∨ m.ReleasesNothing req.key := by
  constructor
  · intro h
    by_cases hroom : m.HasRoom now req
    · exact Or.inl hroom
    refine Or.inr ((releasePrevious_eq_iff m req.key).mp ?_)
    have horder : ∀ id, id ∈ m.workers.keys.toList ↔ id ∈ m.workers := fun id => by
      rw [Finset.mem_toList, Finmap.mem_keys]
    obtain ⟨msg, m', hm⟩ :=
      (m.putStart_rejected_iff now (fun id => (horder id).mpr) 0 req).mpr hroom
    have hsame := h _ 0 msg m' horder hm
    rcases m.putStart_cases now m.workers.keys.toList 0 req with ⟨msg', hm'⟩ | ⟨_, _, _, _, _, hm'⟩
    · rw [hm'] at hm
      exact congrArg MasterState.workers ((Prod.mk.inj hm).2.trans hsame)
    · rw [hm'] at hm
      cases (Prod.mk.inj hm).1
  · intro hcond order putId msg m' horder hm
    have hno := (m.putStart_rejected_iff now (fun id => (horder id).mpr) putId req).mp
      ⟨msg, m', hm⟩
    have hrel := (releasePrevious_eq_iff m req.key).mpr (hcond.resolve_left hno)
    rcases m.putStart_cases now order putId req with ⟨msg', hm'⟩ | ⟨_, _, _, _, _, hm'⟩
    · rw [hm', hrel] at hm
      exact (Prod.mk.inj hm).2.symm
    · rw [hm'] at hm
      cases (Prod.mk.inj hm).1

end MasterState

/-- A worker of 100 bytes with one granted put of 50. -/
def halfUsedMaster : MasterState :=
  ((MasterState.new.registerWorker 1000 "w1" "http://w1" 100).2.putStart 1000 ["w1"] 1
    ⟨"k", 50, none⟩).2

/-- The same after an overwrite of 200 bytes was rejected. -/
def rejectedMaster : MasterState := (halfUsedMaster.putStart 1000 ["w1"] 2 ⟨"k", 200, none⟩).2

/-- **A rejected `putStart` leaves its release behind.** The 50 bytes of `k` stay recorded as
    reserved but are off the counter, so that a put of 100 bytes, which does not fit, is granted. -/
theorem rejected_putStart_releases :
    masterLts.Run [.putStart 1000 ⟨"k", 50, none⟩ (.ok ⟨1, "w1", "http://w1", 1⟩),
        .registered 1000 "w1" "http://w1" 100 1] halfUsedMaster ∧
      halfUsedMaster.putStart 1000 ["w1"] 2 ⟨"k", 200, none⟩ =
        (.error "no alive worker has 200 free bytes", rejectedMaster) ∧
      halfUsedMaster.workers.lookup "w1" = some ⟨"http://w1", 100, 50, 1, 1000, .alive⟩ ∧
      rejectedMaster.workers.lookup "w1" = some ⟨"http://w1", 100, 0, 1, 1000, .alive⟩ ∧
      liveBytes rejectedMaster "w1" 1 = 50 ∧
      (halfUsedMaster.putStart 1000 ["w1"] 3 ⟨"k2", 100, none⟩).1 =
        .error "no alive worker has 100 free bytes" ∧
      (rejectedMaster.putStart 1000 ["w1"] 3 ⟨"k2", 100, none⟩).1 =
        .ok ⟨3, "w1", "http://w1", 1⟩ := by
  refine ⟨?_, rfl, rfl, rfl, rfl, rfl, rfl⟩
  exact .step (.step (.start rfl) (.registerWorker rfl))
    (@MasterStep.putStart _ _ 1000 ["w1"] 1 _ _ rfl)

end Flour.DistKv
