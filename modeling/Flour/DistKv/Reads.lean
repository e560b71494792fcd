/-
  File:      Flour/DistKv/Reads.lean
  Subject:   What a fetch along a route returns: the exact bytes of the put that was committed, or
             a clean miss.

  * `LostSince tr p` -- since every accepted write of `p`, its server crashed or its slot was
    deleted there.
  * `Fenced` -- a step that lands no write of a put of an EARLIER Master on a slot where a put of
    the current Master has already written other bytes.
  * `kept_run` -- while all steps are fenced, the slot of every written put of the current Master
    holds its bytes or was lost.
  * `fetch_exact_or_lost` -- with a Master that never restarts, every step is fenced, so a fetch
    along a route is exact or a miss; `fetch_exact_of_fenced` -- with restarts, in fenced runs.
  * `staleRead` -- across a restart an unfenced write makes a route read another put's bytes.
-/
import Flour.DistKv.System

namespace Flour.DistKv

open Flour.Lib

/-! ## 1. Losing a slot -/

/-- The event empties the server `a` or deletes `slot` there. -/
def SysEvent.Loses (a : String) (slot : ObjectKey × ℕ) : SysEvent → Prop
  | .crashed b => b = a
  | .deleted b key generation => b = a ∧ (key, generation) = slot
  | _ => False

/-- After every accepted write of `p`, its slot was lost. -/
def LostSince (tr : List SysEvent) (p : Put) : Prop :=
  ∀ later e older, tr = later ++ e :: older → e.Stores p → ∃ l ∈ later, l.Loses p.server p.slot

theorem lostSince_cons {tr : List SysEvent} {p : Put} {e : SysEvent} (h : LostSince tr p)
    (he : ¬ e.Stores p) : LostSince (e :: tr) p := by
  intro later x older heq hx
  cases later with
  | nil =>
    cases heq
    exact absurd hx he
  | cons y later =>
    cases heq
    obtain ⟨l, hl, hloss⟩ := h later x older rfl hx
    exact ⟨l, List.mem_cons_of_mem _ hl, hloss⟩

theorem lostSince_of_loses {p : Put} {e : SysEvent} (tr : List SysEvent)
    (hl : e.Loses p.server p.slot) (he : ¬ e.Stores p) : LostSince (e :: tr) p := by
  intro later x older heq hx
  cases later with
  | nil =>
    cases heq
    exact absurd hx he
  | cons y later =>
    cases heq
    exact ⟨_, List.mem_cons_self, hl⟩

/-! ## 2. Written slots are kept -/

/-- The step lands no write of a put of an earlier Master on the slot of a put of the current
    Master that was already written with other bytes. -/
def Fenced (s : Sys) : SysEvent → Prop
  | .write q (.ok _) => q ∈ s.past → ∀ p ∈ s.puts, p ∈ s.written → p.server = q.server →
      p.slot = q.slot → p.bytes = q.bytes
  | _ => True

/-- What the slot of put `p` holds at its server. -/
def Sys.slotOf (s : Sys) (p : Put) : Option (List UInt8) :=
  (s.stores p.server).objects.lookup p.slot

/-- Every written put of the current Master has its bytes in its slot, or lost them. -/
def Kept (tr : List SysEvent) (s : Sys) : Prop :=
  ∀ p ∈ s.puts, p ∈ s.written →
    s.slotOf p = some p.bytes ∨ (s.slotOf p = none ∧ LostSince tr p)

section SlotOf

variable {s s' : Sys} {p : Put} {a : String} {store : WorkerStore}
  (hs : s'.stores = setStore s.stores a store)

include hs

theorem slotOf_update_self (h : p.server = a) : s'.slotOf p = store.objects.lookup p.slot := by
  rw [Sys.slotOf, hs, h, setStore_self]

theorem slotOf_update_of_ne (h : p.server ≠ a) : s'.slotOf p = s.slotOf p := by
  rw [Sys.slotOf, hs, setStore_of_ne _ h, Sys.slotOf]

end SlotOf

/-- A step that leaves the slot of `p` as it is keeps what is known of it. -/
theorem kept_of_slot_eq {tr : List SysEvent} {s s' : Sys} {p : Put} {e : SysEvent}
    (hI : s.slotOf p = some p.bytes ∨ (s.slotOf p = none ∧ LostSince tr p))
    (hs : s'.slotOf p = s.slotOf p) (he : ¬ e.Stores p) :
    s'.slotOf p = some p.bytes ∨ (s'.slotOf p = none ∧ LostSince (e :: tr) p) := by
  rw [hs]
  exact hI.imp_right fun h => ⟨h.1, lostSince_cons h.2 he⟩

/-- **One fenced step keeps the written slots.** -/
theorem kept_step {tr : List SysEvent} {s s' : Sys} {e : SysEvent} (hrun : sysLts.Run tr s)
    (hI : Kept tr s) (hs : SysStep s e s') (hf : Fenced s e) (hfresh : s'.drawn.Nodup) :
    Kept (e :: tr) s' := by
  intro p hp hw
  cases hs with
  | master _ _ => exact kept_of_slot_eq (hI p hp hw) rfl fun hx => hx
  | @put _ _ _ key bytes _ reply _ _ =>
      have hw : p ∈ s.written := hw
      have hold : p ∈ s.puts := by
        cases reply with
        | error msg => exact hp
        | ok start =>
            rcases List.mem_cons.mp hp with rfl | hold
            · -- a put granted only now was not written before: its id is new
              have hin := List.mem_map_of_mem (f := fun q => q.start.putId)
                (written_granted hrun _ hw)
              exact absurd hin (List.nodup_cons.mp hfresh).1
            · exact hold
      exact kept_of_slot_eq (hI p hold hw) rfl fun hx => hx
  | @write q reply store hq h =>
      have hp : p ∈ s.puts := hp
      rcases (s.stores q.server).putBytes_cases q.key q.start.objectGeneration q.bytes with
        ⟨msg, h', _⟩ | ⟨h', _⟩
      · rw [h'] at h
        cases h
        refine kept_of_slot_eq (hI p hp hw) ?_ fun hx => hx
        by_cases ha : p.server = q.server
        · rw [slotOf_update_self rfl ha, Sys.slotOf, ha]
        · exact slotOf_update_of_ne rfl ha
      · rw [h'] at h
        cases h
        by_cases hsame : p.server = q.server ∧ p.slot = q.slot
        · -- the write lands on the slot of `p`: it is a write of `p`, or fenced
          have hb : p.bytes = q.bytes := by
            rcases hq with hq | hq
            · rw [put_of_slot hrun hp hq hsame.2]
            · rcases List.mem_cons.mp hw with rfl | hw
              · rfl
              · exact hf hq p hp hw hsame.1 hsame.2
          refine Or.inl ?_
          rw [slotOf_update_self rfl hsame.1, hsame.2, hb]
          exact Finmap.lookup_insert _
        · have hne : p ≠ q := fun hx => hsame (by rw [hx]; exact ⟨rfl, rfl⟩)
          have hw : p ∈ s.written := (List.mem_cons.mp hw).resolve_left hne
          refine kept_of_slot_eq (hI p hp hw) ?_ fun hx => hne hx.symm
          by_cases ha : p.server = q.server
          · have hslot : p.slot ≠ q.slot := fun hx => hsame ⟨ha, hx⟩
            rw [slotOf_update_self rfl ha, Sys.slotOf, ha]
            exact Finmap.lookup_insert_of_ne _ hslot
          · exact slotOf_update_of_ne rfl ha
  | commit _ _ => exact kept_of_slot_eq (hI p hp hw) rfl fun hx => hx
  | @crash a _ _ _ =>
      by_cases ha : p.server = a
      · refine Or.inr ⟨by rw [slotOf_update_self rfl ha]; rfl, ?_⟩
        exact lostSince_of_loses tr ha.symm fun hx => hx
      · exact kept_of_slot_eq (hI p hp hw) (slotOf_update_of_ne rfl ha) fun hx => hx
  | @delete a key generation =>
      by_cases ha : p.server = a
      · by_cases hk : p.slot = (key, generation)
        · refine Or.inr ⟨?_, lostSince_of_loses tr ⟨ha.symm, hk.symm⟩ fun hx => hx⟩
          rw [slotOf_update_self rfl ha, WorkerStore.deleteGeneration_lookup, if_pos hk]
        · refine kept_of_slot_eq (hI p hp hw) ?_ fun hx => hx
          rw [slotOf_update_self rfl ha, WorkerStore.deleteGeneration_lookup, if_neg hk,
            Sys.slotOf, ha]
      · exact kept_of_slot_eq (hI p hp hw) (slotOf_update_of_ne rfl ha) fun hx => hx
  | restart => exact absurd hp List.not_mem_nil

/-- **Written slots are kept in every fenced run.** -/
theorem kept_run {tr : List SysEvent} {s : Sys} (h : (sysLts.restrict Fenced).Run tr s)
    (hfresh : s.drawn.Nodup) : Kept tr s := by
  induction h with
  | start h0 =>
    intro p hp
    rw [h0.2.2.1] at hp
    exact absurd hp List.not_mem_nil
  | step h hs ih =>
    exact kept_step h.of_restrict (ih ((drawn_suffix hs.1).sublist.nodup hfresh)) hs.1 hs.2 hfresh

/-! ## 3. Routes and later fetches -/

/-- Without a restart, puts and written puts are only added. -/
theorem puts_suffix {s s' : Sys} {tr : List SysEvent} (h : sysLts.Steps s tr s')
    (hnr : ∀ e ∈ tr, e ≠ .restarted) : s.puts <:+ s'.puts ∧ s.written <:+ s'.written := by
  induction h with
  | refl => exact ⟨List.suffix_refl _, List.suffix_refl _⟩
  | @step tr t t' e h hs ih =>
    obtain ⟨hp, hw⟩ := ih fun x hx => hnr x (List.mem_cons_of_mem _ hx)
    have hstep : t.puts <:+ t'.puts ∧ t.written <:+ t'.written := by
      cases hs with
      | put _ => exact ⟨List.suffix_append _ _, List.suffix_refl _⟩
      | write _ _ => exact ⟨List.suffix_refl _, List.suffix_append _ _⟩
      | restart => exact absurd rfl (hnr _ List.mem_cons_self)
      | _ => exact ⟨List.suffix_refl _, List.suffix_refl _⟩
    exact ⟨hp.trans hstep.1, hw.trans hstep.2⟩

/-- A written put has an accepted write in the trace. -/
theorem stores_of_written {tr : List SysEvent} {s : Sys} (h : sysLts.Run tr s) :
    ∀ p ∈ s.written, ∃ e ∈ tr, e.Stores p := by
  refine h.invariant (I := fun tr s => ∀ p ∈ s.written, ∃ e ∈ tr, e.Stores p)
    (fun s h0 p hp => ?_) ?_
  · rw [h0.2.2.2.2] at hp
    exact absurd hp List.not_mem_nil
  · intro tr s e s' _ hI hs p hp
    have hlift : p ∈ s.written → ∃ x ∈ e :: tr, x.Stores p := by
      intro hp
      obtain ⟨x, hx, hxs⟩ := hI p hp
      exact ⟨x, List.mem_cons_of_mem _ hx, hxs⟩
    cases hs with
    | @write q reply _ _ _ =>
        cases reply with
        | error msg => exact hlift hp
        | ok _ =>
            rcases List.mem_cons.mp hp with rfl | hp
            · exact ⟨_, List.mem_cons_self, rfl⟩
            · exact hlift hp
    | _ => exact hlift hp

theorem drawn_suffix_steps {s s' : Sys} {tr : List SysEvent} (h : sysLts.Steps s tr s') :
    s.drawn <:+ s'.drawn := by
  induction h with
  | refl => exact List.suffix_refl _
  | step _ hs ih => exact ih.trans (drawn_suffix hs)

/-- **A route read in a fenced run.** In every run, restarts of the Master included, whose steps
    are all fenced: a fetch along a route, at any time before the next restart, returns the bytes
    of the one put with that slot that the current Master granted and committed, or a miss; and
    a miss only when the slot was lost since it was written. -/
theorem fetch_exact_of_fenced {tr tr' : List SysEvent} {s s' : Sys}
    (h : (sysLts.restrict Fenced).Run tr s) (h' : (sysLts.restrict Fenced).Steps s tr' s')
    (hnr : ∀ e ∈ tr', e ≠ .restarted) (hfresh : s'.drawn.Nodup) {now : ℕ} {leaseId : LeaseId}
    {key : ObjectKey} {r : GetRouteResponse}
    (hr : s.master.getRoute now leaseId key = .ok (some r)) :
    ∃ p ∈ s.puts, p.slot = (key, r.objectGeneration) ∧ p.start.workerId = r.workerId ∧
      p.start.workerAddr = r.workerAddr ∧ (∀ q ∈ s'.puts, q.slot = p.slot → q = p) ∧
      (∃ e ∈ masterTrace tr, e.Commits key p.start.putId) ∧ (∃ e ∈ tr, e.Stores p) ∧
      (s'.fetch r.workerAddr key r.objectGeneration = some p.bytes ∨
        (s'.fetch r.workerAddr key r.objectGeneration = none ∧ LostSince (tr' ++ tr) p)) := by
  have hrun := h.of_restrict
  have hfresh₀ := (drawn_suffix_steps h'.of_restrict).sublist.nodup hfresh
  obtain ⟨p, hp, hslot, hid, haddr, hw, hc⟩ := routed_put hrun hfresh₀ hr
  obtain ⟨hputs, hwritten⟩ := puts_suffix h'.of_restrict hnr
  have hp' := hputs.subset hp
  have hfetch : s'.fetch r.workerAddr key r.objectGeneration = s'.slotOf p := by
    rw [Sys.fetch, Sys.slotOf, Put.server, haddr, hslot]
  refine ⟨p, hp, hslot, hid, haddr, fun q hq hqs => ?_, hc, stores_of_written hrun p hw, ?_⟩
  · exact put_of_slot (hrun.trans h'.of_restrict) hq hp' hqs
  · rw [hfetch]
    exact kept_run (h.trans h') hfresh p hp' (hwritten.subset hw)

theorem past_nil_of_no_restart {tr : List SysEvent} {s : Sys} (h : sysLts.Run tr s)
    (hnr : ∀ e ∈ tr, e ≠ .restarted) : s.past = [] := by
  induction h with
  | start h0 => exact h0.2.2.2.1
  | @step tr s s' e h hs ih =>
    have ih := ih fun x hx => hnr x (List.mem_cons_of_mem _ hx)
    cases hs with
    | restart => exact absurd rfl (hnr _ List.mem_cons_self)
    | _ => exact ih

/-- Without a restart there are no puts of earlier Masters, so every step is fenced. -/
theorem fenced_of_no_restart {tr : List SysEvent} (hnr : ∀ e ∈ tr, e ≠ .restarted)
    (tr' : List SysEvent) (s' : Sys) (e : SysEvent) (hsuf : e :: tr' <:+ tr)
    (hrun : sysLts.Run tr' s') : Fenced s' e := by
  have hpast : s'.past = [] := past_nil_of_no_restart hrun fun x hx =>
    hnr x (hsuf.subset (List.mem_cons_of_mem _ hx))
  unfold Fenced
  split
  · intro hq
    rw [hpast] at hq
    exact absurd hq List.not_mem_nil
  · trivial

/-- **Exact bytes or a clean miss.** One Master that is not restarted, with fresh put ids: whatever
    is delayed, lost, duplicated, crashed or deleted in between, a fetch along a route, at any
    later step, returns the bytes of the one put of that slot, which was committed, or a miss; and
    a miss only when the slot was lost since every accepted write of that put. -/
theorem fetch_exact_or_lost {tr tr' : List SysEvent} {s s' : Sys} (h : sysLts.Run tr s)
    (h' : sysLts.Steps s tr' s') (hnr : ∀ e ∈ tr' ++ tr, e ≠ .restarted)
    (hfresh : s'.drawn.Nodup) {now : ℕ} {leaseId : LeaseId} {key : ObjectKey}
    {r : GetRouteResponse} (hr : s.master.getRoute now leaseId key = .ok (some r)) :
    ∃ p ∈ s.puts, p.slot = (key, r.objectGeneration) ∧ p.start.workerId = r.workerId ∧
      p.start.workerAddr = r.workerAddr ∧ (∀ q ∈ s'.puts, q.slot = p.slot → q = p) ∧
      (∃ e ∈ masterTrace tr, e.Commits key p.start.putId) ∧ (∃ e ∈ tr, e.Stores p) ∧
      (s'.fetch r.workerAddr key r.objectGeneration = some p.bytes ∨
        (s'.fetch r.workerAddr key r.objectGeneration = none ∧ LostSince (tr' ++ tr) p)) := by
  have hall := fenced_of_no_restart hnr
  refine fetch_exact_of_fenced (h.restrict fun tr'' s'' e hsuf => hall tr'' s'' e ?_)
    (h'.restrict h hall) (fun e he => hnr e (List.mem_append_left _ he)) hfresh hr
  exact hsuf.trans (List.suffix_append _ _)

/-! ## 4. Concrete runs -/

/-- One worker, with nothing stored, and the Master empty. -/
def oneWorker : Sys :=
  { master := .new, stores := fun _ => .new "w1" 0 1024, puts := [], past := [], written := [] }

/-- Two puts of one key by two clients, both granted generation 1. -/
def putA : Put := ⟨"k", [1], ⟨1, "w1", "http://w1", 1⟩⟩
def putB : Put := ⟨"k", [2], ⟨2, "w1", "http://w1", 1⟩⟩

/-- The worker registers and the put goes through, newest first. -/
def putTrace (p : Put) : List SysEvent :=
  [.commit p (.ok ()), .write p (.ok ()), .put 1000 p.key p.bytes none (.ok p.start),
   .master (.registered 1000 "w1" "http://w1" 1024 1)]

/-- The Master after the put is granted and committed, on a worker registered just before. -/
def putMaster (p : Put) : MasterState :=
  (((MasterState.new.registerWorker 1000 "w1" "http://w1" 1024).2.putStart 1000 ["w1"]
    p.start.putId ⟨p.key, p.bytes.length, none⟩).2.putCommit ⟨p.key, p.start.putId⟩).2

/-- The worker's store with the bytes of the put. -/
def putStore (p : Put) : WorkerStore :=
  (WorkerStore.new "w1" 0 1024).stored p.key p.start.objectGeneration p.bytes p.bytes.length

/-- The system after the put is committed, when `past` was granted by an earlier Master. -/
def putSys (p : Put) (past : List Put) : Sys :=
  { master := putMaster p, stores := setStore oneWorker.stores p.server (putStore p), puts := [p],
    past, written := [p] }

/-- The put goes through in any system that is like `oneWorker` but for the puts of the past. -/
theorem putB_steps {past : List Put} (h : putB ∉ past) :
    (sysLts.restrict Fenced).Steps { oneWorker with past } (putTrace putB) (putSys putB past) :=
  .step (.step (.step (.step .refl ⟨.master trivial (.registerWorker rfl), trivial⟩)
    ⟨@SysStep.put _ 1000 ["w1"] 2 "k" [2] none _ _ rfl, trivial⟩)
    ⟨.write (Or.inl List.mem_cons_self) rfl, fun hp => absurd hp h⟩)
    ⟨.commit List.mem_cons_self rfl, trivial⟩

/-- The worker registers, `putA` is granted, and the Master restarts and refuses the next
    heartbeat. -/
def restartTrace : List SysEvent :=
  [.master (.heartbeat 4000 "w1" 1 (.error "unknown worker w1")), .restarted,
   .put 1000 "k" [1] none (.ok putA.start), .master (.registered 1000 "w1" "http://w1" 1024 1)]

theorem oneWorker_start : (sysLts.restrict Fenced).Run [] oneWorker :=
  .start ⟨rfl, fun _ => ⟨"w1", 0, 1024, rfl⟩, rfl, rfl, rfl⟩

theorem restart_run :
    (sysLts.restrict Fenced).Run restartTrace { oneWorker with past := [putA] } :=
  .step (.step (.step (.step oneWorker_start ⟨.master trivial (.registerWorker rfl), trivial⟩)
    ⟨@SysStep.put _ 1000 ["w1"] 1 "k" [1] none _ _ rfl, trivial⟩) ⟨.restart, trivial⟩)
    ⟨.master trivial (.heartbeat rfl), trivial⟩

/-- The route to the slot of both puts. -/
def putRoute : GetRouteResponse := MasterState.routeTo "k" "w1" "http://w1" 1 9 1000

/-- A put that went through is read back. -/
theorem putB_read : ∃ p ∈ (putSys putB []).puts, p.slot = ("k", 1) ∧ p.start.workerId = "w1" ∧
    p.start.workerAddr = "http://w1" ∧ (∀ q ∈ (putSys putB []).puts, q.slot = p.slot → q = p) ∧
    (∃ e ∈ masterTrace (putTrace putB), e.Commits "k" p.start.putId) ∧
    (∃ e ∈ putTrace putB, e.Stores p) ∧
    ((putSys putB []).fetch "http://w1" "k" 1 = some p.bytes ∨
      ((putSys putB []).fetch "http://w1" "k" 1 = none ∧ LostSince (putTrace putB) p)) :=
  have h := (oneWorker_start.trans (putB_steps List.not_mem_nil)).of_restrict
  @fetch_exact_or_lost _ _ _ _ h .refl (by simp [putTrace]) (by decide) 1000 9 "k" putRoute rfl

/-- So it is after a restart of the Master, while no old write arrives. -/
theorem putB_read_after_restart :
    ∃ p ∈ (putSys putB [putA]).puts, p.slot = ("k", 1) ∧ p.start.workerId = "w1" ∧
    p.start.workerAddr = "http://w1" ∧
    (∀ q ∈ (putSys putB [putA]).puts, q.slot = p.slot → q = p) ∧
    (∃ e ∈ masterTrace (putTrace putB ++ restartTrace), e.Commits "k" p.start.putId) ∧
    (∃ e ∈ putTrace putB ++ restartTrace, e.Stores p) ∧
    ((putSys putB [putA]).fetch "http://w1" "k" 1 = some p.bytes ∨
      ((putSys putB [putA]).fetch "http://w1" "k" 1 = none ∧
        LostSince (putTrace putB ++ restartTrace) p)) :=
  have h := restart_run.trans (putB_steps (by decide))
  @fetch_exact_of_fenced _ _ _ _ h .refl (fun _ he => absurd he List.not_mem_nil) (by decide)
    1000 9 "k" putRoute rfl

/-- **A read across a restart returns another put's bytes.** The write of `putA`, granted before
    the restart, arrives after `putB`, granted the same slot by the new Master, was written and
    committed: the route of the new Master now reads the bytes of `putA`. -/
theorem staleRead :
    let s := putSys putB [putA]
    let s' := s.wrote putA (.ok ()) ((putStore putB).stored "k" 1 [1] 1)
    sysLts.Run (putTrace putB ++ restartTrace) s ∧
      s.master.getRoute 1000 9 "k" = .ok (some putRoute) ∧
      sysLts.Steps s [.write putA (.ok ())] s' ∧ s'.drawn.Nodup ∧
      s'.fetch putRoute.workerAddr "k" putRoute.objectGeneration = some putA.bytes ∧
      s'.puts = [putB] ∧ putA.bytes ≠ putB.bytes := by
  refine ⟨(restart_run.trans (putB_steps (by decide))).of_restrict, rfl, ?_, by decide, ?_, rfl,
    by decide⟩
  · refine .step .refl (.write (Or.inr List.mem_cons_self) ?_)
    have hstore : (putSys putB [putA]).stores putA.server = putStore putB := setStore_self _ _ _
    rw [hstore]
    rfl
  · have hstore : ((putSys putB [putA]).wrote putA (.ok ())
        ((putStore putB).stored "k" 1 [1] 1)).stores (baseUrl putRoute.workerAddr) =
        (putStore putB).stored "k" 1 [1] 1 := setStore_self _ _ _
    rw [Sys.fetch, hstore]
    rfl

end Flour.DistKv
