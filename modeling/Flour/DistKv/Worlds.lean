/-
  File:      Flour/DistKv/Worlds.lean
  Subject:   Runs of the system as worlds that move on, and what a client that only sees answers can
             know of them.

  * `AtOrigins`, `held_written`, `published_of_commits` -- the addresses, the stored bytes and the
    accepted commits of every run, restarts of the Master included;
  * `World` -- a run in which put ids are drawn once; later worlds continue it;
  * **`World.Found.written`, `World.Found.fresh`** -- bytes found at the end of a route are those of a
    written put of the key; while the Master does not restart they are published, and no put that was
    published before the route was asked for is newer.
-/
import Flour.DistKv.Reads
import Flour.Lib.Url
import Mathlib.Order.Defs.PartialOrder

namespace Flour.DistKv

open Flour.Lib Flour.Lib.Url

/-! ## 1. Runs of the system -/

/-- Workers register at an origin, and the Master restarts only if that may happen. -/
def Fair (urls : Urls) (mayRestart : Prop) : SysEvent → Prop
  | .master (.registered _ _ addr _ _) => urls.Origin (baseUrl addr)
  | .restarted => mayRestart
  | _ => True

/-- The system whose steps are fair. -/
abbrev fairLts (urls : Urls) (mayRestart : Prop) : Lts Sys SysEvent :=
  sysLts.restrict fun _ e => Fair urls mayRestart e

section Runs

variable {urls : Urls} {mayRestart : Prop} {tr : List SysEvent} {s s' : Sys} {e : SysEvent}

/-- The addresses after a step of the Master: those before it, and that of a registration. -/
theorem MasterStep.addr {m m' : MasterState} {ev : Event} (h : MasterStep m ev m') {id : WorkerId}
    {x : WorkerMeta} (hx : m'.workers.lookup id = some x) :
    (∃ y, m.workers.lookup id = some y ∧ y.addr = x.addr) ∨
      ∃ now cap epoch, ev = .registered now id x.addr cap epoch := by
  rcases h.worker id with ⟨hidle, -⟩ | ⟨now, addr, cap, hr, -, -, hx'⟩ | ⟨y, _, -, -, -, hy, hx'⟩ |
    ⟨y, -, -, -, hy, hx'⟩
  · rw [hx] at hidle
    obtain ⟨y, hy, haddr, -⟩ := idle_eq hidle.symm
    exact Or.inl ⟨y, hy, haddr⟩
  · cases h with
    | registerWorker h =>
      cases h
      cases hr
      rw [Finmap.lookup_insert] at hx
      cases hx
      exact Or.inr ⟨_, _, _, by rw [MasterState.registered_addr]⟩
    | _ => exact hr.elim
  · rw [hx] at hx'
    cases hx'
    exact Or.inl ⟨y, hy, rfl⟩
  · rw [hx] at hx'
    cases hx'
    exact Or.inl ⟨y, hy, rfl⟩

/-- A put is granted at the address of a worker. -/
theorem putStart_addr {m m' : MasterState} {now : ℕ} {order : List WorkerId} {putId : PutId}
    {req : PutStartRequest} {start : PutStartResponse}
    (h : m.putStart now order putId req = (.ok start, m')) :
    ∃ x, m.workers.lookup start.workerId = some x ∧ start.workerAddr = x.addr := by
  rcases (MasterStep.putStart h).object req.key with ⟨-, hg, -⟩ |
    ⟨p, x, _, hg, -, hx, -, -, -, -, -, -, haddr, -⟩ | ⟨_, _, hg, -⟩
  · simp [Event.grant] at hg
  · have hp : start = p := by simpa [Event.grant] using hg
    exact ⟨x, hp ▸ hx, hp ▸ haddr⟩
  · simp [Event.grant] at hg

theorem putStart_putId {m m' : MasterState} {now : ℕ} {order : List WorkerId} {putId : PutId}
    {req : PutStartRequest} {start : PutStartResponse}
    (h : m.putStart now order putId req = (.ok start, m')) : start.putId = putId := by
  rcases m.putStart_cases now order putId req with ⟨msg, h'⟩ | ⟨id, x, _, _, _, h'⟩ <;>
    cases h'.symm.trans h
  rfl

/-- Workers and puts are at origins. -/
structure AtOrigins (urls : Urls) (s : Sys) : Prop where
  worker {id : WorkerId} {x : WorkerMeta} (h : s.master.workers.lookup id = some x) :
    urls.Origin (baseUrl x.addr)
  put {p : Put} (h : p ∈ s.puts ++ s.past) : urls.Origin p.server

theorem origins_run (h : (fairLts urls mayRestart).Run tr s) : AtOrigins urls s := by
  refine h.invariant (I := fun _ s => AtOrigins urls s) (fun s h0 => ?_) fun tr s e s' _ hI hs => ?_
  · obtain ⟨hm, -, hputs, hpast, -⟩ := h0
    refine ⟨fun hx => ?_, fun hp => ?_⟩
    · rw [hm] at hx
      cases hx
    · rw [hputs, hpast] at hp
      cases hp
  obtain ⟨hs, hfair⟩ := hs
  -- a call to the Master that registers nobody
  have hkeep : ∀ {m' : MasterState} {ev : Event}, MasterStep s.master ev m' → ev.Aside = False →
      ∀ {id x}, m'.workers.lookup id = some x → urls.Origin (baseUrl x.addr) := by
    intro m' ev h haside id x hx
    rcases h.addr hx with ⟨y, hy, haddr⟩ | ⟨now, cap, epoch, rfl⟩
    · exact haddr ▸ hI.worker hy
    · exact (haside ▸ trivial : False).elim
  cases hs with
  | master ha h =>
    refine ⟨fun hx => ?_, hI.put⟩
    rcases h.addr hx with ⟨y, hy, haddr⟩ | ⟨now, cap, epoch, rfl⟩
    · exact haddr ▸ hI.worker hy
    · exact hfair
  | @put _ _ _ key bytes _ reply _ h =>
    refine ⟨hkeep (.putStart h) rfl, fun {p} hp => ?_⟩
    cases reply with
    | error msg => exact hI.put hp
    | ok start =>
      rcases List.mem_cons.mp hp with rfl | hp
      · obtain ⟨x, hx, haddr⟩ := putStart_addr h
        rw [Put.server, haddr]
        exact hI.worker hx
      · exact hI.put hp
  | write hp h => exact ⟨hI.worker, hI.put⟩
  | commit hp h => exact ⟨hkeep (.putCommit h) rfl, hI.put⟩
  | crash => exact ⟨hI.worker, hI.put⟩
  | delete => exact ⟨hI.worker, hI.put⟩
  | restart =>
    refine ⟨fun hx => ?_, hI.put⟩
    cases hx

/-- Puts that were granted, and puts that were written, stay so over a restart. -/
theorem granted_suffix (h : SysStep s e s') :
    s.puts ++ s.past <:+ s'.puts ++ s'.past ∧ s.written <:+ s'.written := by
  cases h with
  | put _ =>
    rw [List.append_assoc]
    exact ⟨List.suffix_append _ _, List.suffix_refl _⟩
  | write _ _ => exact ⟨List.suffix_refl _, List.suffix_append _ _⟩
  | _ => exact ⟨List.suffix_refl _, List.suffix_refl _⟩

theorem granted_suffix_steps (h : sysLts.Steps s tr s') :
    s.puts ++ s.past <:+ s'.puts ++ s'.past ∧ s.written <:+ s'.written := by
  induction h with
  | refl => exact ⟨List.suffix_refl _, List.suffix_refl _⟩
  | step _ hs ih => exact ⟨ih.1.trans (granted_suffix hs).1, ih.2.trans (granted_suffix hs).2⟩

theorem stored_lookup_self (store : WorkerStore) (p : Put) (used : ℕ) :
    (store.stored p.key p.start.objectGeneration p.bytes used).objects.lookup p.slot =
      some p.bytes := Finmap.lookup_insert _

theorem stored_lookup_of_ne (store : WorkerStore) {p : Put} {slot : ObjectKey × ℕ} {used : ℕ}
    (h : slot ≠ p.slot) :
    (store.stored p.key p.start.objectGeneration p.bytes used).objects.lookup slot =
      store.objects.lookup slot := Finmap.lookup_insert_of_ne _ h

/-- **What a worker holds was written there**, under any Master. -/
theorem held_written (h : sysLts.Run tr s) {a : String} {slot : ObjectKey × ℕ} {b : List UInt8}
    (hb : (s.stores a).objects.lookup slot = some b) :
    ∃ p ∈ s.written, p.server = a ∧ p.slot = slot ∧ p.bytes = b := by
  refine h.invariant (I := fun _ s => ∀ a slot b, (s.stores a).objects.lookup slot = some b →
    ∃ p ∈ s.written, p.server = a ∧ p.slot = slot ∧ p.bytes = b) (fun s h0 a slot b hb => ?_)
    (fun tr s e s' _ hI hs a slot b hb => ?_) a slot b hb
  · obtain ⟨id, epoch, cap, hnew⟩ := h0.2.1 a
    rw [hnew] at hb
    cases hb
  -- the store of another server, or what it held before
  have hkeep : ∀ {server : String} {store : WorkerStore},
      (a = server → store.objects.lookup slot = some b →
        (s.stores a).objects.lookup slot = some b) →
      (setStore s.stores server store a).objects.lookup slot = some b →
      (s.stores a).objects.lookup slot = some b := by
    intro server store hsame h
    by_cases ha : a = server
    · refine hsame ha ?_
      rwa [ha, setStore_self] at h
    · rwa [setStore_of_ne _ ha] at h
  cases hs with
  | master _ _ => exact hI a slot b hb
  | put _ => exact hI a slot b hb
  | commit _ _ => exact hI a slot b hb
  | restart => exact hI a slot b hb
  | crash => exact hI a slot b (hkeep (fun _ h => by cases h) hb)
  | @delete server key generation =>
    refine hI a slot b (hkeep (fun ha h => ?_) hb)
    rw [WorkerStore.deleteGeneration_lookup] at h
    split_ifs at h with hslot
    rwa [ha]
  | @write p reply store hp h =>
    rcases (s.stores p.server).putBytes_cases p.key p.start.objectGeneration p.bytes with
      ⟨msg, h', _⟩ | ⟨h', _⟩ <;> cases h'.symm.trans h
    · exact hI a slot b (hkeep (fun ha h => by rwa [ha]) hb)
    · by_cases hsame : a = p.server ∧ slot = p.slot
      · obtain ⟨rfl, rfl⟩ := hsame
        change (setStore s.stores p.server _ p.server).objects.lookup p.slot = some b at hb
        rw [setStore_self, stored_lookup_self] at hb
        exact ⟨p, List.mem_cons_self, rfl, rfl, Option.some.inj hb⟩
      · have hold : (s.stores a).objects.lookup slot = some b := by
          refine hkeep (fun ha h => ?_) hb
          have hslot : slot ≠ p.slot := fun hx => hsame ⟨ha, hx⟩
          rwa [stored_lookup_of_ne _ hslot, ← ha] at h
        obtain ⟨q, hq, hrest⟩ := hI a slot b hold
        exact ⟨q, List.mem_cons_of_mem _ hq, hrest⟩

/-- A put is published when its commit was accepted. -/
def Published (tr : List SysEvent) (p : Put) : Prop := .commit p (.ok ()) ∈ tr

/-- Only written puts are published. -/
theorem written_of_published (h : sysLts.Run tr s) {p : Put} (hp : Published tr p) :
    p ∈ s.written := by
  refine h.invariant (I := fun tr s => Published tr p → p ∈ s.written)
    (fun _ _ h => absurd h List.not_mem_nil) (fun tr s e s' _ hI hs h => ?_) hp
  rcases List.mem_cons.mp h with rfl | h
  · cases hs with
    | commit hp _ => exact hp
  · exact (granted_suffix hs).2.subset (hI h)

/-- An accepted commit in the trace of the current Master published a put. -/
theorem published_of_commits (h : sysLts.Run tr s) {k : ObjectKey} {id : PutId} {ev : Event}
    (hev : ev ∈ masterTrace tr) (hc : ev.Commits k id) :
    ∃ p, Published tr p ∧ p.start.putId = id := by
  refine h.invariant (I := fun tr _ => ∀ ev ∈ masterTrace tr, ev.Commits k id →
    ∃ p, Published tr p ∧ p.start.putId = id) (fun _ _ ev hev => absurd hev List.not_mem_nil)
    (fun tr s e s' _ hI hs ev hev hc => ?_) ev hev hc
  have hold : ev ∈ masterTrace tr → ∃ p, Published (e :: tr) p ∧ p.start.putId = id := by
    intro hev
    obtain ⟨p, hp, hid⟩ := hI ev hev hc
    exact ⟨p, List.mem_cons_of_mem _ hp, hid⟩
  cases hs with
  | @master ev' _ ha _ =>
    rcases List.mem_cons.mp hev with rfl | hev
    · cases ev <;> first | exact ha.elim | exact hc.elim
    · exact hold hev
  | put _ =>
    rcases List.mem_cons.mp hev with rfl | hev
    · exact hc.elim
    · exact hold hev
  | @commit p reply _ _ _ =>
    rcases List.mem_cons.mp hev with rfl | hev
    · cases reply with
      | error msg => exact hc.elim
      | ok _ => exact ⟨p, List.mem_cons_self, hc.2⟩
    · exact hold hev
  | restart => exact absurd hev List.not_mem_nil
  | write _ _ => exact hold hev
  | crash => exact hold hev
  | delete => exact hold hev

theorem fair_of_mem (h : (fairLts urls mayRestart).Run tr s) : ∀ e ∈ tr, Fair urls mayRestart e := by
  induction h with
  | start _ => exact fun _ he => absurd he List.not_mem_nil
  | step _ hs ih => exact List.forall_mem_cons.mpr ⟨hs.2, ih⟩

theorem no_restart (hnr : ¬ mayRestart) (h : (fairLts urls mayRestart).Run tr s) :
    ∀ e ∈ tr, e ≠ .restarted := by
  rintro e he rfl
  exact hnr (fair_of_mem h _ he)

end Runs

/-! ## 2. Worlds -/

/-- A run of the system in which put ids are drawn once. -/
structure World (urls : Urls) (mayRestart : Prop) where
  trace : List SysEvent
  sys : Sys
  run : (fairLts urls mayRestart).Run trace sys
  fresh : sys.drawn.Nodup

section Worlds

variable {urls : Urls} {mayRestart : Prop}

instance : Preorder (World urls mayRestart) where
  le w w' := ∃ tr, (fairLts urls mayRestart).Steps w.sys tr w'.sys ∧ w'.trace = tr ++ w.trace
  le_refl _ := ⟨[], .refl, rfl⟩
  le_trans := by
    rintro w w' w'' ⟨tr, h, heq⟩ ⟨tr', h', heq'⟩
    exact ⟨tr' ++ tr, h.trans h', by rw [heq', heq, List.append_assoc]⟩

namespace World

variable {w w' w₀ wr wf : World urls mayRestart} {p : Put} {key : ObjectKey} {b : List UInt8}

theorem exists_step {e : SysEvent} {s : Sys} (h : SysStep w.sys e s) (hfair : Fair urls mayRestart e)
    (hfresh : s.drawn.Nodup) : ∃ w' : World urls mayRestart, w ≤ w' ∧ w'.sys = s ∧
      w'.trace = e :: w.trace :=
  ⟨⟨e :: w.trace, s, .step w.run ⟨h, hfair⟩, hfresh⟩, ⟨[e], .step .refl ⟨h, hfair⟩, rfl⟩, rfl, rfl⟩

def Granted (w : World urls mayRestart) (p : Put) : Prop := p ∈ w.sys.puts ++ w.sys.past

theorem Granted.mono (h : w.Granted p) (hle : w ≤ w') : w'.Granted p := by
  obtain ⟨tr, hsteps, -⟩ := hle
  exact (granted_suffix_steps hsteps.of_restrict).1.subset h

theorem written_mono (h : p ∈ w.sys.written) (hle : w ≤ w') : p ∈ w'.sys.written := by
  obtain ⟨tr, hsteps, -⟩ := hle
  exact (granted_suffix_steps hsteps.of_restrict).2.subset h

theorem trace_mono {e : SysEvent} (h : e ∈ w.trace) (hle : w ≤ w') : e ∈ w'.trace := by
  obtain ⟨tr, -, heq⟩ := hle
  rw [heq]
  exact List.mem_append_right _ h

/-- A route names the newest generation that was granted. -/
theorem route_newest {now : ℕ} {leaseId : LeaseId} {route : GetRouteResponse}
    (hr : w.sys.master.getRoute now leaseId p.key = .ok (some route)) (hp : p ∈ w.sys.puts) :
    p.start.objectGeneration ≤ route.objectGeneration := by
  obtain ⟨obj, _, _, hobj, -, -, -, -, -, -, rfl⟩ := MasterState.getRoute_eq_some_iff.mp hr
  have hrun := w.run.of_restrict
  have hslot : p.slot ∈ grantedSlots (masterTrace w.trace) := by
    rw [(puts_granted hrun).2]
    exact List.mem_map_of_mem hp
  have hlt := (grantedSlots_run (master_run hrun)).1 _ hslot
  rw [show p.slot.1 = p.key from rfl, nextGeneration_of_some hobj] at hlt
  exact Nat.lt_succ_iff.mp hlt

/-- The route of a key at some time. -/
def Routes (w : World urls mayRestart) (key : ObjectKey) (route : GetRouteResponse) : Prop :=
  ∃ now leaseId, w.sys.master.getRoute now leaseId key = .ok (some route)

/-- A route leads to an origin. -/
theorem Routes.origin {route : GetRouteResponse} (h : w.Routes key route) :
    urls.Origin (baseUrl route.workerAddr) := by
  obtain ⟨now, leaseId, hr⟩ := h
  obtain ⟨_, _, x, -, -, -, hx, -, -, -, rfl⟩ := MasterState.getRoute_eq_some_iff.mp hr
  exact (origins_run w.run).worker hx

/-- What a fetch found at the end of a route. -/
structure Found (w : World urls mayRestart) (key : ObjectKey) (b : List UInt8)
    (w' : World urls mayRestart) : Prop where
  exists_route : ∃ wr wf : World urls mayRestart, w ≤ wr ∧ wr ≤ wf ∧ wf ≤ w' ∧
    ∃ route, wr.Routes key route ∧
      wf.sys.fetch route.workerAddr key route.objectGeneration = some b

/-- **Nothing is made up**: what is found was written, by a put of that key. -/
theorem Found.written (h : Found w key b w') : ∃ p ∈ w'.sys.written, p.key = key ∧ p.bytes = b := by
  obtain ⟨wr, wf, -, -, hle, route, -, hb⟩ := h.exists_route
  obtain ⟨p, hp, -, hslot, hbytes⟩ := held_written wf.run.of_restrict hb
  exact ⟨p, written_mono hp hle, congrArg Prod.fst hslot, hbytes⟩

/-- **What is found is published and not stale**, while the Master does not restart: no put of the key
    that was published before the route was asked for is newer. -/
theorem Found.fresh (hnr : ¬ mayRestart) (h : Found w key b w') :
    ∃ q ∈ w'.sys.puts, q.key = key ∧ q.bytes = b ∧ Published w'.trace q ∧
      ∀ p, Published w.trace p → p.key = key →
        p ∈ w'.sys.puts ∧ (p = q ∨ p.start.objectGeneration < q.start.objectGeneration) := by
  obtain ⟨wr, wf, hle, hle', hle'', route, ⟨now, leaseId, hr⟩, hb⟩ := h.exists_route
  obtain ⟨tr, hsteps, heq⟩ := hle'
  have hnr' : ∀ e ∈ tr ++ wr.trace, e ≠ .restarted := heq ▸ no_restart hnr wf.run
  obtain ⟨q, hq, hslot, -, -, -, ⟨ev, hev, hc⟩, -, hread⟩ := fetch_exact_or_lost wr.run.of_restrict
    hsteps.of_restrict hnr' wf.fresh hr
  have hbytes : q.bytes = b := by
    rcases hread with hread | ⟨hread, -⟩
    · exact Option.some.inj (hread.symm.trans hb)
    · cases hread.symm.trans hb
  -- the put that was committed under that id is the put that was granted
  obtain ⟨q', hq', hid⟩ := published_of_commits wr.run.of_restrict hev hc
  have hgranted := written_granted wr.run.of_restrict q' (written_of_published wr.run.of_restrict hq')
  obtain rfl : q' = q := List.inj_on_of_nodup_map wr.fresh hgranted (List.mem_append_left _ hq) hid
  have hlast : wr ≤ w' := le_trans ⟨tr, hsteps, heq⟩ hle''
  have hputs : ∀ {x y : World urls mayRestart} {p}, x ≤ y → p ∈ x.sys.puts → p ∈ y.sys.puts := by
    rintro x y p ⟨tr, hsteps, heq⟩ hp
    refine (puts_suffix hsteps.of_restrict fun e he => ?_).1.subset hp
    exact no_restart hnr y.run e (heq ▸ List.mem_append_left _ he)
  refine ⟨q', hputs hlast hq, congrArg Prod.fst hslot, hbytes, trace_mono hq' hlast,
    fun p hp hkey => ?_⟩
  have hpast := past_nil_of_no_restart w.run.of_restrict (no_restart hnr w.run)
  have hpw : p ∈ w.sys.puts := by
    have := written_granted w.run.of_restrict p (written_of_published w.run.of_restrict hp)
    rwa [hpast, List.append_nil] at this
  have hpr := hputs hle hpw
  refine ⟨hputs hlast hpr, ?_⟩
  rcases Nat.lt_or_eq_of_le (route_newest (hkey ▸ hr) hpr) with hlt | heq
  · exact Or.inr (lt_of_lt_of_eq hlt (congrArg Prod.snd hslot).symm)
  · exact Or.inl (put_of_slot wr.run.of_restrict hpr hq (by rw [hslot, ← heq, ← hkey, Put.slot]))

theorem Found.earlier (h : Found w key b w') (hle : w₀ ≤ w) : Found w₀ key b w' := by
  obtain ⟨wr, wf, hle', hrest⟩ := h.exists_route
  exact ⟨wr, wf, le_trans hle hle', hrest⟩

theorem Found.later (h : Found w₀ key b w) (hle : w ≤ w') : Found w₀ key b w' := by
  obtain ⟨wr, wf, hle₀, hle₁, hle₂, hrest⟩ := h.exists_route
  exact ⟨wr, wf, hle₀, hle₁, le_trans hle₂ hle, hrest⟩

end World

end Worlds

end Flour.DistKv
