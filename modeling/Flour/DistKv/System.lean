/-
  File:      Flour/DistKv/System.lean
  Subject:   One Master, any number of Workers and any number of clients that run the put sequence
             of `DistKvClient::put_object`, in any interleaving.

  * `Sys` -- the Master, the stores behind the worker addresses, the puts granted by the current
    Master and by earlier ones, and the puts with an accepted write.
  * `SysStep`, `sysLts` -- a step is one message handled: a grant, a write, a commit (each
    delivered as often as the network likes, or never), a call of a worker to the Master, a crash,
    a deletion, a restart of the Master. A commit is sent only after the write was accepted.
  * `masterTrace` -- the calls the current Master has handled; `master_run` -- they are a run of it.
  * `routed_put` -- a route leads to the slot of a put whose write was accepted before its commit.
-/
import Flour.DistKv.History
import Flour.DistKv.Worker
import Mathlib.Data.List.DropRight

namespace Flour.DistKv

open Flour.Lib

/-! ## 1. The parties and their steps -/

/-- The server a worker address reaches: request URLs are built on the address without its
    trailing slashes. -/
def baseUrl (workerAddr : String) : String := String.ofList (workerAddr.toList.rdropWhile (· = '/'))

/-- A put of a client after its grant: the key, the bytes, and what `put_start` answered. -/
structure Put where
  key : ObjectKey
  bytes : List UInt8
  start : PutStartResponse
  deriving DecidableEq

namespace Put

/-- The slot the put writes to. -/
def slot (p : Put) : ObjectKey × ℕ := (p.key, p.start.objectGeneration)

/-- The server the put writes to. -/
def server (p : Put) : String := baseUrl p.start.workerAddr

end Put

/-- The stores with the one behind `server` replaced. -/
@[irreducible] def setStore (stores : String → WorkerStore) (server : String)
    (store : WorkerStore) : String → WorkerStore := Function.update stores server store

theorem setStore_self (stores : String → WorkerStore) (server : String) (store : WorkerStore) :
    setStore stores server store server = store := by
  unfold setStore
  exact Function.update_self _ _ _

theorem setStore_of_ne (stores : String → WorkerStore) {server a : String} (h : a ≠ server)
    (store : WorkerStore) : setStore stores server store a = stores a := by
  unfold setStore
  exact Function.update_of_ne h _ _

structure Sys where
  master : MasterState
  /-- The store of the worker process behind each base URL. -/
  stores : String → WorkerStore
  /-- The puts granted by the current Master, newest first. -/
  puts : List Put
  /-- The puts granted by earlier Masters. -/
  past : List Put
  /-- A put is here once for each accepted write of it. -/
  written : List Put

namespace Sys

/-- A fetch of one generation from the server behind a worker address. -/
def fetch (s : Sys) (workerAddr : String) (key : ObjectKey) (generation : ℕ) :
    Option (List UInt8) :=
  (s.stores (baseUrl workerAddr)).objects.lookup (key, generation)

/-- The put ids drawn so far, by every Master. -/
def drawn (s : Sys) : List PutId := (s.puts ++ s.past).map (·.start.putId)

end Sys

/-- One message handled, or one fault. -/
inductive SysEvent where
  | master (e : Event)
  | put (now : ℕ) (key : ObjectKey) (bytes : List UInt8) (preferred : Option WorkerId)
      (reply : Except String PutStartResponse)
  | write (p : Put) (reply : Except String Unit)
  | commit (p : Put) (reply : Except String Unit)
  | crashed (server : String)
  | deleted (server : String) (key : ObjectKey) (generation : ℕ)
  | restarted

/-- The calls to the Master that are not part of a put. -/
def Event.Aside : Event → Prop
  | .putStart .. => False
  | .putCommit .. => False
  | _ => True

/-- The puts a reply of `put_start` adds. -/
def grantedPuts (key : ObjectKey) (bytes : List UInt8) :
    Except String PutStartResponse → List Put
  | .ok start => [⟨key, bytes, start⟩]
  | .error _ => []

/-- The puts an answer to a write adds to those written. -/
def writtenPuts (p : Put) : Except String Unit → List Put
  | .ok _ => [p]
  | .error _ => []

/-- The system after a write of `p` was answered. -/
def Sys.wrote (s : Sys) (p : Put) (reply : Except String Unit) (store : WorkerStore) : Sys :=
  { s with stores := setStore s.stores p.server store,
           written := writtenPuts p reply ++ s.written }

/-- One step of the system. -/
inductive SysStep : Sys → SysEvent → Sys → Prop where
  /-- A registration, a heartbeat, a route lookup or a death notice. -/
  | master {s : Sys} {e : Event} {m' : MasterState} (ha : e.Aside) (h : MasterStep s.master e m') :
      SysStep s (.master e) { s with master := m' }
  /-- `put_start` of a client with these bytes. -/
  | put {s : Sys} {now : ℕ} {order : List WorkerId} {putId : PutId} {key : ObjectKey}
      {bytes : List UInt8} {preferred : Option WorkerId} {reply : Except String PutStartResponse}
      {m' : MasterState}
      (h : s.master.putStart now order putId ⟨key, bytes.length, preferred⟩ = (reply, m')) :
      SysStep s (.put now key bytes preferred reply)
        { s with master := m', puts := grantedPuts key bytes reply ++ s.puts }
  /-- A write of a granted put reaches its server. -/
  | write {s : Sys} {p : Put} {reply : Except String Unit} {store : WorkerStore}
      (hp : p ∈ s.puts ∨ p ∈ s.past)
      (h : (s.stores p.server).putBytes p.key p.start.objectGeneration p.bytes = (reply, store)) :
      SysStep s (.write p reply) (s.wrote p reply store)
  /-- The commit of a put with an accepted write reaches the Master. -/
  | commit {s : Sys} {p : Put} {reply : Except String Unit} {m' : MasterState}
      (hp : p ∈ s.written) (h : s.master.putCommit ⟨p.key, p.start.putId⟩ = (reply, m')) :
      SysStep s (.commit p reply) { s with master := m' }
  /-- A worker process loses its memory; it may come back with another capacity. -/
  | crash {s : Sys} {server : String} {workerId : WorkerId} {epoch capacityBytes : ℕ} :
      SysStep s (.crashed server)
        { s with stores := setStore s.stores server (.new workerId epoch capacityBytes) }
  | delete {s : Sys} {server : String} {key : ObjectKey} {generation : ℕ} :
      SysStep s (.deleted server key generation)
        { s with stores :=
            setStore s.stores server ((s.stores server).deleteGeneration key generation) }
  /-- The Master restarts with empty maps; the workers and the clients go on. -/
  | restart {s : Sys} :
      SysStep s .restarted { s with master := .new, puts := [], past := s.puts ++ s.past }

/-- The system from an empty Master and empty stores of any capacities. -/
def sysLts : Lts Sys SysEvent where
  init s := s.master = .new ∧ (∀ a, ∃ id epoch cap, s.stores a = .new id epoch cap) ∧
    s.puts = [] ∧ s.past = [] ∧ s.written = []
  step := SysStep

/-! ## 2. The calls the current Master has handled -/

/-- The call to the Master a message is, if it is one. -/
def SysEvent.toMaster : SysEvent → Option Event
  | .master e => some e
  | .put now key bytes preferred reply => some (.putStart now ⟨key, bytes.length, preferred⟩ reply)
  | .commit p reply => some (.putCommit ⟨p.key, p.start.putId⟩ reply)
  | _ => none

/-- The calls to the Master since it last restarted, newest first. -/
def masterTrace : List SysEvent → List Event
  | [] => []
  | .restarted :: _ => []
  | e :: tr => e.toMaster.toList ++ masterTrace tr

/-- **The calls since the last restart are a run of the current Master.** -/
theorem master_run {tr : List SysEvent} {s : Sys} (h : sysLts.Run tr s) :
    masterLts.Run (masterTrace tr) s.master := by
  have h0 : ∀ s, sysLts.init s → masterLts.Run (masterTrace []) s.master := fun s h0 =>
    .start h0.1
  refine h.invariant (I := fun tr s => masterLts.Run (masterTrace tr) s.master) h0 ?_
  intro tr s e s' _ hI hs
  cases hs with
  | master _ h => exact .step hI h
  | put h => exact .step hI (.putStart h)
  | write _ _ => exact hI
  | commit _ h => exact .step hI (.putCommit h)
  | crash => exact hI
  | delete => exact hI
  | restart => exact .start rfl

/-- The put ids and the slots the current Master granted are those of its puts. -/
theorem puts_granted {tr : List SysEvent} {s : Sys} (h : sysLts.Run tr s) :
    putIds (masterTrace tr) = s.puts.map (·.start.putId) ∧
      grantedSlots (masterTrace tr) = s.puts.map Put.slot := by
  refine h.invariant (I := fun tr s => putIds (masterTrace tr) = s.puts.map (·.start.putId) ∧
    grantedSlots (masterTrace tr) = s.puts.map Put.slot)
    (fun s h0 => by rw [h0.2.2.1]; exact ⟨rfl, rfl⟩) ?_
  intro tr s e s' _ hI hs
  cases hs with
  | @master e _ ha _ =>
      cases e <;> first | exact ha.elim | exact hI
  | @put now _ _ key bytes pref reply _ _ =>
      cases reply with
      | error msg => exact hI
      | ok start =>
          refine ⟨?_, ?_⟩
          · show start.putId :: putIds (masterTrace tr) = _
            rw [hI.1]
            rfl
          · show (key, start.objectGeneration) :: grantedSlots (masterTrace tr) = _
            rw [hI.2]
            rfl
  | write _ _ => exact hI
  | commit _ _ => exact hI
  | crash => exact hI
  | delete => exact hI
  | restart => exact ⟨rfl, rfl⟩

/-- A slot is granted once: a put of the current Master is known by its slot. -/
theorem put_of_slot {tr : List SysEvent} {s : Sys} (h : sysLts.Run tr s) {p q : Put}
    (hp : p ∈ s.puts) (hq : q ∈ s.puts) (hs : p.slot = q.slot) : p = q := by
  have hnd := (grantedSlots_run (master_run h)).2
  rw [(puts_granted h).2] at hnd
  exact List.inj_on_of_nodup_map hnd hp hq hs

/-- A grant in the trace of the current Master is that of one of its puts. -/
theorem put_of_grant {tr : List SysEvent} {s : Sys} (h : sysLts.Run tr s) {k : ObjectKey}
    {start : PutStartResponse} {e : Event} (he : e ∈ masterTrace tr)
    (hg : e.grant k = some start) : ∃ p ∈ s.puts, p.key = k ∧ p.start = start := by
  refine h.invariant (I := fun tr s => ∀ e ∈ masterTrace tr, e.grant k = some start →
    ∃ p ∈ s.puts, p.key = k ∧ p.start = start) (fun s _ e he => absurd he List.not_mem_nil) ?_
    e he hg
  intro tr s e s' _ hI hs x hx hg
  cases hs with
  | @master e _ ha _ =>
      rcases List.mem_cons.mp hx with rfl | hx
      · cases x <;> first | exact ha.elim | cases hg
      · exact hI x hx hg
  | @put now _ _ key bytes pref reply _ _ =>
      rcases List.mem_cons.mp hx with rfl | hx
      · cases reply with
        | error msg => cases hg
        | ok p =>
            simp only [Event.grant] at hg
            split_ifs at hg with hk
            cases hg
            exact ⟨_, List.mem_cons_self, hk, rfl⟩
      · obtain ⟨p, hp, hk⟩ := hI x hx hg
        exact ⟨p, List.mem_append_right _ hp, hk⟩
  | write _ _ => exact hI x hx hg
  | commit _ _ =>
      rcases List.mem_cons.mp hx with rfl | hx
      · cases hg
      · exact hI x hx hg
  | crash => exact hI x hx hg
  | delete => exact hI x hx hg
  | restart => exact absurd hx List.not_mem_nil

/-! ## 3. A route leads to a written put -/

/-- An accepted write of put `p`. -/
def SysEvent.Stores (p : Put) : SysEvent → Prop
  | .write q (.ok _) => q = p
  | _ => False

/-- Puts are written only after a grant. -/
theorem written_granted {tr : List SysEvent} {s : Sys} (h : sysLts.Run tr s) :
    ∀ p ∈ s.written, p ∈ s.puts ++ s.past := by
  refine h.invariant (I := fun _ s => ∀ p ∈ s.written, p ∈ s.puts ++ s.past)
    (fun s h0 p hp => ?_) ?_
  · rw [h0.2.2.2.2] at hp
    exact absurd hp List.not_mem_nil
  · intro tr s e s' _ hI hs p hp
    cases hs with
    | master _ _ => exact hI p hp
    | put _ =>
        rw [List.append_assoc]
        exact List.mem_append_right _ (hI p hp)
    | @write q reply _ hq _ =>
        cases reply with
        | error msg => exact hI p hp
        | ok _ =>
            rcases List.mem_cons.mp hp with rfl | hp
            · exact List.mem_append.mpr hq
            · exact hI p hp
    | commit _ _ => exact hI p hp
    | crash => exact hI p hp
    | delete => exact hI p hp
    | restart => exact hI p hp

/-- Put ids are only added. -/
theorem drawn_suffix {s s' : Sys} {e : SysEvent} (h : SysStep s e s') : s.drawn <:+ s'.drawn := by
  cases h with
  | put _ =>
      refine List.IsSuffix.map _ ?_
      rw [List.append_assoc]
      exact List.suffix_append _ _
  | _ => exact List.suffix_refl _

/-- An accepted commit in the trace of the current Master is that of a written put. -/
theorem written_of_commit {tr : List SysEvent} {s : Sys} (h : sysLts.Run tr s) {k : ObjectKey}
    {id : PutId} {e : Event} (he : e ∈ masterTrace tr) (hc : e.Commits k id) :
    ∃ p ∈ s.written, p.key = k ∧ p.start.putId = id := by
  refine h.invariant (I := fun tr s => ∀ e ∈ masterTrace tr, e.Commits k id →
    ∃ p ∈ s.written, p.key = k ∧ p.start.putId = id)
    (fun s _ e he => absurd he List.not_mem_nil) ?_ e he hc
  intro tr s e s' _ hI hs x hx hc
  cases hs with
  | @master e _ ha _ =>
      rcases List.mem_cons.mp hx with rfl | hx
      · cases x <;> first | exact ha.elim | exact hc.elim
      · exact hI x hx hc
  | put _ =>
      rcases List.mem_cons.mp hx with rfl | hx
      · exact hc.elim
      · exact hI x hx hc
  | write _ _ =>
      obtain ⟨p, hp, hrest⟩ := hI x hx hc
      exact ⟨p, List.mem_append_right _ hp, hrest⟩
  | @commit p reply _ hp _ =>
      rcases List.mem_cons.mp hx with rfl | hx
      · cases reply with
        | error msg => exact hc.elim
        | ok _ => exact ⟨p, hp, hc.1, hc.2⟩
      · exact hI x hx hc
  | crash => exact hI x hx hc
  | delete => exact hI x hx hc
  | restart => exact absurd hx List.not_mem_nil

/-- **A route leads to a written put.** With fresh put ids, a route of the current Master names the
    slot and the server of a put of this Master that was written and then committed. -/
theorem routed_put {tr : List SysEvent} {s : Sys} (h : sysLts.Run tr s)
    (hfresh : s.drawn.Nodup) {now : ℕ} {leaseId : LeaseId}
    {key : ObjectKey} {r : GetRouteResponse} (hr : s.master.getRoute now leaseId key = .ok (some r)) :
    ∃ p ∈ s.puts, p.slot = (key, r.objectGeneration) ∧ p.start.workerId = r.workerId ∧
      p.start.workerAddr = r.workerAddr ∧ p ∈ s.written ∧
      ∃ e ∈ masterTrace tr, e.Commits key p.start.putId := by
  obtain ⟨obj, workerId, w, ho, hst, hid, hw, _, he, _, rfl⟩ :=
    MasterState.getRoute_eq_some_iff.mp hr
  obtain ⟨since, start, hl, hP⟩ := (encodes_run (master_run h)).put key obj ho
  obtain ⟨e, older, htr, hg, _⟩ := latestPut_eq_some_iff.mp hl
  have he' : e ∈ masterTrace tr := by
    rw [htr]
    exact List.mem_append_right _ List.mem_cons_self
  obtain ⟨p, hp, hk, rfl⟩ := put_of_grant h he' hg
  obtain ⟨c, hc, hcom⟩ := hP.complete.mp hst
  have hc' : c ∈ masterTrace tr := by
    rw [htr]
    exact List.mem_append_left _ hc
  obtain ⟨q, hq, _, hqid⟩ := written_of_commit h hc' hcom
  -- fresh ids: the put that was committed is the put that was granted
  have hqp : q = p := List.inj_on_of_nodup_map hfresh (written_granted h q hq)
    (List.mem_append_left _ hp) hqid
  subst hqp
  obtain ⟨x, hxw, _, _, haddr⟩ := hP.worker
  have hwp : q.start.workerId = workerId := Option.some.inj (hP.workerId.symm.trans hid)
  rw [hwp, hw] at hxw
  cases hxw
  exact ⟨q, hp, Prod.ext hk hP.generation.symm, hwp, (haddr he).symm, hq, c, hc', hcom⟩

end Flour.DistKv
