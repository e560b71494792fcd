/-
  File:      Flour/DistKv/Colocated.lean
  Subject:   Nodes that embed a Worker: `LocalKvHandle` of `src/kv_cache/local.rs` and the calls of
             `DistKvObjectStore` (`src/kv_cache/distkv_store.rs`), interleaved step by step with the
             rest of the system.

  * `LocalKvHandle` -- the committed index in front of the store that the node also serves.
  * `Call`, `NodeStep` -- where a `get_object` or `put_object` stands, and its single steps: one
    lock taken, one message answered. `try_get_committed` is two of them.
  * `Cluster`, `clusterLts` -- any number of such nodes, each with any number of calls under way,
    among the Workers and clients of `sysLts`.
  * `shadow_run` -- to the Master, an in-process write is a write: what was granted and committed is
    what a run of `sysLts` grants and commits.
  * `Tracked` -- every index entry and every route a call holds names a committed put; every slot
    of every store holds the bytes of the put it was granted to.
  * `localHit_was_committed` -- so a local hit returns the payload of a committed put;
    `getObject_was_committed` -- and so does whatever `get_object` returns.
-/
import Flour.DistKv.Reads

namespace Flour.DistKv

open Flour.Lib

/-! ## 1. The committed index -/

/-- A node's handle on its own store; the store itself is the one served behind `server`. -/
structure LocalKvHandle where
  workerId : WorkerId
  server : String
  committed : Finmap (fun _ : ObjectKey => ℕ)

namespace LocalKvHandle

def new (workerId : WorkerId) (server : String) : LocalKvHandle :=
  { workerId, server, committed := ∅ }

/-- The bytes of the generation the index names, when nothing runs between its two locks. -/
def tryGetCommitted (h : LocalKvHandle) (store : WorkerStore) (key : ObjectKey) :
    Except String (Option (List UInt8)) :=
  match h.committed.lookup key with
  | some generation => store.getBytes key generation
  | none => .ok none

def markCommitted (h : LocalKvHandle) (key : ObjectKey) (generation : ℕ) : LocalKvHandle :=
  { h with committed := h.committed.insert key generation }

end LocalKvHandle

/-! ## 2. The steps of a call -/

/-- Where a call of a node stands: what it knows, and what it does next. -/
inductive Call where
  | idle
  /-- `get_object`: the index is read next. -/
  | get (key : ObjectKey)
  /-- The index named a generation: the store is read next. -/
  | indexed (key : ObjectKey) (generation : ℕ)
  /-- No local hit: the Master is asked next. -/
  | missed (key : ObjectKey)
  | routed (key : ObjectKey) (route : GetRouteResponse)
  /-- The own store had the routed bytes: the index is updated next. -/
  | found (key : ObjectKey) (generation : ℕ) (bytes : List UInt8)
  /-- `put_object`: `put_start` is sent next. -/
  | put (key : ObjectKey) (bytes : List UInt8)
  | granted (p : Put)
  | stored (p : Put)
  | committed (p : Put)

/-- One step of a call. -/
inductive NodeEvent where
  | called
  | indexRead (key : ObjectKey) (generation : Option ℕ)
  /-- `try_get_committed` answers from the store. -/
  | localRead (key : ObjectKey) (generation : ℕ) (reply : Option (List UInt8))
  /-- A message to the Master or to another Worker, with its answer. -/
  | sent (e : SysEvent)
  | routedRead (key : ObjectKey) (generation : ℕ) (reply : Option (List UInt8))
  | localWrite (p : Put) (reply : Except String Unit)
  | marked (key : ObjectKey) (generation : ℕ)
  | returned (key : ObjectKey) (reply : Option (List UInt8))
  | failed

namespace Call

/-- After the index was read. -/
def afterIndex (key : ObjectKey) : Option ℕ → Call
  | some generation => .indexed key generation
  | none => .missed key

/-- After `try_get_committed`: a hit returns at once. -/
def afterLocal (key : ObjectKey) : Option (List UInt8) → Call
  | some _ => .idle
  | none => .missed key

def afterRoute (key : ObjectKey) : Except String (Option GetRouteResponse) → Call
  | .ok (some route) => .routed key route
  | _ => .idle

def afterRouted (key : ObjectKey) (generation : ℕ) : Option (List UInt8) → Call
  | some bytes => .found key generation bytes
  | none => .idle

def afterStart (key : ObjectKey) (bytes : List UInt8) : Except String PutStartResponse → Call
  | .ok start => .granted ⟨key, bytes, start⟩
  | .error _ => .idle

def afterWrite (p : Put) : Except String Unit → Call
  | .ok _ => .stored p
  | .error _ => .idle

def afterCommit (p : Put) : Except String Unit → Call
  | .ok _ => .committed p
  | .error _ => .idle

end Call

/-- The system after an in-process write of `p` into the store behind `server` was answered. -/
def Sys.wroteAt (s : Sys) (server : String) (p : Put) (reply : Except String Unit)
    (store : WorkerStore) : Sys :=
  { s with stores := setStore s.stores server store,
           written := writtenPuts p reply ++ s.written }

/-- One step of a call of the node with handle `h`. -/
inductive NodeStep (h : LocalKvHandle) (s : Sys) :
    Call → NodeEvent → LocalKvHandle → Sys → Call → Prop where
  | getObject {key : ObjectKey} : NodeStep h s .idle .called h s (.get key)
  | indexRead {key : ObjectKey} {generation : Option ℕ}
      (hg : h.committed.lookup key = generation) :
      NodeStep h s (.get key) (.indexRead key generation) h s (.afterIndex key generation)
  | localRead {key : ObjectKey} {generation : ℕ} {reply : Option (List UInt8)}
      (hr : (s.stores h.server).getBytes key generation = .ok reply) :
      NodeStep h s (.indexed key generation) (.localRead key generation reply) h s
        (.afterLocal key reply)
  | getRoute {now : ℕ} {leaseId : LeaseId} {key : ObjectKey}
      {reply : Except String (Option GetRouteResponse)}
      (hr : s.master.getRoute now leaseId key = reply) :
      NodeStep h s (.missed key) (.sent (.master (.getRoute now key reply))) h s
        (.afterRoute key reply)
  /-- The route leads to the node itself: an in-process read. -/
  | routedRead {key : ObjectKey} {route : GetRouteResponse} {reply : Option (List UInt8)}
      (he : h.workerId = route.workerId)
      (hr : (s.stores h.server).getBytes key route.objectGeneration = .ok reply) :
      NodeStep h s (.routed key route) (.routedRead key route.objectGeneration reply) h s
        (.afterRouted key route.objectGeneration reply)
  | markRouted {key : ObjectKey} {generation : ℕ} {bytes : List UInt8} :
      NodeStep h s (.found key generation bytes) (.returned key (some bytes))
        (h.markCommitted key generation) s .idle
  | fetchWorker {key : ObjectKey} {route : GetRouteResponse} {reply : Option (List UInt8)}
      (hne : h.workerId ≠ route.workerId)
      (hr : s.fetch route.workerAddr key route.objectGeneration = reply) :
      NodeStep h s (.routed key route) (.returned key reply) h s .idle
  | putObject {key : ObjectKey} {bytes : List UInt8} :
      NodeStep h s .idle .called h s (.put key bytes)
  | putStart {s' : Sys} {now : ℕ} {key : ObjectKey} {bytes : List UInt8}
      {reply : Except String PutStartResponse}
      (hs : SysStep s (.put now key bytes (some h.workerId) reply) s') :
      NodeStep h s (.put key bytes) (.sent (.put now key bytes (some h.workerId) reply)) h s'
        (.afterStart key bytes reply)
  /-- The Master pinned the object to the node itself: an in-process write. -/
  | localWrite {p : Put} {reply : Except String Unit} {store : WorkerStore}
      (he : h.workerId = p.start.workerId)
      (hw : (s.stores h.server).putBytes p.key p.start.objectGeneration p.bytes = (reply, store)) :
      NodeStep h s (.granted p) (.localWrite p reply) h (s.wroteAt h.server p reply store)
        (.afterWrite p reply)
  | writeWorker {s' : Sys} {p : Put} {reply : Except String Unit}
      (hne : h.workerId ≠ p.start.workerId) (hs : SysStep s (.write p reply) s') :
      NodeStep h s (.granted p) (.sent (.write p reply)) h s' (.afterWrite p reply)
  | putCommit {s' : Sys} {p : Put} {reply : Except String Unit}
      (hs : SysStep s (.commit p reply) s') :
      NodeStep h s (.stored p) (.sent (.commit p reply)) h s' (.afterCommit p reply)
  | markOwn {p : Put} (he : h.workerId = p.start.workerId) :
      NodeStep h s (.committed p) (.marked p.key p.start.objectGeneration)
        (h.markCommitted p.key p.start.objectGeneration) s .idle
  | done {p : Put} (hne : h.workerId ≠ p.start.workerId) :
      NodeStep h s (.committed p) (.returned p.key none) h s .idle
  /-- A call gives up: a message or its answer is lost, or times out. What it has sent may still
      arrive, as a message of the system. -/
  | fail {c : Call} : NodeStep h s c .failed h s .idle

/-! ## 3. The cluster -/

section Cluster

variable {ν τ : Type*} [DecidableEq ν] [DecidableEq τ]

/-- The system with its co-located nodes `ν`, each with its calls `τ`. -/
structure Cluster (ν τ : Type*) where
  sys : Sys
  handles : ν → LocalKvHandle
  calls : ν → τ → Call

inductive ClusterEvent (ν τ : Type*) where
  /-- A message or a fault that is not a step of a node's call. -/
  | other (e : SysEvent)
  | node (n : ν) (t : τ) (e : NodeEvent)

namespace Cluster

/-- The nodes after the process behind `server` has crashed: its index and its calls are gone. -/
def crashed (s : Cluster ν τ) (server : String) (sys : Sys) : Cluster ν τ where
  sys := sys
  handles n := if (s.handles n).server = server then .new (s.handles n).workerId server
    else s.handles n
  calls n t := if (s.handles n).server = server then .idle else s.calls n t

/-- The cluster after call `t` of node `n` made a step. -/
def stepped (s : Cluster ν τ) (n : ν) (t : τ) (h : LocalKvHandle) (sys : Sys) (c : Call) :
    Cluster ν τ where
  sys := sys
  handles := Function.update s.handles n h
  calls := Function.update s.calls n (Function.update (s.calls n) t c)

end Cluster

/-- One step of the cluster. -/
inductive ClusterStep : Cluster ν τ → ClusterEvent ν τ → Cluster ν τ → Prop where
  | other {s : Cluster ν τ} {e : SysEvent} {sys' : Sys} (hne : ∀ a, e ≠ .crashed a)
      (hs : SysStep s.sys e sys') : ClusterStep s (.other e) { s with sys := sys' }
  | crash {s : Cluster ν τ} {server : String} {sys' : Sys}
      (hs : SysStep s.sys (.crashed server) sys') :
      ClusterStep s (.other (.crashed server)) (s.crashed server sys')
  | node {s : Cluster ν τ} {n : ν} {t : τ} {e : NodeEvent} {h' : LocalKvHandle} {sys' : Sys}
      {c' : Call} (hs : NodeStep (s.handles n) s.sys (s.calls n t) e h' sys' c') :
      ClusterStep s (.node n t e) (s.stepped n t h' sys' c')

/-- The cluster from an empty system and nodes that have just started. -/
def clusterLts : Lts (Cluster ν τ) (ClusterEvent ν τ) where
  init s := sysLts.init s.sys ∧ (∀ n, (s.handles n).committed = ∅) ∧ ∀ n t, s.calls n t = .idle
  step := ClusterStep

/-- The message of the system an event is, if it is one. -/
def ClusterEvent.toSys : ClusterEvent ν τ → Option SysEvent
  | .other e => some e
  | .node _ _ (.sent e) => some e
  | .node .. => none

/-- The messages of the system in a trace of the cluster, newest first. -/
def sysTrace (tr : List (ClusterEvent ν τ)) : List SysEvent := tr.filterMap ClusterEvent.toSys

end Cluster

/-! ## 4. To the Master, an in-process write is a write -/

/-- Two systems that differ in what their stores hold only. -/
structure SameProtocol (s t : Sys) : Prop where
  master : t.master = s.master
  puts : t.puts = s.puts
  past : t.past = s.past
  written : t.written = s.written

theorem putBytes_new (workerId : WorkerId) (epoch : ℕ) (key : ObjectKey) (generation : ℕ)
    (bytes : List UInt8) :
    ∃ store, (WorkerStore.new workerId epoch bytes.length).putBytes key generation bytes =
      (.ok (), store) := by
  have hok := ((WorkerStore.counted_new workerId epoch bytes.length).putBytes_ok_iff key
    generation bytes).mpr (Nat.le_of_eq (Nat.zero_add _))
  exact ⟨_, Prod.ext hok rfl⟩

/-- A granted put can be written in the shadow, whatever its store holds: the store is emptied
    first. -/
theorem shadow_written {s t : Sys} (hst : SameProtocol s t) {p : Put}
    (hp : p ∈ s.puts ∨ p ∈ s.past) (reply : Except String Unit) (stores : String → WorkerStore) :
    ∃ tr t', sysLts.Steps t tr t' ∧
      SameProtocol { s with stores, written := writtenPuts p reply ++ s.written } t' ∧
      ∀ older, masterTrace (tr ++ older) = masterTrace older := by
  cases reply with
  | error msg => exact ⟨[], t, .refl, ⟨hst.1, hst.2, hst.3, hst.4⟩, fun _ => rfl⟩
  | ok u =>
    obtain ⟨store, hw⟩ := putBytes_new "" 0 p.key p.start.objectGeneration p.bytes
    have hp' : p ∈ t.puts ∨ p ∈ t.past := by rwa [hst.puts, hst.past]
    let t₁ : Sys := { t with stores := setStore t.stores p.server (.new "" 0 p.bytes.length) }
    have hcrash : SysStep t (.crashed p.server) t₁ := .crash
    have hwrite : SysStep t₁ (.write p (.ok ())) (t₁.wrote p (.ok ()) store) := by
      refine .write hp' ?_
      show (setStore t.stores p.server (.new "" 0 p.bytes.length) p.server).putBytes _ _ _ = _
      rw [setStore_self]
      exact hw
    refine ⟨[.write p (.ok ()), .crashed p.server], _, .step (.step .refl hcrash) hwrite, ?_,
      fun _ => rfl⟩
    exact ⟨hst.master, hst.puts, hst.past, congrArg (p :: ·) hst.written⟩

/-- **One message of the system, in its shadow.** -/
theorem shadow_step {s s' t : Sys} {e : SysEvent} (hst : SameProtocol s t) (hs : SysStep s e s') :
    ∃ tr t', sysLts.Steps t tr t' ∧ SameProtocol s' t' ∧
      ∀ older older', masterTrace older = masterTrace older' →
        masterTrace (tr ++ older) = masterTrace (e :: older') := by
  obtain ⟨hm, hputs, hpast, hwritten⟩ := hst
  -- a message that reaches the Master or the clients is the same message in the shadow
  have one : ∀ t', SysStep t e t' → SameProtocol s' t' → ∃ tr t', sysLts.Steps t tr t' ∧
      SameProtocol s' t' ∧ ∀ older older', masterTrace older = masterTrace older' →
        masterTrace (tr ++ older) = masterTrace (e :: older') := by
    intro t' ht hst'
    refine ⟨[e], t', .step .refl ht, hst', fun older older' h => ?_⟩
    cases e <;> first | rfl | exact congrArg (_ ++ ·) h
  cases hs with
  | master ha h =>
    rw [← hm] at h
    exact one _ (.master ha h) ⟨rfl, hputs, hpast, hwritten⟩
  | put h =>
    rw [← hm] at h
    exact one _ (.put h) ⟨rfl, congrArg (_ ++ ·) hputs, hpast, hwritten⟩
  | @write p reply store hp h =>
    obtain ⟨tr, t', hsteps, hst', htr⟩ := shadow_written ⟨hm, hputs, hpast, hwritten⟩ hp reply
      (setStore s.stores p.server store)
    exact ⟨tr, t', hsteps, hst', fun older older' h => (htr older).trans h⟩
  | commit hp h =>
    rw [← hm] at h
    rw [← hwritten] at hp
    exact one _ (.commit hp h) ⟨rfl, hputs, hpast, hwritten⟩
  | crash => exact ⟨[], t, .refl, ⟨hm, hputs, hpast, hwritten⟩, fun _ _ h => h⟩
  | delete => exact ⟨[], t, .refl, ⟨hm, hputs, hpast, hwritten⟩, fun _ _ h => h⟩
  | restart =>
    refine one _ .restart ⟨rfl, rfl, ?_, hwritten⟩
    show t.puts ++ t.past = s.puts ++ s.past
    rw [hputs, hpast]

/-! ## 5. All a step of a call can do -/

namespace Call

/-- The granted put the call is working on. -/
def inFlight : Call → Option Put
  | .granted p => some p
  | .stored p => some p
  | .committed p => some p
  | _ => none

/-- The slot the call takes to be committed. -/
def names : Call → Option (ObjectKey × ℕ)
  | .indexed key generation => some (key, generation)
  | .routed key route => some (key, route.objectGeneration)
  | .found key generation _ => some (key, generation)
  | .committed p => some p.slot
  | _ => none

@[simp] theorem afterIndex_inFlight (key : ObjectKey) (g : Option ℕ) :
    (afterIndex key g).inFlight = none := by cases g <;> rfl

@[simp] theorem afterLocal_inFlight (key : ObjectKey) (r : Option (List UInt8)) :
    (afterLocal key r).inFlight = none := by cases r <;> rfl

@[simp] theorem afterLocal_names (key : ObjectKey) (r : Option (List UInt8)) :
    (afterLocal key r).names = none := by cases r <;> rfl

@[simp] theorem afterRoute_inFlight (key : ObjectKey)
    (r : Except String (Option GetRouteResponse)) : (afterRoute key r).inFlight = none := by
  rcases r with _ | _ | _ <;> rfl

@[simp] theorem afterRouted_inFlight (key : ObjectKey) (g : ℕ) (r : Option (List UInt8)) :
    (afterRouted key g r).inFlight = none := by cases r <;> rfl

@[simp] theorem afterStart_names (key : ObjectKey) (bytes : List UInt8)
    (r : Except String PutStartResponse) : (afterStart key bytes r).names = none := by
  cases r <;> rfl

@[simp] theorem afterWrite_names (p : Put) (r : Except String Unit) :
    (afterWrite p r).names = none := by cases r <;> rfl

end Call

section NodeStep

variable {h h' : LocalKvHandle} {s s' : Sys} {c c' : Call} {e : NodeEvent}

/-- **What a call does to the system**: nothing, a message, or an in-process write. -/
theorem NodeStep.system (hs : NodeStep h s c e h' s' c') :
    (s' = s ∧ ∀ e', e ≠ .sent e') ∨
    (∃ e', e = .sent e' ∧ SysStep s e' s' ∧ e' ≠ .restarted) ∨
    (∃ p reply store, e = .localWrite p reply ∧ c = .granted p ∧
      (s.stores h.server).putBytes p.key p.start.objectGeneration p.bytes = (reply, store) ∧
      s' = s.wroteAt h.server p reply store) := by
  cases hs with
  | getRoute hr =>
    exact Or.inr (Or.inl ⟨_, rfl, .master trivial (.getRoute hr), by simp⟩)
  | putStart hs => exact Or.inr (Or.inl ⟨_, rfl, hs, by simp⟩)
  | writeWorker _ hs => exact Or.inr (Or.inl ⟨_, rfl, hs, by simp⟩)
  | putCommit hs => exact Or.inr (Or.inl ⟨_, rfl, hs, by simp⟩)
  | localWrite he hw => exact Or.inr (Or.inr ⟨_, _, _, rfl, rfl, hw, rfl⟩)
  | _ => exact Or.inl ⟨rfl, by simp⟩

/-- **What a call does to the index**: nothing, or it marks the slot that the call names. -/
theorem NodeStep.index (hs : NodeStep h s c e h' s' c') :
    h' = h ∨ ∃ slot, c.names = some slot ∧ h' = h.markCommitted slot.1 slot.2 := by
  cases hs with
  | markRouted => exact Or.inr ⟨_, rfl, rfl⟩
  | markOwn he => exact Or.inr ⟨_, rfl, rfl⟩
  | _ => exact Or.inl rfl

/-- **Where a call has a slot from**: it had it before, the index had it, a route led to it, or
    the Master has just accepted the commit of the call's own put. -/
theorem NodeStep.names (hs : NodeStep h s c e h' s' c') {slot : ObjectKey × ℕ}
    (hn : c'.names = some slot) :
    c.names = some slot ∨ h.committed.lookup slot.1 = some slot.2 ∨
    (∃ now leaseId r, s.master.getRoute now leaseId slot.1 = .ok (some r) ∧
      r.objectGeneration = slot.2) ∨
    (∃ p u, c.inFlight = some p ∧ p.slot = slot ∧ e = .sent (.commit p (.ok u))) := by
  cases hs with
  | @indexRead key generation hg =>
    cases generation with
    | none => cases hn
    | some g =>
      cases hn
      exact Or.inr (Or.inl hg)
  | @getRoute now leaseId key reply hr =>
    rcases reply with msg | _ | r
    · cases hn
    · cases hn
    · cases hn
      exact Or.inr (Or.inr (Or.inl ⟨now, leaseId, r, hr, rfl⟩))
  | @routedRead key route reply he hr =>
    cases reply with
    | none => cases hn
    | some bytes => exact Or.inl hn
  | @putCommit s' p reply hs =>
    cases reply with
    | error msg => cases hn
    | ok u =>
      cases hn
      exact Or.inr (Or.inr (Or.inr ⟨p, u, rfl, rfl, rfl⟩))
  | localRead hr => simp at hn
  | putStart hs => simp at hn
  | localWrite he hw => simp at hn
  | writeWorker hne hs => simp at hn
  | _ => cases hn

/-- Where a call has its put from: it had it before, or it was just granted. -/
theorem NodeStep.inFlight (hs : NodeStep h s c e h' s' c') {p : Put}
    (hp : c'.inFlight = some p) : c.inFlight = some p ∨ p ∈ s'.puts := by
  cases hs with
  | @putStart s' now key bytes reply hs =>
    cases reply with
    | error msg => cases hp
    | ok start =>
      cases hp
      cases hs with
      | put _ => exact Or.inr List.mem_cons_self
  | @localWrite p reply store he hw =>
    cases reply with
    | error msg => cases hp
    | ok u => exact Or.inl hp
  | @writeWorker s' p reply hne hs =>
    cases reply with
    | error msg => cases hp
    | ok u => exact Or.inl hp
  | @putCommit s' p reply hs =>
    cases reply with
    | error msg => cases hp
    | ok u => exact Or.inl hp
  | indexRead hg => simp at hp
  | localRead hr => simp at hp
  | getRoute hr => simp at hp
  | routedRead he hr => simp at hp
  | _ => cases hp

/-- The bytes a call has found were in its node's store. -/
theorem NodeStep.found (hs : NodeStep h s c e h' s' c') {key : ObjectKey} {generation : ℕ}
    {bytes : List UInt8} (hc : c' = .found key generation bytes) :
    (s.stores h.server).objects.lookup (key, generation) = some bytes := by
  cases hs with
  | @routedRead key route reply he hr =>
    cases reply with
    | none => cases hc
    | some b =>
      cases hc
      exact Except.ok.inj hr
  | @indexRead _ g hg => cases g <;> cases hc
  | @localRead _ _ reply hr => cases reply <;> cases hc
  | @getRoute _ _ _ reply hr => rcases reply with _ | _ | _ <;> cases hc
  | @putStart _ _ _ _ reply hs => cases reply <;> cases hc
  | @localWrite _ reply _ he hw => cases reply <;> cases hc
  | @writeWorker _ _ reply hne hs => cases reply <;> cases hc
  | @putCommit _ _ reply hs => cases reply <;> cases hc
  | _ => cases hc

end NodeStep

/-! ## 6. The shadow of a run -/

section Runs

variable {ν τ : Type*} [DecidableEq ν] [DecidableEq τ]

/-- Granted puts stay granted, by the current Master or by an earlier one. -/
theorem SysStep.granted {s s' : Sys} {e : SysEvent} (h : SysStep s e s') {p : Put}
    (hp : p ∈ s.puts ∨ p ∈ s.past) : p ∈ s'.puts ∨ p ∈ s'.past := by
  cases h with
  | put _ => exact hp.imp_left (List.mem_append_right _)
  | restart => exact Or.inr (List.mem_append.mpr hp)
  | _ => exact hp

theorem NodeStep.granted {h h' : LocalKvHandle} {s s' : Sys} {c c' : Call} {e : NodeEvent}
    (hs : NodeStep h s c e h' s' c') {p : Put} (hp : p ∈ s.puts ∨ p ∈ s.past) :
    p ∈ s'.puts ∨ p ∈ s'.past := by
  rcases hs.system with ⟨rfl, _⟩ | ⟨e', _, hs', _⟩ | ⟨_, _, _, _, _, _, rfl⟩
  · exact hp
  · exact hs'.granted hp
  · exact hp

/-- A call that was stepped is the new call at its place, and an old one elsewhere. -/
theorem Cluster.stepped_calls (s : Cluster ν τ) (n : ν) (t : τ) (h : LocalKvHandle) (sys : Sys)
    (c : Call) (m : ν) (u : τ) :
    (m = n ∧ u = t ∧ (s.stepped n t h sys c).calls m u = c) ∨
      (s.stepped n t h sys c).calls m u = s.calls m u := by
  unfold Cluster.stepped
  by_cases hm : m = n
  · subst hm
    by_cases hu : u = t
    · subst hu
      exact Or.inl ⟨rfl, rfl, by simp⟩
    · exact Or.inr (by simp [hu])
  · exact Or.inr (by simp [hm])

omit [DecidableEq ν] [DecidableEq τ] in
theorem Cluster.crashed_calls (s : Cluster ν τ) (a : String) (sys : Sys) (n : ν) (t : τ) :
    (s.crashed a sys).calls n t = .idle ∨ (s.crashed a sys).calls n t = s.calls n t := by
  unfold Cluster.crashed
  dsimp only
  split_ifs
  · exact Or.inl rfl
  · exact Or.inr rfl

/-- Calls work on granted puts. -/
theorem inFlight_granted {tr : List (ClusterEvent ν τ)} {s : Cluster ν τ}
    (h : clusterLts.Run tr s) :
    ∀ n t p, (s.calls n t).inFlight = some p → p ∈ s.sys.puts ∨ p ∈ s.sys.past := by
  refine h.invariant (I := fun _ s => ∀ n t p, (s.calls n t).inFlight = some p →
    p ∈ s.sys.puts ∨ p ∈ s.sys.past) (fun s h0 n t p hp => ?_) ?_
  · rw [h0.2.2 n t] at hp
    cases hp
  · intro tr s e s' _ hI hs n t p hp
    cases hs with
    | other _ hs => exact hs.granted (hI n t p hp)
    | @crash a sys' hs =>
      rcases s.crashed_calls a sys' n t with hc | hc <;> rw [hc] at hp
      · cases hp
      · exact hs.granted (hI n t p hp)
    | @node m u e h' sys' c' hs =>
      rcases s.stepped_calls m u h' sys' c' n t with ⟨rfl, rfl, hc⟩ | hc <;> rw [hc] at hp
      · rcases hs.inFlight hp with hp | hp
        · exact hs.granted (hI n t p hp)
        · exact Or.inl hp
      · exact hs.granted (hI n t p hp)

/-- **A run of the cluster has a shadow**: a run of the system in which every in-process write is
    a write, with the same calls to the Master and the same grants. -/
theorem shadow_run {tr : List (ClusterEvent ν τ)} {s : Cluster ν τ} (h : clusterLts.Run tr s) :
    ∃ tr' t, sysLts.Run tr' t ∧ SameProtocol s.sys t ∧
      masterTrace tr' = masterTrace (sysTrace tr) := by
  induction h with
  | @start s h0 => exact ⟨[], s.sys, .start h0.1, ⟨rfl, rfl, rfl, rfl⟩, rfl⟩
  | @step tr s s' e hrun hs ih =>
    obtain ⟨tr', t, ht, hst, htr⟩ := ih
    have message : ∀ {e' : SysEvent} {sys' : Sys}, SysStep s.sys e' sys' →
        ∃ tr' t, sysLts.Run tr' t ∧ SameProtocol sys' t ∧
          masterTrace tr' = masterTrace (e' :: sysTrace tr) := by
      intro e' sys' hs'
      obtain ⟨trs, t', hsteps, hst', hmt⟩ := shadow_step hst hs'
      exact ⟨trs ++ tr', t', ht.trans hsteps, hst', hmt _ _ htr⟩
    cases hs with
    | other _ hs => exact message hs
    | crash hs => exact message hs
    | @node n u e h' sys' c' hs =>
      rcases hs.system with ⟨rfl, hne⟩ | ⟨e', rfl, hs', _⟩ | ⟨p, reply, store, rfl, hc, hw, rfl⟩
      · have htr' : sysTrace (.node n u e :: tr) = sysTrace tr := by
          cases e <;> first | rfl | exact absurd rfl (hne _)
        exact ⟨tr', t, ht, hst, by rw [htr']; exact htr⟩
      · exact message hs'
      · have hp := inFlight_granted hrun n u p (by rw [hc]; rfl)
        obtain ⟨trs, t', hsteps, hst', hmt⟩ := shadow_written hst hp reply
          (setStore s.sys.stores (s.handles n).server store)
        exact ⟨trs ++ tr', t', ht.trans hsteps, hst', (hmt _).trans htr⟩

/-! ## 7. Slots hold the bytes of their put, indexes name committed ones -/

/-- Every value in a store is that of the put its slot was granted to. -/
def Holds (s : Sys) : Prop :=
  ∀ a slot bytes, (s.stores a).objects.lookup slot = some bytes →
    ∃ p ∈ s.puts, p.slot = slot ∧ p.bytes = bytes

/-- A write of a granted put, wherever it lands. -/
theorem Holds.write {s : Sys} (h : Holds s) {p : Put} (hp : p ∈ s.puts) {a : String}
    {reply : Except String Unit} {store : WorkerStore}
    (hw : (s.stores a).putBytes p.key p.start.objectGeneration p.bytes = (reply, store)) :
    Holds (s.wroteAt a p reply store) := by
  intro b slot bytes hl
  show ∃ q ∈ s.puts, _
  change (setStore s.stores a store b).objects.lookup slot = some bytes at hl
  by_cases hb : b = a
  · subst hb
    rw [setStore_self] at hl
    rcases (s.stores b).putBytes_cases p.key p.start.objectGeneration p.bytes with
      ⟨msg, hw', _⟩ | ⟨hw', _⟩ <;> rw [hw'] at hw <;> cases hw
    · exact h b slot bytes hl
    · by_cases hslot : slot = p.slot
      · subst hslot
        have hbytes := (Finmap.lookup_insert _).symm.trans hl
        exact ⟨p, hp, rfl, Option.some.inj hbytes⟩
      · have hold := (Finmap.lookup_insert_of_ne _ hslot).symm.trans hl
        exact h b slot bytes hold
  · rw [setStore_of_ne _ hb] at hl
    exact h b slot bytes hl

theorem Holds.step {s s' : Sys} {e : SysEvent} (h : Holds s) (hpast : s.past = [])
    (hs : SysStep s e s') (hne : e ≠ .restarted) : Holds s' := by
  cases hs with
  | master _ _ => exact h
  | put _ =>
    intro a slot bytes hl
    obtain ⟨p, hp, hrest⟩ := h a slot bytes hl
    exact ⟨p, List.mem_append_right _ hp, hrest⟩
  | write hp hw =>
    rw [hpast] at hp
    exact h.write (hp.resolve_right List.not_mem_nil) hw
  | commit _ _ => exact h
  | @crash a _ _ _ =>
    intro b slot bytes hl
    change (setStore s.stores a _ b).objects.lookup slot = some bytes at hl
    by_cases hb : b = a
    · subst hb
      rw [setStore_self] at hl
      cases hl
    · rw [setStore_of_ne _ hb] at hl
      exact h b slot bytes hl
  | @delete a key generation =>
    intro b slot bytes hl
    change (setStore s.stores a _ b).objects.lookup slot = some bytes at hl
    by_cases hb : b = a
    · subst hb
      rw [setStore_self, WorkerStore.deleteGeneration_lookup] at hl
      split_ifs at hl
      exact h b slot bytes hl
    · rw [setStore_of_ne _ hb] at hl
      exact h b slot bytes hl
  | restart => exact absurd rfl hne

/-- The slot is that of a put whose commit the Master has accepted. -/
def Committed (tr : List (ClusterEvent ν τ)) (s : Sys) (slot : ObjectKey × ℕ) : Prop :=
  ∃ p ∈ s.puts, p.slot = slot ∧ ∃ e ∈ masterTrace (sysTrace tr), e.Commits p.key p.start.putId

/-- What holds while one Master runs. -/
structure Tracked (tr : List (ClusterEvent ν τ)) (s : Cluster ν τ) : Prop where
  past : s.sys.past = []
  holds : Holds s.sys
  index : ∀ n key g, (s.handles n).committed.lookup key = some g → Committed tr s.sys (key, g)
  names : ∀ n t slot, (s.calls n t).names = some slot → Committed tr s.sys slot
  found : ∀ n t key g bytes, s.calls n t = .found key g bytes →
    ∃ p ∈ s.sys.puts, p.slot = (key, g) ∧ p.bytes = bytes

/-- A message other than a restart keeps the puts and the calls handled so far. -/
theorem SysStep.keeps {s s' : Sys} {e : SysEvent} (hs : SysStep s e s') (hne : e ≠ .restarted) :
    s.puts ⊆ s'.puts ∧ s'.past = s.past ∧ ∀ older, masterTrace older ⊆ masterTrace (e :: older) := by
  have htr : ∀ older, masterTrace older ⊆ masterTrace (e :: older) := by
    intro older x hx
    cases e <;> first | exact absurd rfl hne | exact List.mem_append_right _ hx
  cases hs with
  | put _ => exact ⟨List.subset_append_right _ _, rfl, htr⟩
  | restart => exact absurd rfl hne
  | _ => exact ⟨List.Subset.refl _, rfl, htr⟩

/-- The same for a step of the cluster. -/
theorem ClusterStep.keeps {s s' : Cluster ν τ} {e : ClusterEvent ν τ} (hs : ClusterStep s e s')
    (hne : e ≠ .other .restarted) (tr : List (ClusterEvent ν τ)) :
    s.sys.puts ⊆ s'.sys.puts ∧ s'.sys.past = s.sys.past ∧
      masterTrace (sysTrace tr) ⊆ masterTrace (sysTrace (e :: tr)) := by
  have message : ∀ {e' : SysEvent}, SysStep s.sys e' s'.sys → e' ≠ .restarted →
      s.sys.puts ⊆ s'.sys.puts ∧ s'.sys.past = s.sys.past ∧
        masterTrace (sysTrace tr) ⊆ masterTrace (e' :: sysTrace tr) := by
    intro e' hs hne
    obtain ⟨hputs, hpast, htr⟩ := hs.keeps hne
    exact ⟨hputs, hpast, htr _⟩
  cases hs with
  | other _ hs => exact message hs fun he => hne (congrArg _ he)
  | crash hs => exact message hs (by simp)
  | @node n t e h' sys' c' hs =>
    rcases hs.system with ⟨rfl, hno⟩ | ⟨e', rfl, hs', hne'⟩ | ⟨_, _, _, rfl, _, _, rfl⟩
    · refine ⟨List.Subset.refl _, rfl, ?_⟩
      cases e <;> first | exact List.Subset.refl _ | exact absurd rfl (hno _)
    · exact message hs' hne'
    · exact ⟨List.Subset.refl _, rfl, List.Subset.refl _⟩

theorem ClusterStep.holds {s s' : Cluster ν τ} {e : ClusterEvent ν τ} (hs : ClusterStep s e s')
    (hne : e ≠ .other .restarted) (hpast : s.sys.past = [])
    (hgranted : ∀ n t p, (s.calls n t).inFlight = some p → p ∈ s.sys.puts ∨ p ∈ s.sys.past)
    (hI : Holds s.sys) : Holds s'.sys := by
  cases hs with
  | other _ hs => exact hI.step hpast hs fun he => hne (congrArg _ he)
  | crash hs => exact hI.step hpast hs (by simp)
  | @node n t e h' sys' c' hs =>
    rcases hs.system with ⟨rfl, _⟩ | ⟨e', _, hs', hne'⟩ | ⟨p, reply, store, _, hc, hw, rfl⟩
    · exact hI
    · exact hI.step hpast hs' hne'
    · have hp := hgranted n t p (by rw [hc]; rfl)
      rw [hpast] at hp
      exact hI.write (hp.resolve_right List.not_mem_nil) hw

/-- With fresh put ids a route leads to a committed slot. -/
theorem routed_committed {tr : List (ClusterEvent ν τ)} {s : Cluster ν τ}
    (h : clusterLts.Run tr s) (hfresh : s.sys.drawn.Nodup) {now : ℕ} {leaseId : LeaseId}
    {key : ObjectKey} {r : GetRouteResponse}
    (hr : s.sys.master.getRoute now leaseId key = .ok (some r)) :
    Committed tr s.sys (key, r.objectGeneration) := by
  obtain ⟨tr', t, ht, hst, htr⟩ := shadow_run h
  have hfresh' : t.drawn.Nodup := by
    unfold Sys.drawn
    rw [hst.puts, hst.past]
    exact hfresh
  rw [← hst.master] at hr
  obtain ⟨p, hp, hslot, _, _, _, e, he, hc⟩ := routed_put ht hfresh' hr
  rw [hst.puts] at hp
  rw [htr] at he
  have hkey : p.key = key := congrArg Prod.fst hslot
  exact ⟨p, hp, hslot, e, he, by rw [hkey]; exact hc⟩

/-- A slot of the current Master is granted once. -/
theorem put_of_granted_slot {tr : List (ClusterEvent ν τ)} {s : Cluster ν τ}
    (h : clusterLts.Run tr s) {p q : Put} (hp : p ∈ s.sys.puts) (hq : q ∈ s.sys.puts)
    (hslot : p.slot = q.slot) : p = q := by
  obtain ⟨tr', t, ht, hst, _⟩ := shadow_run h
  rw [← hst.puts] at hp hq
  exact put_of_slot ht hp hq hslot

section Step

variable {tr : List (ClusterEvent ν τ)} {s s' : Cluster ν τ} {e : ClusterEvent ν τ}
  (hrun : clusterLts.Run tr s) (hI : Tracked tr s) (hs : ClusterStep s e s')
  (hne : e ≠ .other .restarted)

include hs hne in
/-- Committed slots stay committed. -/
theorem Committed.lift {slot : ObjectKey × ℕ} (h : Committed tr s.sys slot) :
    Committed (e :: tr) s'.sys slot := by
  obtain ⟨hputs, _, htr⟩ := hs.keeps hne tr
  obtain ⟨p, hp, hslot, c, hc, hcom⟩ := h
  exact ⟨p, hputs hp, hslot, c, htr hc, hcom⟩

include hI hs hne in
/-- An index moves only to slots that a call knows to be committed. -/
theorem Tracked.index_step {n : ν} {key : ObjectKey} {g : ℕ}
    (hl : (s'.handles n).committed.lookup key = some g) :
    Committed (e :: tr) s'.sys (key, g) := by
  have old := fun h => (hI.index n key g h).lift hs hne
  cases hs with
  | other _ _ => exact old hl
  | @crash a sys' hs' =>
    change (if _ then _ else _ : LocalKvHandle).committed.lookup key = some g at hl
    split_ifs at hl
    · cases hl
    · exact old hl
  | @node m t e h' sys' c' hs' =>
    change (Function.update s.handles m h' n).committed.lookup key = some g at hl
    by_cases hn : n = m
    · subst hn
      rw [Function.update_self] at hl
      rcases hs'.index with rfl | ⟨slot, hslot, rfl⟩
      · exact old hl
      · change ((s.handles n).committed.insert slot.1 slot.2).lookup key = some g at hl
        by_cases hk : key = slot.1
        · subst hk
          have hg := Option.some.inj ((Finmap.lookup_insert _).symm.trans hl)
          subst hg
          exact (hI.names n t slot hslot).lift (.node hs') hne
        · rw [Finmap.lookup_insert_of_ne _ hk] at hl
          exact old hl
    · rw [Function.update_of_ne hn] at hl
      exact old hl

include hrun hI hs hne in
/-- A call comes to know a slot from the index, from a route, or from its own commit. -/
theorem Tracked.names_step (hfresh : s.sys.drawn.Nodup) {n : ν} {t : τ} {slot : ObjectKey × ℕ}
    (hn : (s'.calls n t).names = some slot) : Committed (e :: tr) s'.sys slot := by
  have old := fun h => (hI.names n t slot h).lift hs hne
  have hputs := (hs.keeps hne tr).1
  cases hs with
  | other _ _ => exact old hn
  | @crash a sys' hs' =>
    rcases s.crashed_calls a sys' n t with hc | hc <;> rw [hc] at hn
    · cases hn
    · exact old hn
  | @node m u e h' sys' c' hs' =>
    rcases s.stepped_calls m u h' sys' c' n t with ⟨rfl, rfl, hc⟩ | hc <;> rw [hc] at hn
    · rcases hs'.names hn with hold | hidx | ⟨now, leaseId, r, hr, hg⟩ | ⟨p, u, hp, hslot, rfl⟩
      · exact old hold
      · exact (hI.index n slot.1 slot.2 hidx).lift (.node hs') hne
      · have hcom := routed_committed hrun hfresh hr
        rw [hg] at hcom
        exact hcom.lift (.node hs') hne
      · -- the Master has just accepted the commit of the call's own put
        have hin := inFlight_granted hrun n t p hp
        rw [hI.past] at hin
        exact ⟨p, hputs (hin.resolve_right List.not_mem_nil), hslot,
          .putCommit ⟨p.key, p.start.putId⟩ (.ok u), List.mem_cons_self, rfl, rfl⟩
    · exact old hn

include hI hs hne in
/-- The bytes a call finds in its node's store are those of the slot's put. -/
theorem Tracked.found_step {n : ν} {t : τ} {key : ObjectKey} {g : ℕ} {bytes : List UInt8}
    (hf : s'.calls n t = .found key g bytes) :
    ∃ p ∈ s'.sys.puts, p.slot = (key, g) ∧ p.bytes = bytes := by
  have keep : (∃ p ∈ s.sys.puts, p.slot = (key, g) ∧ p.bytes = bytes) →
      ∃ p ∈ s'.sys.puts, p.slot = (key, g) ∧ p.bytes = bytes := by
    rintro ⟨p, hp, hrest⟩
    exact ⟨p, (hs.keeps hne tr).1 hp, hrest⟩
  cases hs with
  | other _ _ => exact keep (hI.found n t key g bytes hf)
  | @crash a sys' hs' =>
    rcases s.crashed_calls a sys' n t with hc | hc <;> rw [hc] at hf
    · cases hf
    · exact keep (hI.found n t key g bytes hf)
  | @node m u e h' sys' c' hs' =>
    rcases s.stepped_calls m u h' sys' c' n t with ⟨rfl, rfl, hc⟩ | hc <;> rw [hc] at hf
    · exact keep (hI.holds _ _ _ (hs'.found hf))
    · exact keep (hI.found n t key g bytes hf)

include hrun hI hs hne in
/-- **One step keeps track.** -/
theorem tracked_step (hfresh : s.sys.drawn.Nodup) : Tracked (e :: tr) s' where
  past := (hs.keeps hne tr).2.1.trans hI.past
  holds := hs.holds hne hI.past (inFlight_granted hrun) hI.holds
  index _ _ _ hl := hI.index_step hs hne hl
  names _ _ _ hn := hI.names_step hrun hs hne hfresh hn
  found _ _ _ _ _ hf := hI.found_step hs hne hf

end Step

/-- Put ids are only added. -/
theorem ClusterStep.drawn {s s' : Cluster ν τ} {e : ClusterEvent ν τ} (hs : ClusterStep s e s') :
    s.sys.drawn <:+ s'.sys.drawn := by
  cases hs with
  | other _ hs => exact drawn_suffix hs
  | crash hs => exact drawn_suffix hs
  | node hs =>
    rcases hs.system with ⟨rfl, _⟩ | ⟨e', _, hs', _⟩ | ⟨_, _, _, _, _, _, rfl⟩
    · exact List.suffix_refl _
    · exact drawn_suffix hs'
    · exact List.suffix_refl _

/-- **Every run of one Master keeps track.** -/
theorem tracked_run {tr : List (ClusterEvent ν τ)} {s : Cluster ν τ} (h : clusterLts.Run tr s)
    (hnr : ∀ e ∈ tr, e ≠ .other .restarted) (hfresh : s.sys.drawn.Nodup) : Tracked tr s := by
  induction h with
  | @start s h0 =>
    obtain ⟨⟨_, hstores, _, hpast, _⟩, hindex, hcalls⟩ := h0
    refine ⟨hpast, fun a slot bytes hl => ?_, fun n key g hl => ?_, fun n t slot hn => ?_,
      fun n t key g bytes hf => ?_⟩
    · obtain ⟨id, epoch, cap, hs⟩ := hstores a
      rw [hs] at hl
      cases hl
    · rw [hindex n] at hl
      cases hl
    · rw [hcalls n t] at hn
      cases hn
    · rw [hcalls n t] at hf
      cases hf
  | @step tr s s' e hrun hs ih =>
    have hfresh₀ := hs.drawn.sublist.nodup hfresh
    have hI := ih (fun x hx => hnr x (List.mem_cons_of_mem _ hx)) hfresh₀
    exact tracked_step hrun hI hs (hnr e List.mem_cons_self) hfresh₀

/-! ## 8. What a node reads -/

/-- The bytes of a committed slot are the payload of the one put granted it. -/
theorem Committed.payload {tr : List (ClusterEvent ν τ)} {s : Cluster ν τ}
    (h : clusterLts.Run tr s) {key : ObjectKey} {generation : ℕ} {bytes : List UInt8}
    (hc : Committed tr s.sys (key, generation))
    (hb : ∃ p ∈ s.sys.puts, p.slot = (key, generation) ∧ p.bytes = bytes) :
    ∃ p ∈ s.sys.puts, p.key = key ∧ p.start.objectGeneration = generation ∧ p.bytes = bytes ∧
      (∃ e ∈ masterTrace (sysTrace tr), e.Commits key p.start.putId) ∧
      ∀ q ∈ s.sys.puts, q.slot = (key, generation) → q = p := by
  obtain ⟨p, hp, hslot, e, he, hcom⟩ := hc
  obtain ⟨q, hq, hqslot, rfl⟩ := hb
  have hqp := put_of_granted_slot h hq hp (hqslot.trans hslot.symm)
  subst hqp
  have hkey : q.key = key := congrArg Prod.fst hslot
  rw [hkey] at hcom
  exact ⟨q, hq, hkey, congrArg Prod.snd hslot, rfl, ⟨e, he, hcom⟩, fun x hx hxs =>
    put_of_granted_slot h hx hq (hxs.trans hslot.symm)⟩

/-- **A local hit was committed.** One Master that is not restarted, with fresh put ids: in every
    interleaving of the calls of the nodes with each other, with the other clients, with deletions,
    crashes and registrations, whenever `try_get_committed` returns bytes, they are the payload of
    a put of that key that the Master had accepted the commit of; no other put was granted the
    generation that was read. -/
theorem localHit_was_committed {tr : List (ClusterEvent ν τ)} {s s' : Cluster ν τ}
    (h : clusterLts.Run tr s) (hnr : ∀ e ∈ tr, e ≠ .other .restarted)
    (hfresh : s.sys.drawn.Nodup) {n : ν} {t : τ} {key : ObjectKey} {generation : ℕ}
    {bytes : List UInt8}
    (hs : ClusterStep s (.node n t (.localRead key generation (some bytes))) s') :
    ∃ p ∈ s.sys.puts, p.key = key ∧ p.start.objectGeneration = generation ∧ p.bytes = bytes ∧
      (∃ e ∈ masterTrace (sysTrace tr), e.Commits key p.start.putId) ∧
      ∀ q ∈ s.sys.puts, q.slot = (key, generation) → q = p := by
  have hI := tracked_run h hnr hfresh
  cases hs with
  | @node _ _ _ h' sys' c' hs =>
    generalize hc : s.calls n t = c at hs
    cases hs with
    | localRead hr =>
      have hn : (s.calls n t).names = some (key, generation) := by rw [hc]; rfl
      exact (hI.names n t _ hn).payload h (hI.holds _ _ _ (Except.ok.inj hr))

/-- One node with one call. -/
def oneNode (h : LocalKvHandle) (s : Sys) (c : Call) : Cluster Unit Unit :=
  { sys := s, handles := fun _ => h, calls := fun _ _ => c }

theorem oneNode_step {h h' : LocalKvHandle} {s s' : Sys} {c c' : Call} {e : NodeEvent}
    (hs : NodeStep h s c e h' s' c') :
    ClusterStep (oneNode h s c) (.node () () e) (oneNode h' s' c') := .node hs

/-- The system while the node puts `putA`: registered, granted, written in process, committed. -/
def registeredSys : Sys :=
  { oneWorker with master := (MasterState.new.registerWorker 1000 "w1" "http://w1" 1024).2 }
def grantedSys : Sys :=
  { registeredSys with
    master := (registeredSys.master.putStart 1000 ["w1"] 1 ⟨"k", 1, some "w1"⟩).2, puts := [putA] }
def wroteSys : Sys := grantedSys.wroteAt "http://w1" putA (.ok ()) (putStore putA)
def committedSys : Sys := { wroteSys with master := (wroteSys.master.putCommit ⟨"k", 1⟩).2 }

/-- The node's handle, before and after it has marked its put. -/
def freshHandle : LocalKvHandle := .new "w1" "http://w1"
def markedHandle : LocalKvHandle := freshHandle.markCommitted "k" 1

/-- The node registers, puts `putA` into its own store, marks it, and starts a read. -/
def oneNodeTrace : List (ClusterEvent Unit Unit) :=
  [.node () () (.indexRead "k" (some 1)), .node () () .called, .node () () (.marked "k" 1),
   .node () () (.sent (.commit putA (.ok ()))), .node () () (.localWrite putA (.ok ())),
   .node () () (.sent (.put 1000 "k" [1] (some "w1") (.ok putA.start))), .node () () .called,
   .other (.master (.registered 1000 "w1" "http://w1" 1024 1))]

theorem oneNode_run :
    clusterLts.Run oneNodeTrace (oneNode markedHandle committedSys (.indexed "k" 1)) := by
  have h₀ : clusterLts.Run ([] : List (ClusterEvent Unit Unit))
      (oneNode freshHandle oneWorker .idle) :=
    .start ⟨⟨rfl, fun _ => ⟨"w1", 0, 1024, rfl⟩, rfl, rfl, rfl⟩, fun _ => rfl, fun _ _ => rfl⟩
  have hreg : SysStep oneWorker (.master (.registered 1000 "w1" "http://w1" 1024 1))
      registeredSys := .master trivial (.registerWorker rfl)
  have hput : SysStep registeredSys (.put 1000 "k" [1] (some "w1") (.ok putA.start)) grantedSys :=
    @SysStep.put _ 1000 ["w1"] 1 "k" [1] (some "w1") _ _ rfl
  have hcommit : SysStep wroteSys (.commit putA (.ok ())) committedSys :=
    .commit List.mem_cons_self rfl
  have h₁ := h₀.step (.other (by simp) hreg)
  have h₂ := h₁.step (oneNode_step (@NodeStep.putObject _ _ "k" [1]))
  have h₃ := h₂.step (oneNode_step (.putStart hput))
  have h₄ := h₃.step (oneNode_step
    (@NodeStep.localWrite freshHandle grantedSys putA (.ok ()) (putStore putA) rfl rfl))
  have h₅ := h₄.step (oneNode_step (.putCommit hcommit))
  have h₆ := h₅.step (oneNode_step (@NodeStep.markOwn _ _ putA rfl))
  have h₇ := h₆.step (oneNode_step (@NodeStep.getObject _ _ "k"))
  exact h₇.step (oneNode_step (@NodeStep.indexRead _ _ "k" (some 1) rfl))

/-- The node reads back what it has put. -/
theorem putA_localHit : ∃ p ∈ committedSys.puts, p.key = "k" ∧ p.start.objectGeneration = 1 ∧
    p.bytes = [1] ∧ (∃ e ∈ masterTrace (sysTrace oneNodeTrace), e.Commits "k" p.start.putId) ∧
    ∀ q ∈ committedSys.puts, q.slot = ("k", 1) → q = p := by
  have hstore : committedSys.stores markedHandle.server = putStore putA := setStore_self _ _ _
  have hr : (committedSys.stores markedHandle.server).getBytes "k" 1 = .ok (some [1]) := by
    rw [hstore]
    rfl
  exact localHit_was_committed oneNode_run (by simp [oneNodeTrace]) (by decide)
    (oneNode_step (.localRead hr))

/-- So it is when nothing runs between the two locks of `try_get_committed`. -/
theorem tryGetCommitted_was_committed {tr : List (ClusterEvent ν τ)} {s : Cluster ν τ}
    (h : clusterLts.Run tr s) (hnr : ∀ e ∈ tr, e ≠ .other .restarted)
    (hfresh : s.sys.drawn.Nodup) {n : ν} {key : ObjectKey} {bytes : List UInt8}
    (hr : (s.handles n).tryGetCommitted (s.sys.stores (s.handles n).server) key =
      .ok (some bytes)) :
    ∃ p ∈ s.sys.puts, p.key = key ∧ p.bytes = bytes ∧
      ∃ e ∈ masterTrace (sysTrace tr), e.Commits key p.start.putId := by
  have hI := tracked_run h hnr hfresh
  unfold LocalKvHandle.tryGetCommitted at hr
  cases hl : (s.handles n).committed.lookup key with
  | none =>
    rw [hl] at hr
    cases hr
  | some g =>
    rw [hl] at hr
    obtain ⟨p, hp, hk, _, hb, hc, _⟩ := (hI.index n key g hl).payload h
      (hI.holds _ _ _ (Except.ok.inj hr))
    exact ⟨p, hp, hk, hb, hc⟩

/-- **Whatever `get_object` returns was committed**, also along a route: read in process, or
    fetched from another Worker. -/
theorem getObject_was_committed {tr : List (ClusterEvent ν τ)} {s s' : Cluster ν τ}
    (h : clusterLts.Run tr s) (hnr : ∀ e ∈ tr, e ≠ .other .restarted)
    (hfresh : s.sys.drawn.Nodup) {n : ν} {t : τ} {key : ObjectKey} {bytes : List UInt8}
    (hs : ClusterStep s (.node n t (.returned key (some bytes))) s') :
    ∃ p ∈ s.sys.puts, p.key = key ∧ p.bytes = bytes ∧
      ∃ e ∈ masterTrace (sysTrace tr), e.Commits key p.start.putId := by
  have hI := tracked_run h hnr hfresh
  cases hs with
  | @node _ _ _ h' sys' c' hs =>
    generalize hc : s.calls n t = c at hs
    cases hs with
    | @markRouted _ generation _ =>
      have hn : (s.calls n t).names = some (key, generation) := by rw [hc]; rfl
      obtain ⟨p, hp, hk, _, hb, hcom, _⟩ := (hI.names n t _ hn).payload h
        (hI.found n t key generation bytes hc)
      exact ⟨p, hp, hk, hb, hcom⟩
    | @fetchWorker _ route _ hne hr =>
      have hn : (s.calls n t).names = some (key, route.objectGeneration) := by rw [hc]; rfl
      obtain ⟨p, hp, hk, _, hb, hcom, _⟩ := (hI.names n t _ hn).payload h (hI.holds _ _ _ hr)
      exact ⟨p, hp, hk, hb, hcom⟩

end Runs

end Flour.DistKv
