/-
  File:      Flour/DistKv/Network.lean
  Subject:   The servers of the distributed cache over HTTP, and the contract between them and their
             clients.

  * `Net`, `Net.handle` -- the Master and the workers that are up, and what becomes of a request at an
    origin; `Fault` -- what else happens to them; `netService` -- both, for the messages of clients;
  * `contract` -- what a client may ask in a world, and what an answer tells it;
  * `gives_putObject`, `gives_getObject` -- the calls of a client keep the contract;
  * **`serve_request`, `fault_step`** -- the servers keep it: a request that may be made is a step of
    the system, or none, and so is everything else that happens.
-/
import Flour.DistKv.Http
import Flour.DistKv.Worlds

namespace Flour.DistKv

open Flour.Lib Flour.Lib.Url

/-! ## 1. Servers -/

/-- The servers: the Master, and the workers that are up, by their origins. -/
structure Net where
  master : Shared MasterState
  workers : String → Option (Shared WorkerStore)
  /-- The put ids that were drawn. -/
  drawn : List PutId

/-- The servers with another worker at an origin, or none. -/
def Net.setWorker (n : Net) (origin : String) (x : Option (Shared WorkerStore)) : Net :=
  { n with workers := Function.update n.workers origin x }

section Servers

variable {J : Type} (w : Wire J) (urls : Urls) (masterUrl : String)

/-- A request at an origin: one server may have both routers. -/
def Net.handle (d : Draws) (n : Net) (origin : String) (req : HttpRequest J) :
    Option (Answer J × Net) :=
  match if origin = masterUrl then masterRouter w d n.master req else none with
  | some (a, m) => some (a, { n with master := m })
  | none =>
    match n.workers origin with
    | some x =>
      match workerRouter w x req with
      | some (a, x') => some (a, n.setWorker origin (some x'))
      | none => some (some notFound, n)
    | none => if origin = masterUrl then some (some notFound, n) else none

/-- What happens to the servers. Anybody may send a `DELETE`. -/
inductive Fault (J : Type) where
  | crashed (origin : String)
  | booted (origin : String) (workerId : WorkerId) (epoch capacityBytes : ℕ)
  | restarted
  | masterPanicked
  | workerPanicked (origin : String)
  | deleted (origin : String) (req : HttpRequest J)

def Fault.Happens (n : Net) : Fault J → Net → Prop
  | .crashed origin, n' => n' = n.setWorker origin none
  | .booted origin workerId epoch capacityBytes, n' =>
    n' = n.setWorker origin (some ⟨.new workerId epoch capacityBytes, false⟩)
  | .restarted, n' => n' = { n with master := ⟨.new, false⟩ }
  | .masterPanicked, n' => n' = { n with master := { n.master with poisoned := true } }
  | .workerPanicked origin, n' => ∃ x, n.workers origin = some x ∧
    n' = n.setWorker origin (some { x with poisoned := true })
  | .deleted origin req, n' => req.method = .delete ∧
    ∃ d a, n.handle w masterUrl d origin req = some (a, n')

/-- The put ids that are drawn for a message. -/
def Message.draws (d : Draws) : Message → List PutId
  | .putStart .. => [d.putId]
  | _ => []

/-- The servers for the messages of the clients. Each put id is drawn once. -/
def netService (faults : Fault J → Prop) : Service Net Message (HttpResponse J) (Fault J) where
  init n := n.master = ⟨.new, false⟩ ∧
    (∀ a x, n.workers a = some x → ∃ id epoch cap, x = ⟨.new id epoch cap, false⟩) ∧ n.drawn = []
  serve n q a n' := ∃ d t n₁, (∀ id ∈ q.draws d, id ∉ n.drawn) ∧
    urls.split (q.outgoing w masterUrl).url = some t ∧
    n.handle w masterUrl d t.origin ⟨(q.outgoing w masterUrl).method, t.path, t.query,
      (q.outgoing w masterUrl).body⟩ = some (a, n₁) ∧
    n' = { n₁ with drawn := q.draws d ++ n₁.drawn }
  happen n x n' := faults x ∧ x.Happens w masterUrl n n'

end Servers

/-! ## 2. What clients ask -/

section Clients

variable {J : Type} {w : Wire J} {urls : Urls} {mayRestart : Prop}

/-- What is known of a put that was written over HTTP. -/
structure Arrived (w : Wire J) (p : Put) : Prop where
  length_le : p.bytes.length ≤ w.bodyLimit
  routable : ¬ Unroutable p.key

/-- What a client asks in a world. -/
def Message.May (world : World urls mayRestart) : Message → Prop
  | .register req => urls.Origin (baseUrl req.addr)
  | .write p => world.Granted p
  | .commit p => p ∈ world.sys.written
  | .fetch workerAddr _ _ => urls.Origin (baseUrl workerAddr)
  | _ => True

/-- What a success tells of the time between two worlds. -/
def Message.Told (w : Wire J) (before after : World urls mayRestart) (resp : HttpResponse J) :
    Message → Prop
  | .register req => ∃ now epoch, resp.body = .json (w.registerResponse.ser ⟨epoch⟩) ∧
    .master (.registered now req.workerId req.addr req.capacityBytes epoch) ∈ after.trace
  | .heartbeat req => ∃ now, .master (.heartbeat now req.workerId req.epoch (.ok ())) ∈ after.trace
  | .putStart key bytes _ => ∃ start, resp.body = .json (w.putStartResponse.ser start) ∧
    after.Granted ⟨key, bytes, start⟩
  | .write p => p ∈ after.sys.written ∧ Arrived w p
  | .commit p => Published after.trace p
  | .route key => ∃ route, resp.body = .json (w.getRouteResponse.ser route) ∧
    ∃ wr, before ≤ wr ∧ wr ≤ after ∧ wr.Routes key route
  | .fetch workerAddr key generation => ∃ b, resp.body = .bytes b ∧
    ∃ wf, before ≤ wf ∧ wf ≤ after ∧ wf.sys.fetch workerAddr key generation = some b

variable (w urls mayRestart) in
/-- The contract between the clients and the servers. -/
def contract : Contract (World urls mayRestart) Message (HttpResponse J) where
  may world q := q.May world
  told before after q resp := resp.isSuccess = true → q.Told w before after resp
  may_mono {before after q} hle h := by
    cases q with
    | write p => exact World.Granted.mono h hle
    | commit p => exact World.written_mono h hle
    | _ => exact h
  told_earlier {_ before after q resp} hle h hok := by
    have h := h hok
    cases q with
    | route key =>
      obtain ⟨route, hbody, wr, hle', hrest⟩ := h
      exact ⟨route, hbody, wr, le_trans hle hle', hrest⟩
    | fetch workerAddr key generation =>
      obtain ⟨b, hbody, wf, hle', hrest⟩ := h
      exact ⟨b, hbody, wf, le_trans hle hle', hrest⟩
    | _ => exact h

namespace DistKvClient

/-- A talk that says something of its value alone. -/
abbrev Gives {α : Type} (w : Wire J) (P : World urls mayRestart → α → Prop) (t : ClientTalk J α)
    (world : World urls mayRestart) : Prop :=
  Keeps (contract w urls mayRestart) (fun world r => ∀ a, r = .ok a → P world a) t world

/-- A request, and what is done with its answer. -/
theorem gives_ask {α : Type} {P : World urls mayRestart → α → Prop} {q : Message}
    {world : World urls mayRestart} {f : HttpResponse J → ClientTalk J α} (hmay : q.May world)
    (h : ∀ before after resp, world ≤ before → before ≤ after →
      (resp.isSuccess = true → q.Told w world before resp) → Gives w P (f resp) after) :
    Gives w P (Talk.ask q >>= f) world := by
  refine Keeps.bind (Keeps.ask hmay (fun _ _ _ _ herr => by cases herr) ?_)
  intro before after resp hle hle' htold
  exact h before after resp hle hle' htold

theorem gives_bail {α : Type} {P : World urls mayRestart → α → Prop} {e : String}
    {world : World urls mayRestart} : Gives w P (Talk.bail e : ClientTalk J α) world :=
  Keeps.bail fun _ _ _ h => by cases h

theorem gives_pure {α : Type} {P : World urls mayRestart → α → Prop} {a : α}
    {world : World urls mayRestart} (h : ∀ after, world ≤ after → P after a) :
    Gives w P (pure a : ClientTalk J α) world := by
  rintro after hle _ ⟨⟩
  exact h after hle

theorem gives_bind {α β : Type} {P : World urls mayRestart → α → Prop}
    {P' : World urls mayRestart → β → Prop} {t : ClientTalk J α} {f : α → ClientTalk J β}
    {world : World urls mayRestart} (ht : Gives w P t world)
    (hf : ∀ a after, P after a → Gives w P' (f a) after) : Gives w P' (t >>= f) world := by
  refine Keeps.bind (ht.mono fun after r h => ?_)
  cases r with
  | ok a => exact hf a after (h a rfl)
  | error e => exact fun _ herr => by cases herr

variable {world : World urls mayRestart} {key : ObjectKey} {bytes : List UInt8} {p : Put}

theorem gives_putStart (hw : w.Lawful) (preferred : Option WorkerId) :
    Gives w (fun after start => after.Granted ⟨key, bytes, start⟩) (putStart w key bytes preferred)
      world := by
  refine gives_ask trivial fun before after resp _ hle htold => ?_
  cases hok : resp.isSuccess with
  | false => exact gives_bail
  | true =>
    obtain ⟨start, hbody, hgranted⟩ := htold hok
    simp only [Bool.not_true, Bool.false_eq_true, if_false, json_ser hw.putStartResponse hbody]
    exact gives_pure fun _ hle' => hgranted.mono (le_trans hle hle')

theorem gives_writeWorker (hp : world.Granted p) :
    Gives w (fun after _ => p ∈ after.sys.written ∧ Arrived w p) (writeWorker p) world := by
  refine gives_ask hp fun before after resp _ hle htold => ?_
  cases hok : resp.isSuccess with
  | false => exact gives_bail
  | true =>
    obtain ⟨hwritten, harrived⟩ := htold hok
    exact gives_pure fun _ hle' => ⟨World.written_mono hwritten (le_trans hle hle'), harrived⟩

theorem gives_putCommit (hp : p ∈ world.sys.written) :
    Gives w (fun after _ => Published after.trace p) (putCommit p) world := by
  refine gives_ask hp fun before after resp _ hle htold => ?_
  cases hok : resp.isSuccess with
  | false => exact gives_bail
  | true => exact gives_pure fun _ hle' => World.trace_mono (htold hok) (le_trans hle hle')

/-- **What a put that returned has done.** -/
theorem gives_putObject (hw : w.Lawful) :
    Gives w (fun after _ => ∃ p, Published after.trace p ∧ p.key = key ∧ p.bytes = bytes ∧
      Arrived w p) (putObject w key bytes) world := by
  refine gives_bind (gives_putStart hw none) fun start after hgranted => ?_
  refine gives_bind (gives_writeWorker hgranted) fun _ after ⟨hwritten, harrived⟩ => ?_
  refine (gives_putCommit hwritten).mono fun _ _ h a hr => ?_
  exact ⟨_, h a hr, rfl, rfl, harrived⟩

theorem gives_getRoute (hw : w.Lawful) :
    Gives w (fun after r => ∀ route, r = some route →
      ∃ wr, world ≤ wr ∧ wr ≤ after ∧ wr.Routes key route) (getRoute w key) world := by
  refine gives_ask trivial fun before after resp _ hle htold => ?_
  split_ifs
  · exact gives_pure fun _ _ _ h => by cases h
  · exact gives_bail
  · rename_i hfail
    obtain ⟨route, hbody, wr, hle₀, hle₁, hr⟩ := htold (by simpa using hfail)
    rw [json_ser hw.getRouteResponse hbody]
    refine gives_pure fun _ hle' _ heq => ?_
    cases heq
    exact ⟨wr, hle₀, le_trans hle₁ (le_trans hle hle'), hr⟩

theorem gives_fetchWorker {workerAddr : String} {generation : ℕ}
    (ho : urls.Origin (baseUrl workerAddr)) :
    Gives w (fun after r => ∀ b, r = some b → ∃ wf, world ≤ wf ∧ wf ≤ after ∧
      wf.sys.fetch workerAddr key generation = some b) (fetchWorker w workerAddr key generation)
      world := by
  refine gives_ask ho fun before after resp _ hle htold => ?_
  split_ifs
  · exact gives_pure fun _ _ _ h => by cases h
  · exact gives_bail
  · rename_i hfail
    obtain ⟨b, hbody, wf, hle₀, hle₁, hread⟩ := htold (by simpa using hfail)
    refine gives_pure fun _ hle' _ heq => ?_
    rw [hbody] at heq
    cases heq
    exact ⟨wf, hle₀, le_trans hle₁ (le_trans hle hle'), hread⟩

/-- **What a get that returned has found.** -/
theorem gives_getObject (hw : w.Lawful) :
    Gives w (fun after r => ∀ b, r = some b → world.Found key b after) (getObject w key) world := by
  refine gives_bind (gives_getRoute hw) fun r after hr => ?_
  cases r with
  | none => exact gives_pure fun _ _ _ h => by cases h
  | some route =>
    obtain ⟨wr, hle, hle', hroutes⟩ := hr route rfl
    refine (gives_fetchWorker hroutes.origin).mono fun after' _ h _ heq b hb => ?_
    obtain ⟨wf, hle₁, hle₂, hread⟩ := h _ heq b hb
    exact ⟨wr, wf, hle, le_trans hle' hle₁, hle₂, route, hroutes, hread⟩

end DistKvClient

theorem gives_registerOnce (hw : w.Lawful) {req : RegisterRequest} {world : World urls mayRestart}
    (ho : urls.Origin (baseUrl req.addr)) :
    DistKvClient.Gives w (fun after r => ∀ epoch, r = some epoch → ∃ now,
      .master (.registered now req.workerId req.addr req.capacityBytes epoch) ∈ after.trace)
      (registerOnce w req) world := by
  refine ⟨ho, fun before hle => ⟨fun _ => DistKvClient.gives_pure fun _ _ _ h => (by cases h),
    fun resp htold => ?_⟩⟩
  dsimp only
  split_ifs with hok
  · obtain ⟨now, epoch, hbody, hreg⟩ := htold hok
    rw [DistKvClient.json_ser hw.registerResponse hbody]
    refine DistKvClient.gives_pure fun after hle' _ heq => ?_
    cases heq
    exact ⟨now, World.trace_mono hreg hle'⟩
  · exact DistKvClient.gives_pure fun _ _ _ h => by cases h

theorem gives_heartbeatOnce {id : WorkerId} {epoch : ℕ} {world : World urls mayRestart} :
    DistKvClient.Gives w (fun after accepted => accepted = true → ∃ now,
      .master (.heartbeat now id epoch (.ok ())) ∈ after.trace)
      (heartbeatOnce id epoch : ClientTalk J Bool) world := by
  refine ⟨trivial, fun before hle => ⟨fun _ => DistKvClient.gives_pure fun _ _ h => (by cases h),
    fun resp htold => DistKvClient.gives_pure fun after hle' h => ?_⟩⟩
  obtain ⟨now, hbeat⟩ := htold h
  exact ⟨now, World.trace_mono hbeat hle'⟩

end Clients

/-! ## 3. What servers do -/

section Served

variable {J : Type} {w : Wire J} {urls : Urls} {masterUrl : String} {mayRestart : Prop}

/-- The servers agree with a world. A worker that is not up is at no origin. -/
structure Agrees (world : World urls mayRestart) (n : Net) : Prop where
  master : world.sys.master = n.master.state
  store {a : String} {x : Shared WorkerStore} (h : n.workers a = some x) :
    world.sys.stores a = x.state
  drawn : world.sys.drawn ⊆ n.drawn

/-- The routers of the server that a request is for. -/
theorem handle_cases {d : Draws} {n n' : Net} {origin : String} {req : HttpRequest J} {a : Answer J}
    (h : n.handle w masterUrl d origin req = some (a, n')) :
    (origin = masterUrl ∧ ∃ m, masterRouter w d n.master req = some (a, m) ∧
      n' = { n with master := m }) ∨
    (∃ x x', n.workers origin = some x ∧ workerRouter w x req = some (a, x') ∧
      n' = n.setWorker origin (some x')) ∨ (a = some notFound ∧ n' = n) := by
  unfold Net.handle at h
  split at h
  · rename_i heq
    split_ifs at heq with horigin
    cases h
    exact Or.inl ⟨horigin, _, heq, rfl⟩
  · split at h
    · rename_i hx
      split at h
      · rename_i hr
        cases h
        exact Or.inr (Or.inl ⟨_, _, hx, hr, rfl⟩)
      · cases h
        exact Or.inr (Or.inr ⟨rfl, rfl⟩)
    · split_ifs at h
      cases h
      exact Or.inr (Or.inr ⟨rfl, rfl⟩)

/-- The Master has no route for an object. -/
theorem handle_object {d : Draws} {n n' : Net} {origin : String} {req : HttpRequest J} {a : Answer J}
    {key : ObjectKey} (hpath : req.path = objectPath key)
    (h : n.handle w masterUrl d origin req = some (a, n')) :
    (∃ x x', n.workers origin = some x ∧ workerRouter w x req = some (a, x') ∧
      n' = n.setWorker origin (some x')) ∨ (a = some notFound ∧ n' = n) := by
  rcases handle_cases h with ⟨-, m, hm, -⟩ | hworker
  · cases (masterRouter_object hpath).symm.trans hm
  · exact hworker

/-- A request that the Master has a route for. -/
theorem handle_master {d : Draws} {n : Net} {req : HttpRequest J}
    {out : Answer J × Shared MasterState} (h : masterRouter w d n.master req = some out) :
    n.handle w masterUrl d masterUrl req =
      some (out.1, { n with master := out.2 }) := by
  unfold Net.handle
  rw [if_pos rfl, h]

theorem refused_notFound : Refused (some notFound : Answer J) := by
  rintro _ ⟨⟩
  rfl

/-- A success is what the call answered. -/
theorem respond_success {α : Type} {x : Except String α} {f : α → HttpResponse J}
    (h : (respond (x.map f)).isSuccess = true) : ∃ a, x = .ok a ∧ respond (x.map f) = f a := by
  cases x with
  | ok a => exact ⟨a, rfl, rfl⟩
  | error e =>
    have hrefused : (respond ((Except.error e : Except String α).map f)).isSuccess = false :=
      refused_plain (J := J) (Nat.le_refl 400) e _ rfl
    rw [hrefused] at h
    cases h

/-- The Master after a call to it, with a world to which the call moved on. -/
theorem moved_master {world : World urls mayRestart} (n : Net) (ids : List PutId)
    {call : MasterState → Except String (HttpResponse J) × MasterState}
    {out : Answer J × Shared MasterState} {T : World urls mayRestart → HttpResponse J → Prop}
    (hR : Agrees world n) (he : Effect n.master call out)
    (hcall : ∃ after : World urls mayRestart, world ≤ after ∧
      after.sys.master = (call n.master.state).2 ∧ after.sys.stores = world.sys.stores ∧
      after.sys.drawn ⊆ ids ++ world.sys.drawn ∧
      ((respond (call n.master.state).1).isSuccess = true →
        T after (respond (call n.master.state).1))) :
    ∃ after, world ≤ after ∧
      Agrees after { n with master := out.2, drawn := ids ++ n.drawn } ∧
      ∀ r, out.1 = some r → r.isSuccess = true → T after r := by
  rcases he with ⟨hrefused, hstate⟩ | rfl
  · refine ⟨world, le_rfl, ⟨hR.master.trans hstate.symm, hR.store,
      List.subset_append_of_subset_right _ hR.drawn⟩, fun r hr hok => ?_⟩
    rw [hrefused r hr] at hok
    cases hok
  · obtain ⟨after, hle, hmaster, hstores, hdrawn, htold⟩ := hcall
    refine ⟨after, hle, ⟨hmaster, fun hx => ?_, ?_⟩, ?_⟩
    · rw [hstores]
      exact hR.store hx
    · exact List.Subset.trans hdrawn (List.append_subset.mpr
        ⟨List.subset_append_left _ _, List.subset_append_of_subset_right _ hR.drawn⟩)
    · rintro r ⟨⟩ hok
      exact htold hok

/-- A worker that changed, or went away. -/
theorem Agrees.setWorker {world after : World urls mayRestart} {n : Net} {a : String}
    {x : Option (Shared WorkerStore)} (hR : Agrees world n)
    (hmaster : after.sys.master = world.sys.master) (hdrawn : after.sys.drawn = world.sys.drawn)
    (hself : ∀ y, x = some y → after.sys.stores a = y.state)
    (hother : ∀ b, b ≠ a → after.sys.stores b = world.sys.stores b) :
    Agrees after (n.setWorker a x) where
  master := hmaster.trans hR.master
  store {b y} h := by
    change Function.update n.workers a x b = some y at h
    by_cases hb : b = a
    · subst hb
      rw [Function.update_self] at h
      exact hself y h
    · rw [Function.update_of_ne hb] at h
      rw [hother b hb]
      exact hR.store h
  drawn := hdrawn ▸ hR.drawn

/-- A worker whose store is as it was. -/
theorem Agrees.sameStore {world : World urls mayRestart} {n : Net} {a : String}
    {x y : Shared WorkerStore} (hR : Agrees world n) (hx : n.workers a = some x)
    (hy : y.state = x.state) : Agrees world (n.setWorker a (some y)) := by
  refine hR.setWorker rfl rfl ?_ fun _ _ => rfl
  rintro _ ⟨⟩
  rw [hy]
  exact hR.store hx

/-- A worker after a call to it. -/
theorem moved_worker {world : World urls mayRestart} {n : Net} {a : String} {x : Shared WorkerStore}
    {call : WorkerStore → Except String (HttpResponse J) × WorkerStore}
    {out : Answer J × Shared WorkerStore} {T : World urls mayRestart → HttpResponse J → Prop}
    (hR : Agrees world n) (hx : n.workers a = some x) (he : Effect x call out)
    (hcall : ∃ after : World urls mayRestart, world ≤ after ∧
      after.sys.master = world.sys.master ∧ after.sys.drawn = world.sys.drawn ∧
      after.sys.stores a = (call x.state).2 ∧
      (∀ b, b ≠ a → after.sys.stores b = world.sys.stores b) ∧
      ((respond (call x.state).1).isSuccess = true → T after (respond (call x.state).1))) :
    ∃ after, world ≤ after ∧ Agrees after (n.setWorker a (some out.2)) ∧
      ∀ r, out.1 = some r → r.isSuccess = true → T after r := by
  rcases he with ⟨hrefused, hstate⟩ | rfl
  · refine ⟨world, le_rfl, hR.sameStore hx hstate, fun r hr hok => ?_⟩
    rw [hrefused r hr] at hok
    cases hok
  · obtain ⟨after, hle, hmaster, hdrawn, hself, hother, htold⟩ := hcall
    refine ⟨after, hle, hR.setWorker hmaster hdrawn ?_ hother, ?_⟩
    · rintro _ ⟨⟩
      exact hself
    · rintro r ⟨⟩ hok
      exact htold hok

/-- Where a message is for is an origin. -/
theorem May.origin {world : World urls mayRestart} (hm : urls.Origin masterUrl) {q : Message}
    (h : q.May world) : urls.Origin (q.target masterUrl).origin := by
  cases q with
  | write p => exact (origins_run world.run).put h
  | fetch workerAddr key generation => exact h
  | _ => exact hm

/-- A registration, a heartbeat or a commit of the Master: a step that grants nothing. -/
theorem aside_step {world : World urls mayRestart} {e : SysEvent} {m : MasterState}
    (h : SysStep world.sys e { world.sys with master := m }) (hfair : Fair urls mayRestart e) :
    ∃ after : World urls mayRestart, world ≤ after ∧ after.sys.master = m ∧
      after.sys.stores = world.sys.stores ∧ after.sys.drawn ⊆ [] ++ world.sys.drawn ∧
      e ∈ after.trace := by
  obtain ⟨after, hle, hsys, htrace⟩ := World.exists_step h hfair world.fresh
  refine ⟨after, hle, by rw [hsys], by rw [hsys], ?_, by simp [htrace]⟩
  rw [hsys]
  exact List.Subset.refl _

/-- A request was served as the contract says. -/
def Served (w : Wire J) (world : World urls mayRestart) (q : Message) (a : Answer J) (n' : Net) :
    Prop :=
  ∃ after, world ≤ after ∧ Agrees after n' ∧
    ∀ r, a = some r → r.isSuccess = true → q.Told w world after r

theorem served_notFound {world : World urls mayRestart} {q : Message} {n : Net}
    (hR : Agrees world n) : Served w world q (some notFound) n := by
  refine ⟨world, le_rfl, hR, fun r hr hok => ?_⟩
  rw [refused_notFound r hr] at hok
  cases hok

section Serve

variable {world : World urls mayRestart} {n n' : Net} {d : Draws} {a : Answer J}
  (hw : w.Lawful) (hR : Agrees world n)

include hw hR

/-- A call to `register`. -/
theorem serve_register {req : RegisterRequest} (ho : urls.Origin (baseUrl req.addr))
    (h : n.handle w masterUrl d masterUrl ((Message.register req).request w masterUrl) = some (a, n')) :
    Served w world (.register req) a n' := by
  obtain ⟨out, hout, he⟩ := effect_register hw d masterUrl n.master req
  cases (handle_master hout).symm.trans h
  refine moved_master n [] hR he ?_
  have hstep : MasterStep world.sys.master (.registered d.now req.workerId req.addr
      req.capacityBytes (n.master.state.registerWorker d.now req.workerId req.addr
        req.capacityBytes).1) (n.master.state.registerWorker d.now req.workerId req.addr
        req.capacityBytes).2 := by
    rw [hR.master]
    exact .registerWorker rfl
  obtain ⟨after, hle, hmaster, hstores, hdrawn, hin⟩ := aside_step (.master (by trivial) hstep) ho
  exact ⟨after, hle, hmaster, hstores, hdrawn, fun _ => ⟨d.now, _, rfl, hin⟩⟩

/-- A call to `heartbeat`. -/
theorem serve_heartbeat {req : HeartbeatRequest}
    (h : n.handle w masterUrl d masterUrl ((Message.heartbeat req).request w masterUrl) = some (a, n')) :
    Served w world (.heartbeat req) a n' := by
  obtain ⟨out, hout, he⟩ := effect_heartbeat hw d masterUrl n.master req
  cases (handle_master hout).symm.trans h
  refine moved_master n [] hR he ?_
  have hstep : MasterStep world.sys.master (.heartbeat d.now req.workerId req.epoch
      (n.master.state.heartbeat d.now req.workerId req.epoch).1)
      (n.master.state.heartbeat d.now req.workerId req.epoch).2 := by
    rw [hR.master]
    exact .heartbeat rfl
  obtain ⟨after, hle, hmaster, hstores, hdrawn, hin⟩ := aside_step (.master (by trivial) hstep)
    trivial
  refine ⟨after, hle, hmaster, hstores, hdrawn, fun hok => ?_⟩
  rw [show (Handlers.beating d req n.master.state : Except String (HttpResponse J) × _).1 =
    (n.master.state.heartbeat d.now req.workerId req.epoch).1.map fun _ => noContent from rfl] at hok
  obtain ⟨_, hreply, -⟩ := respond_success hok
  exact ⟨d.now, hreply ▸ hin⟩

/-- A call to `put_start`. -/
theorem serve_putStart {key : ObjectKey} {bytes : List UInt8} {preferred : Option WorkerId}
    (hfresh : d.putId ∉ n.drawn)
    (h : n.handle w masterUrl d masterUrl ((Message.putStart key bytes preferred).request w masterUrl) =
      some (a, n')) :
    Served w world (.putStart key bytes preferred) a { n' with drawn := d.putId :: n'.drawn } := by
  obtain ⟨out, hout, he⟩ := effect_putStart hw d masterUrl n.master key bytes preferred
  cases (handle_master hout).symm.trans h
  refine moved_master n [d.putId] hR he ?_
  obtain ⟨reply, m', hcall⟩ : ∃ reply m', n.master.state.putStart d.now d.order d.putId
      ⟨key, bytes.length, preferred⟩ = (reply, m') := ⟨_, _, rfl⟩
  have hstep : SysStep world.sys (.put d.now key bytes preferred reply)
      { world.sys with master := m', puts := grantedPuts key bytes reply ++ world.sys.puts } :=
    .put (by rw [hR.master]; exact hcall)
  have hstarting : Handlers.starting w d ⟨key, bytes.length, preferred⟩ n.master.state =
      (reply.map fun start => okJson (w.putStartResponse.ser start), m') := by
    simp only [Handlers.starting, hcall]
  rw [hstarting]
  cases reply with
  | error msg =>
    obtain ⟨after, hle, hsys, -⟩ := World.exists_step hstep trivial world.fresh
    refine ⟨after, hle, by rw [hsys], by rw [hsys], ?_, fun hok => ?_⟩
    · rw [hsys]
      exact List.subset_append_right _ _
    · dsimp only at hok
      obtain ⟨_, herr, -⟩ := respond_success hok
      cases herr
  | ok start =>
    have hid : start.putId = d.putId := putStart_putId hcall
    have hnodup : (start.putId :: world.sys.drawn).Nodup :=
      List.nodup_cons.mpr ⟨fun hin => hfresh (hR.drawn (hid ▸ hin)), world.fresh⟩
    obtain ⟨after, hle, hsys, -⟩ := World.exists_step hstep trivial hnodup
    refine ⟨after, hle, by rw [hsys], by rw [hsys], ?_, fun _ => ⟨start, rfl, ?_⟩⟩
    · rw [hsys, ← hid]
      exact List.Subset.refl _
    · rw [World.Granted, hsys]
      exact List.mem_cons_self

/-- A call to `put_commit`. -/
theorem serve_putCommit {p : Put} (hp : p ∈ world.sys.written)
    (h : n.handle w masterUrl d masterUrl ((Message.commit p).request w masterUrl) = some (a, n')) :
    Served w world (.commit p) a n' := by
  obtain ⟨out, hout, he⟩ := effect_putCommit hw d masterUrl n.master p
  cases (handle_master hout).symm.trans h
  refine moved_master n [] hR he ?_
  have hstep : SysStep world.sys (.commit p (n.master.state.putCommit ⟨p.key, p.start.putId⟩).1)
      { world.sys with master := (n.master.state.putCommit ⟨p.key, p.start.putId⟩).2 } :=
    .commit hp (by rw [hR.master])
  obtain ⟨after, hle, hmaster, hstores, hdrawn, hin⟩ := aside_step hstep trivial
  refine ⟨after, hle, hmaster, hstores, hdrawn, fun hok => ?_⟩
  rw [show (Handlers.committing ⟨p.key, p.start.putId⟩ n.master.state :
    Except String (HttpResponse J) × _).1 =
    (n.master.state.putCommit ⟨p.key, p.start.putId⟩).1.map fun _ => noContent from rfl] at hok
  obtain ⟨_, hreply, -⟩ := respond_success hok
  have hin : .commit p (.ok ()) ∈ after.trace := hreply ▸ hin
  exact hin

omit hw in
/-- A call to `get_route`. -/
theorem serve_getRoute {key : ObjectKey}
    (h : n.handle w masterUrl d masterUrl ((Message.route key).request w masterUrl) = some (a, n')) :
    Served w world (.route key) a n' := by
  obtain ⟨out, hout, hstate, hread⟩ := effect_getRoute (w := w) d masterUrl n.master key
  cases (handle_master hout).symm.trans h
  refine ⟨world, le_rfl, ⟨hR.master.trans hstate.symm, hR.store,
    hR.drawn⟩, fun r hr hok => ?_⟩
  rcases hread with hrefused | ⟨route, hroute, hsome⟩
  · rw [hrefused r hr] at hok
    cases hok
  · cases hsome.symm.trans hr
    cases route with
    | none => cases hok
    | some route =>
      exact ⟨route, rfl, world, le_rfl, le_rfl, d.now, d.leaseId, hR.master ▸ hroute⟩

omit hw in
/-- A call to `put_object` of a worker. -/
theorem serve_write {p : Put} (hp : world.Granted p)
    (h : n.handle w masterUrl d p.server ((Message.write p).request w masterUrl) = some (a, n')) :
    Served w world (.write p) a n' := by
  rcases handle_object (show _ = objectPath p.key from rfl) h with ⟨x, x', hx, hr, rfl⟩ | ⟨rfl, rfl⟩
  · obtain ⟨he, hlimit⟩ := effect_write masterUrl x p hr
    have hstep : SysStep world.sys
        (.write p (x.state.putBytes p.key p.start.objectGeneration p.bytes).1)
        (world.sys.wrote p (x.state.putBytes p.key p.start.objectGeneration p.bytes).1
          (x.state.putBytes p.key p.start.objectGeneration p.bytes).2) :=
      .write (List.mem_append.mp hp) (by rw [hR.store hx])
    obtain ⟨after, hle, hsys, -⟩ := World.exists_step hstep trivial world.fresh
    have hself : after.sys.stores p.server =
        (x.state.putBytes p.key p.start.objectGeneration p.bytes).2 := by
      rw [hsys]
      exact setStore_self _ _ _
    have hother : ∀ b, b ≠ p.server → after.sys.stores b = world.sys.stores b := by
      intro b hb
      rw [hsys]
      exact setStore_of_ne _ hb _
    have hwritten : (respond (Handlers.putting p.key p.start.objectGeneration p.bytes x.state :
        Except String (HttpResponse J) × _).1).isSuccess = true → p ∈ after.sys.written := by
      intro hok
      rw [show (Handlers.putting p.key p.start.objectGeneration p.bytes x.state :
        Except String (HttpResponse J) × _).1 =
        (x.state.putBytes p.key p.start.objectGeneration p.bytes).1.map fun _ => noContent
        from rfl] at hok
      obtain ⟨_, hreply, -⟩ := respond_success hok
      rw [hsys, Sys.wrote, hreply]
      exact List.mem_cons_self
    obtain ⟨after, hle, hagrees, htold⟩ := moved_worker hR hx he
      (T := fun after _ => p ∈ after.sys.written)
      ⟨after, hle, by rw [hsys]; rfl, by rw [hsys]; rfl, hself, hother, hwritten⟩
    refine ⟨after, hle, hagrees, fun r hr' hok => ⟨htold r hr' hok, ?_,
      workerRouter_unroutable rfl hr⟩⟩
    refine Nat.le_of_not_lt fun hlt => ?_
    rw [hlimit hlt r hr'] at hok
    cases hok
  · exact served_notFound hR

omit hw in
/-- A call to `get_object` of a worker: it reads what the worker holds. -/
theorem serve_fetch {workerAddr : String} {key : ObjectKey} {generation : ℕ}
    (h : n.handle w masterUrl d (baseUrl workerAddr)
      ((Message.fetch workerAddr key generation).request w masterUrl) = some (a, n')) :
    Served w world (.fetch workerAddr key generation) a n' := by
  rcases handle_object (show _ = objectPath key from rfl) h with ⟨x, x', hx, hr, rfl⟩ | ⟨rfl, rfl⟩
  · refine moved_worker hR hx (effect_fetch masterUrl x workerAddr key generation hr)
      ⟨world, le_rfl, rfl, rfl, hR.store hx, fun _ _ => rfl, fun hok => ?_⟩
    cases hlookup : x.state.objects.lookup (key, generation) with
    | none =>
      rw [Handlers.getting, WorkerStore.getBytes, hlookup] at hok
      cases hok
    | some b =>
      refine ⟨b, ?_, world, le_rfl, le_rfl, ?_⟩
      · rw [Handlers.getting, WorkerStore.getBytes, hlookup]
        rfl
      · rw [Sys.fetch, hR.store hx, hlookup]
  · exact served_notFound hR

/-- **Every request that may be made is served as the contract says.** -/
theorem serve_request (hu : urls.Lawful) (hm : urls.Origin masterUrl) {q : Message}
    {faults : Fault J → Prop} (hmay : q.May world)
    (h : (netService w urls masterUrl faults).serve n q a n') :
    ∃ after, world ≤ after ∧ Agrees after n' ∧
      ∀ r, a = some r → r.isSuccess = true → q.Told w world after r := by
  obtain ⟨d, t, n₁, hfresh, hsplit, hh, rfl⟩ := h
  rw [split_outgoing hu q (May.origin hm hmay)] at hsplit
  cases hsplit
  cases q with
  | write p => exact serve_write hR hmay hh
  | fetch workerAddr key generation => exact serve_fetch hR hh
  | register req => exact serve_register hw hR hmay hh
  | heartbeat req => exact serve_heartbeat hw hR hh
  | putStart key bytes preferred => exact serve_putStart hw hR (hfresh _ List.mem_cons_self) hh
  | commit p => exact serve_putCommit hw hR hmay hh
  | route key => exact serve_getRoute hR hh

end Serve

/-- A `DELETE` changes nothing at the Master. -/
theorem masterRouter_delete {d : Draws} {m m' : Shared MasterState} {req : HttpRequest J}
    {a : Answer J} (hdelete : req.method = .delete) (h : masterRouter w d m req = some (a, m')) :
    m' = m := by
  unfold masterRouter at h
  simp only [hdelete, reduceCtorEq, if_false] at h
  split_ifs at h <;> cases h <;> rfl

/-- A `DELETE` deletes one slot of a worker, or nothing. -/
theorem workerRouter_delete {x x' : Shared WorkerStore} {req : HttpRequest J} {a : Answer J}
    (hdelete : req.method = .delete) (h : workerRouter w x req = some (a, x')) :
    x'.state = x.state ∨ ∃ key generation, x'.state = x.state.deleteGeneration key generation := by
  unfold workerRouter at h
  simp only [hdelete] at h
  split_ifs at h
  have hx' : x' = (Handlers.deleteObject x (req.path.getLastD "") req).2 :=
    (congrArg Prod.snd (Option.some.inj h)).symm
  rw [hx']
  unfold Handlers.deleteObject extracted
  cases (pathParam (req.path.getLastD "") : Except (HttpResponse J) String) with
  | error rejection => exact Or.inl rfl
  | ok key =>
    cases req.queryParam "generation" parseU64 with
    | error rejection => exact Or.inl rfl
    | ok generation =>
      rcases effect_locked x (Handlers.deleting (J := J) key generation) with ⟨-, hstate⟩ | heq
      · exact Or.inl hstate
      · exact Or.inr ⟨key, generation, congrArg (fun r => r.2.state) heq⟩

/-- A worker's store replaced, with the step that replaces it. -/
theorem replaced_store {world : World urls mayRestart} {n : Net} {e : SysEvent} {origin : String}
    {store : WorkerStore} {y : Shared WorkerStore} (hR : Agrees world n)
    (hstep : SysStep world.sys e
      { world.sys with stores := setStore world.sys.stores origin store })
    (hfair : Fair urls mayRestart e) (hy : y.state = store) :
    ∃ after, world ≤ after ∧ Agrees after (n.setWorker origin (some y)) := by
  obtain ⟨after, hle, hsys, -⟩ := World.exists_step hstep hfair world.fresh
  refine ⟨after, hle, hR.setWorker (by rw [hsys]) (by rw [hsys]; rfl) ?_ fun b hb => ?_⟩
  · rintro _ ⟨⟩
    rw [hsys, hy]
    exact setStore_self _ _ _
  · rw [hsys]
    exact setStore_of_ne _ hb _

/-- **Whatever else happens** is a step of the system, or nothing. -/
theorem fault_step {faults : Fault J → Prop} {world : World urls (faults .restarted)} {n n' : Net}
    {x : Fault J} (hR : Agrees world n)
    (h : (netService w urls masterUrl faults).happen n x n') :
    ∃ after, world ≤ after ∧ Agrees after n' := by
  obtain ⟨hfault, h⟩ := h
  cases x with
  | crashed origin =>
    rw [show n' = n.setWorker origin none from h]
    refine ⟨world, le_rfl, hR.setWorker rfl rfl (fun _ hy => ?_) fun _ _ => rfl⟩
    cases hy
  | booted origin workerId epoch capacityBytes =>
    rw [show n' = n.setWorker origin (some ⟨.new workerId epoch capacityBytes, false⟩) from h]
    exact replaced_store hR .crash trivial rfl
  | restarted =>
    rw [show n' = { n with master := ⟨.new, false⟩ } from h]
    obtain ⟨after, hle, hsys, -⟩ := World.exists_step .restart hfault world.fresh
    refine ⟨after, hle, by rw [hsys], fun hx => ?_, ?_⟩
    · rw [hsys]
      exact hR.store hx
    · rw [hsys]
      exact hR.drawn
  | masterPanicked =>
    rw [show n' = { n with master := { n.master with poisoned := true } } from h]
    exact ⟨world, le_rfl, hR.master, hR.store, hR.drawn⟩
  | workerPanicked origin =>
    obtain ⟨x, hx, rfl⟩ := h
    exact ⟨world, le_rfl, hR.sameStore hx rfl⟩
  | deleted origin req =>
    obtain ⟨hdelete, d, a, h⟩ := h
    rcases handle_cases h with ⟨-, m, hm, rfl⟩ | ⟨x, x', hx, hr, rfl⟩ | ⟨-, rfl⟩
    · rw [masterRouter_delete hdelete hm]
      exact ⟨world, le_rfl, hR.master, hR.store, hR.drawn⟩
    · rcases workerRouter_delete hdelete hr with hstate | ⟨key, generation, hstate⟩
      · exact ⟨world, le_rfl, hR.sameStore hx hstate⟩
      · have hstep : SysStep world.sys (.deleted origin key generation) _ := .delete
        exact replaced_store hR hstep trivial (by rw [hstate, hR.store hx])
    · exact ⟨world, le_rfl, hR⟩

/-- The servers start in the world of a new system. -/
theorem agrees_start {faults : Fault J → Prop} {n : Net}
    (h : (netService w urls masterUrl faults).init n) :
    ∃ world : World urls mayRestart, Agrees world n := by
  obtain ⟨hmaster, hworkers, hdrawn⟩ := h
  let stores : String → WorkerStore := fun a =>
    ((n.workers a).map Shared.state).getD (.new "" 0 0)
  have hstores : ∀ a, ∃ id epoch cap, stores a = .new id epoch cap := by
    intro a
    cases hx : n.workers a with
    | none => exact ⟨"", 0, 0, by simp only [stores, hx, Option.map_none, Option.getD_none]⟩
    | some x =>
      obtain ⟨id, epoch, cap, rfl⟩ := hworkers a x hx
      exact ⟨id, epoch, cap, by simp only [stores, hx, Option.map_some, Option.getD_some]⟩
  refine ⟨⟨[], ⟨.new, stores, [], [], []⟩, .start ⟨rfl, hstores, rfl, rfl, rfl⟩, List.nodup_nil⟩,
    by rw [hmaster], fun {a x} hx => ?_, List.nil_subset _⟩
  simp only [stores, hx, Option.map_some, Option.getD_some]

end Served

end Flour.DistKv
