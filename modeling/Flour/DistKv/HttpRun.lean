/-
  File:      Flour/DistKv/HttpRun.lean
  Subject:   Runs of the distributed cache over HTTP: any number of calls of clients and workers, over
             a network that loses requests and answers, with servers that fail.

  * `ClientCall`, `httpLts` -- the calls, as they are written, and any number of them at a time;
  * **`http_refines`** -- every run ends where some run of `sysLts` ends, and what a call returned is
    true there;
  * **`http_getObject_fresh`** -- while the Master does not restart, no read is stale.
-/
import Flour.DistKv.Network

namespace Flour.DistKv

open Flour.Lib Flour.Lib.Url

/-! ## 1. Runs over HTTP -/

/-- A call of a client, or of a worker that registers. -/
inductive ClientCall where
  | put (key : ObjectKey) (bytes : List UInt8)
  | get (key : ObjectKey)
  | register (req : RegisterRequest)
  | heartbeat (workerId : WorkerId) (epoch : ℕ)
  deriving DecidableEq

inductive Outcome where
  | stored
  | read (value : Option (List UInt8))
  | registered (epoch : Option ℕ)
  | beat (accepted : Bool)

section Http

variable {J : Type} (w : Wire J) (urls : Urls) (masterUrl : String)

def ClientCall.talk : ClientCall → ClientTalk J Outcome
  | .put key bytes => do
    DistKvClient.putObject w key bytes
    pure .stored
  | .get key => do
    let value ← DistKvClient.getObject w key
    pure (.read value)
  | .register req => do
    let epoch ← registerOnce w req
    pure (.registered epoch)
  | .heartbeat workerId epoch => do
    let accepted ← heartbeatOnce workerId epoch
    pure (.beat accepted)

/-- A worker registers at an origin. -/
def ClientCall.Proper : ClientCall → Prop
  | .register req => urls.Origin (baseUrl req.addr)
  | _ => True

/-- The cache over HTTP: any number of calls of each kind. -/
def httpLts (faults : Fault J → Prop) : Lts (Talking (ClientCall × ℕ) Net Message (HttpResponse J)
    Outcome) (TalkEvent (ClientCall × ℕ) Message (HttpResponse J) (Fault J)) :=
  (netService w urls masterUrl faults).lts fun c t => c.1.Proper urls ∧ t = c.1.talk w

/-- What the outcome of a call says about the world. -/
def ClientCall.Ends {mayRestart : Prop} (world : World urls mayRestart) :
    ClientCall → Outcome → Prop
  | .put key bytes, .stored => ∃ p, Published world.trace p ∧ p.key = key ∧ p.bytes = bytes ∧
    Arrived w p
  | .get key, .read (some b) => ∃ p ∈ world.sys.written, p.key = key ∧ p.bytes = b ∧
    (¬ mayRestart → Published world.trace p)
  | .register req, .registered (some epoch) => ∃ now,
    .master (.registered now req.workerId req.addr req.capacityBytes epoch) ∈ world.trace
  | .heartbeat workerId epoch, .beat true => ∃ now,
    .master (.heartbeat now workerId epoch (.ok ())) ∈ world.trace
  | _, _ => True

/-- The outcome shows that the value is stored under the key. -/
def ClientCall.Shows (key : ObjectKey) (value : List UInt8) : ClientCall → Outcome → Prop
  | .put k b, .stored => k = key ∧ b = value
  | .get k, .read (some b) => k = key ∧ b = value
  | _, _ => False

variable {w urls masterUrl} {mayRestart : Prop} {world : World urls mayRestart}

open DistKvClient

theorem gives_get (hw : w.Lawful) (key : ObjectKey) :
    Gives w (fun after o => ∀ b, o = .read (some b) → world.Found key b after)
      ((ClientCall.get key).talk w) world := by
  refine gives_bind (gives_getObject hw) fun value after hvalue => ?_
  refine gives_pure fun _ hle b heq => ?_
  cases heq
  exact (hvalue b rfl).later hle

/-- **What a call that returned says is true.** -/
theorem gives_talk (hw : w.Lawful) {call : ClientCall} (hproper : call.Proper urls) :
    Gives w (fun after o => call.Ends w urls after o) (call.talk w) world := by
  cases call with
  | put key bytes =>
    refine gives_bind (gives_putObject hw) fun _ after ⟨p, hp, hrest⟩ => ?_
    exact gives_pure fun _ hle => ⟨p, World.trace_mono hp hle, hrest⟩
  | get key =>
    refine (gives_get hw key).mono fun after r h o ho => ?_
    cases o with
    | read value =>
      cases value with
      | none => trivial
      | some b =>
        have hfound := h _ ho b rfl
        by_cases hrestart : mayRestart
        · obtain ⟨p, hp, hkey, hbytes⟩ := hfound.written
          exact ⟨p, hp, hkey, hbytes, fun hnr => absurd hrestart hnr⟩
        · obtain ⟨q, -, hkey, hbytes, hq, -⟩ := hfound.fresh hrestart
          exact ⟨q, written_of_published after.run.of_restrict hq, hkey, hbytes, fun _ => hq⟩
    | _ => trivial
  | register req =>
    refine gives_bind (gives_registerOnce hw hproper) fun epoch after h => ?_
    refine gives_pure fun _ hle => ?_
    cases epoch with
    | none => trivial
    | some epoch =>
      obtain ⟨now, hin⟩ := h epoch rfl
      exact ⟨now, World.trace_mono hin hle⟩
  | heartbeat workerId epoch =>
    refine gives_bind gives_heartbeatOnce fun accepted after h => ?_
    refine gives_pure fun _ hle => ?_
    cases accepted with
    | false => trivial
    | true =>
      obtain ⟨now, hin⟩ := h rfl
      exact ⟨now, World.trace_mono hin hle⟩

/-- A value that a call shows is that of a published put. -/
theorem published_of_shows {call : ClientCall} {o : Outcome} {key : ObjectKey} {value : List UInt8}
    (hnr : ¬ mayRestart) (h : call.Ends w urls world o) (hshows : call.Shows key value o) :
    ∃ p, Published world.trace p ∧ p.key = key ∧ p.bytes = value := by
  cases call with
  | put k b =>
    cases o with
    | stored =>
      obtain ⟨rfl, rfl⟩ := hshows
      obtain ⟨p, hp, hkey, hbytes, -⟩ := h
      exact ⟨p, hp, hkey, hbytes⟩
    | _ => exact hshows.elim
  | get k =>
    cases o with
    | read r =>
      cases r with
      | none => exact hshows.elim
      | some b =>
        obtain ⟨rfl, rfl⟩ := hshows
        obtain ⟨p, -, hkey, hbytes, hp⟩ := h
        exact ⟨p, hp hnr, hkey, hbytes⟩
    | _ => exact hshows.elim
  | register req => exact hshows.elim
  | heartbeat workerId epoch => exact hshows.elim

end Http

/-! ## 2. One call after another -/

section Reaches

variable {J : Type} {w : Wire J} {urls : Urls} {masterUrl : String} {faults : Fault J → Prop}

/-- From a state on, one call comes to a point, with all others where they were. -/
def Reaches (w : Wire J) (urls : Urls) (masterUrl : String) (faults : Fault J → Prop)
    (n₀ : Talking (ClientCall × ℕ) Net Message (HttpResponse J) Outcome) (servers : Net)
    (talks : ClientCall × ℕ → Option (ClientTalk J Outcome)) (c : ClientCall × ℕ)
    (t : ClientTalk J Outcome) : Prop :=
  ∃ history, (httpLts w urls masterUrl faults).Steps n₀ history
    ⟨servers, Function.update talks c (some t), n₀.stray⟩

namespace Reaches

variable {n₀ : Talking (ClientCall × ℕ) Net Message (HttpResponse J) Outcome} {servers : Net}
  {talks : ClientCall × ℕ → Option (ClientTalk J Outcome)} {c : ClientCall × ℕ}
  {t : ClientTalk J Outcome} {q : Message} {k : Except String (HttpResponse J) → ClientTalk J Outcome}

theorem started (hidle : n₀.talks c = none) (hc : c.1.Proper urls) :
    Reaches w urls masterUrl faults n₀ n₀.servers n₀.talks c (c.1.talk w) :=
  ⟨_, .step .refl (.started hidle ⟨hc, rfl⟩)⟩

theorem answered (h : Reaches w urls masterUrl faults n₀ servers talks c t) (hu : urls.Lawful)
    (ht : t = .send q k) {d : Draws} {a : HttpResponse J} {servers' : Net}
    (ho : urls.Origin (q.target masterUrl).origin) (hfresh : ∀ id ∈ q.draws d, id ∉ servers.drawn)
    (hhandle : servers.handle w masterUrl d (q.target masterUrl).origin
      (q.request w masterUrl) = some (some a, servers')) :
    Reaches w urls masterUrl faults n₀ { servers' with drawn := q.draws d ++ servers'.drawn } talks c
      (k (.ok a)) := by
  obtain ⟨history, h⟩ := h
  subst ht
  have hstep := h.step (.answered (a := a) (Function.update_self _ _ _)
    ⟨d, _, _, hfresh, split_outgoing hu q ho, hhandle, rfl⟩)
  rw [Function.update_idem] at hstep
  exact ⟨_, hstep⟩

/-- An answer of the Master. -/
theorem master (h : Reaches w urls masterUrl faults n₀ servers talks c t) (hu : urls.Lawful)
    (hm : urls.Origin masterUrl) (d : Draws) (a : HttpResponse J) (m : Shared MasterState)
    (ht : t = .send q k) (hq : (q.target masterUrl).origin = masterUrl)
    (hfresh : ∀ id ∈ q.draws d, id ∉ servers.drawn)
    (hr : masterRouter w d servers.master (q.request w masterUrl) = some (some a, m)) :
    Reaches w urls masterUrl faults n₀
      { servers with master := m, drawn := q.draws d ++ servers.drawn } talks c (k (.ok a)) := by
  have hhandle : servers.handle w masterUrl d (q.target masterUrl).origin (q.request w masterUrl) =
      some (some a, { servers with master := m }) := by
    rw [hq]
    exact handle_master hr
  exact h.answered hu ht (by rw [hq]; exact hm) hfresh hhandle

/-- An answer of a worker. -/
theorem worker (h : Reaches w urls masterUrl faults n₀ servers talks c t) (hu : urls.Lawful)
    {origin : String} (ho : urls.Origin origin) (a : HttpResponse J) {x : Shared WorkerStore}
    (x' : Shared WorkerStore) {key : ObjectKey} (ht : t = .send q k)
    (hq : (q.target masterUrl).origin = origin) (hpath : (q.target masterUrl).path = objectPath key)
    (hdraws : ∀ d, q.draws d = []) (hx : servers.workers origin = some x)
    (hr : workerRouter w x (q.request w masterUrl) = some (some a, x')) :
    Reaches w urls masterUrl faults n₀ (servers.setWorker origin (some x')) talks c (k (.ok a)) := by
  let d : Draws := ⟨0, [], 0, 0⟩
  have hnone : masterRouter w d servers.master (q.request w masterUrl) = none :=
    masterRouter_object hpath
  have hhandle : servers.handle w masterUrl d (q.target masterUrl).origin (q.request w masterUrl) =
      some (some a, servers.setWorker origin (some x')) := by
    unfold Net.handle
    rw [hnone, ite_self, hq, hx]
    dsimp only
    rw [hr]
  have hnext := h.answered hu ht (by rw [hq]; exact ho)
    (fun id hid => by rw [hdraws] at hid; cases hid) hhandle
  rw [hdraws] at hnext
  exact hnext

end Reaches

end Reaches

/-! ## 3. A concrete run -/

/-- JSON as the value it stands for. -/
inductive Doc where
  | registerRequest (a : RegisterRequest)
  | registerResponse (a : RegisterResponse)
  | heartbeatRequest (a : HeartbeatRequest)
  | putStartRequest (a : PutStartRequest)
  | putStartResponse (a : PutStartResponse)
  | putCommitRequest (a : PutCommitRequest)
  | getRouteResponse (a : GetRouteResponse)

/-- A JSON object of these fields. -/
def object (fields : List (String × String)) : String :=
  "\x7b" ++ ",".intercalate (fields.map fun f => "\"" ++ f.1 ++ "\":" ++ f.2) ++ "\x7d"

/-- A JSON text, of characters that need no escape. -/
def quoted (s : String) : String := "\"" ++ s ++ "\""

/-- The 32 hexadecimal digits of a UUID, in groups. -/
def uuidText (u : Uuid) : String :=
  let digits := padded 32 (Nat.toDigits 16 u.toNat)
  let group i n := String.ofList ((digits.drop i).take n)
  quoted s!"{group 0 8}-{group 8 4}-{group 12 4}-{group 16 4}-{group 20 12}"

/-- As `serde_json` writes it. -/
def Doc.json : Doc → String
  | .registerRequest a => object [("worker_id", quoted a.workerId), ("addr", quoted a.addr),
      ("capacity_bytes", toString a.capacityBytes)]
  | .registerResponse a => object [("epoch", toString a.epoch)]
  | .heartbeatRequest a => object [("worker_id", quoted a.workerId), ("epoch", toString a.epoch)]
  | .putStartRequest a => object [("key", quoted a.key), ("size_bytes", toString a.sizeBytes),
      ("preferred_worker_id", a.preferredWorkerId.elim "null" quoted)]
  | .putStartResponse a => object [("put_id", uuidText a.putId), ("worker_id", quoted a.workerId),
      ("worker_addr", quoted a.workerAddr), ("object_generation", toString a.objectGeneration)]
  | .putCommitRequest a => object [("key", quoted a.key), ("put_id", uuidText a.putId)]
  | .getRouteResponse a => object [("key", quoted a.key), ("worker_id", quoted a.workerId),
      ("worker_addr", quoted a.workerAddr), ("object_generation", toString a.objectGeneration),
      ("lease_id", uuidText a.leaseId), ("lease_expires_ms", toString a.leaseExpiresMs)]

example : (Doc.putCommitRequest ⟨"k", 1⟩).json =
    "\x7b\"key\":\"k\",\"put_id\":\"00000000-0000-0000-0000-000000000001\"\x7d" := by
  decide +kernel

def notThat : ℕ × String := (422, "Failed to deserialize the JSON body into the target type")

def docWire : Wire Doc where
  text j := Percent.utf8Bytes j.json
  bodyLimit := 2097152
  registerRequest := ⟨.registerRequest, fun | .registerRequest a => .ok a | _ => .error notThat⟩
  registerResponse := ⟨.registerResponse, fun | .registerResponse a => .ok a | _ => .error notThat⟩
  heartbeatRequest := ⟨.heartbeatRequest, fun | .heartbeatRequest a => .ok a | _ => .error notThat⟩
  putStartRequest := ⟨.putStartRequest, fun | .putStartRequest a => .ok a | _ => .error notThat⟩
  putStartResponse := ⟨.putStartResponse, fun | .putStartResponse a => .ok a | _ => .error notThat⟩
  putCommitRequest := ⟨.putCommitRequest, fun | .putCommitRequest a => .ok a | _ => .error notThat⟩
  getRouteResponse := ⟨.getRouteResponse, fun | .getRouteResponse a => .ok a | _ => .error notThat⟩

theorem docWire_lawful : docWire.Lawful := by
  constructor <;> exact fun _ => rfl

/-- A network on which nothing but crashes happens. -/
def onlyCrashes : Fault Doc → Prop
  | .crashed _ => True
  | _ => False

abbrev DocTalking := Talking (ClientCall × ℕ) Net Message (HttpResponse Doc) Outcome

abbrev docLts := httpLts docWire plainUrls "http://m" onlyCrashes

theorem origin_m : plainUrls.Origin "http://m" := ⟨['m'], by decide, by decide⟩

theorem origin_w : plainUrls.Origin "http://w1" := ⟨"w1".toList, by decide, by decide⟩

theorem baseUrl_w : baseUrl "http://w1" = "http://w1" := by decide +kernel

def docDraws : Draws := ⟨1000, ["w1"], 1, 9⟩

/-- One worker, which is up and not registered yet. -/
def docStart : DocTalking where
  servers := ⟨⟨.new, false⟩, Function.update (fun _ => none) "http://w1"
    (some ⟨.new "w1" 0 1024, false⟩), []⟩
  talks _ := none
  stray := []

theorem docStart_init : docLts.init docStart := by
  refine ⟨⟨rfl, fun a x h => ?_, rfl⟩, fun _ => rfl, rfl⟩
  by_cases ha : a = "http://w1"
  · subst ha
    exact ⟨_, _, _, (Option.some.inj h).symm⟩
  · exact absurd h (by simp [docStart, Function.update_of_ne ha])

def docRegister : ClientCall × ℕ := (.register ⟨"w1", "http://w1", 1024⟩, 0)
def docPut : ClientCall × ℕ := (.put "k" [1], 0)
def docGet : ClientCall × ℕ := (.get "k", 0)

/-- The Master after the registration, and after the grant. -/
def docMaster₁ : MasterState := (MasterState.new.registerWorker 1000 "w1" "http://w1" 1024).2
def docMaster₂ : MasterState := (docMaster₁.putStart 1000 ["w1"] 1 ⟨"k", 1, none⟩).2

/-- For a call from that state on. -/
abbrev DocReaches := Reaches docWire plainUrls "http://m" onlyCrashes

/-- The worker registered. -/
theorem doc_registered : DocReaches docStart
    ⟨⟨docMaster₁, false⟩, docStart.servers.workers, []⟩ docStart.talks docRegister
    (.done (.ok (.registered (some 1)))) := by
  have h₀ : DocReaches docStart docStart.servers docStart.talks docRegister
      (docRegister.1.talk docWire) := .started rfl (show plainUrls.Origin (baseUrl "http://w1") by
        rw [baseUrl_w]; exact origin_w)
  exact h₀.master plainUrls_lawful origin_m docDraws (okJson (.registerResponse ⟨1⟩))
    ⟨docMaster₁, false⟩ rfl rfl (fun _ h => by cases h)
    (register_served docWire_lawful docDraws "http://m" (by decide +kernel) rfl)

def docTalks₁ : ClientCall × ℕ → Option (ClientTalk Doc Outcome) :=
  Function.update docStart.talks docRegister (some (.done (.ok (.registered (some 1)))))

def docRegistered : DocTalking :=
  ⟨⟨⟨docMaster₁, false⟩, docStart.servers.workers, []⟩, docTalks₁, []⟩

def docServers : Net :=
  ⟨⟨putMaster putA, false⟩, Function.update docStart.servers.workers "http://w1"
    (some ⟨putStore putA, false⟩), [1]⟩

/-- A put went through. -/
theorem doc_stored : DocReaches docRegistered docServers docTalks₁ docPut (.done (.ok .stored)) := by
  have h₀ : DocReaches docRegistered _ docTalks₁ docPut (docPut.1.talk docWire) := .started rfl trivial
  have h₁ := h₀.master plainUrls_lawful origin_m docDraws (okJson (.putStartResponse putA.start))
    ⟨docMaster₂, false⟩ rfl rfl (fun _ _ h => by cases h)
    (putStart_served docWire_lawful docDraws "http://m" (by decide +kernel) rfl)
  have h₂ := h₁.worker (q := .write putA) plainUrls_lawful origin_w noContent ⟨putStore putA, false⟩
    rfl baseUrl_w (show _ = objectPath putA.key from rfl) (fun _ => rfl) rfl
    (write_served _ _ (by decide) (by decide) (by decide))
  exact h₂.master (q := .commit putA) plainUrls_lawful origin_m docDraws noContent
    ⟨putMaster putA, false⟩ rfl rfl (fun _ h => by cases h)
    (putCommit_served docWire_lawful docDraws "http://m" (by decide +kernel) rfl)

def docTalks₂ : ClientCall × ℕ → Option (ClientTalk Doc Outcome) :=
  Function.update docTalks₁ docPut (some (.done (.ok .stored)))

/-- A get reads it. -/
theorem doc_read : DocReaches ⟨docServers, docTalks₂, []⟩
    (docServers.setWorker "http://w1" (some ⟨putStore putA, false⟩)) docTalks₂ docGet
    (.done (.ok (.read (some [1])))) := by
  have h₀ : DocReaches ⟨docServers, docTalks₂, []⟩ _ docTalks₂ docGet (docGet.1.talk docWire) :=
    .started rfl trivial
  have hroute : (putMaster putA).getRoute 1000 9 "k" = .ok (some putRoute) := rfl
  have h₁ := h₀.master (q := .route "k") plainUrls_lawful origin_m docDraws
    (okJson (.getRouteResponse putRoute)) ⟨putMaster putA, false⟩ rfl rfl (fun _ h => by cases h)
    (getRoute_served docDraws "http://m" hroute)
  exact h₁.worker (q := .fetch "http://w1" "k" 1) plainUrls_lawful origin_w ⟨200, .bytes [1]⟩
    ⟨putStore putA, false⟩ rfl baseUrl_w (show _ = objectPath "k" from rfl) (fun _ => rfl) rfl
    (fetch_served _ _ _ (by decide) (by decide))

/-! ## 4. Results -/

section Results

variable {J : Type} {w : Wire J} {urls : Urls} {masterUrl : String} {faults : Fault J → Prop}
  (hw : w.Lawful) (hu : urls.Lawful) (hm : urls.Origin masterUrl)

include hw hu hm

/-- Every run over HTTP is in a world in which the calls keep their contract. -/
theorem kept_http {history : List (TalkEvent (ClientCall × ℕ) Message (HttpResponse J) (Fault J))}
    {n : Talking (ClientCall × ℕ) Net Message (HttpResponse J) Outcome}
    (h : (httpLts w urls masterUrl faults).Run history n) :
    ∃ world : World urls (faults .restarted), Agrees world n.servers ∧
      Service.Kept (contract w urls (faults .restarted))
        (fun c world r => ∀ o, r = .ok o → c.1.Ends w urls world o) world n := by
  refine Service.kept_run (fun _ h => agrees_start h) (fun world n q a n' hR hmay h => ?_)
    (fun world n x n' hR h => fault_step hR h) (fun c t world h => ?_) h
  · exact serve_request hw hR hu hm hmay h
  · obtain ⟨hproper, rfl⟩ := h
    exact gives_talk hw hproper

/-- **The HTTP layer refines the system.** Over a network that loses, delays and repeats requests and
    loses answers, with servers that crash, come back, panic under their locks or delete what anybody
    asks them to, and a Master that may restart: every run ends in servers in which some run of the
    system ends, and what a call returned is true there. A put that returned wrote its bytes and then
    published them, they were no more than the framework takes, and the key is a segment of a path; a
    get that returned bytes returned those of a written put of its key, published unless the Master
    may restart; an accepted registration or heartbeat was a step of the Master. -/
theorem http_refines
    {history : List (TalkEvent (ClientCall × ℕ) Message (HttpResponse J) (Fault J))}
    {n : Talking (ClientCall × ℕ) Net Message (HttpResponse J) Outcome}
    (h : (httpLts w urls masterUrl faults).Run history n) :
    ∃ world : World urls (faults .restarted), Agrees world n.servers ∧
      ∀ c o, n.talks c = some (.done (.ok o)) → c.1.Ends w urls world o := by
  obtain ⟨world, hR, hkept⟩ := kept_http hw hu hm h
  exact ⟨world, hR, fun c o hdone => (hkept.talks hdone).result o rfl⟩

omit hw hu hm in
/-- A run in which a worker registers, a value is put and then read. -/
theorem http_refines_read : ∃ history, ∃ n : DocTalking, docLts.Run history n ∧
    ∃ world : World plainUrls (onlyCrashes .restarted), Agrees world n.servers ∧
      (ClientCall.put "k" [1]).Ends docWire plainUrls world .stored ∧
      (ClientCall.get "k").Ends docWire plainUrls world (.read (some [1])) := by
  obtain ⟨_, hregister⟩ := doc_registered
  obtain ⟨_, hput⟩ := doc_stored
  obtain ⟨_, hget⟩ := doc_read
  have hrun := ((Lts.Run.start docStart_init).trans hregister).trans hput |>.trans hget
  obtain ⟨world, hR, hends⟩ := http_refines docWire_lawful plainUrls_lawful origin_m hrun
  exact ⟨_, _, hrun, world, hR, hends docPut _ rfl, hends docGet _ rfl⟩

/-- **A read is never stale**, while the Master does not restart: when a put of a key has returned, or
    a get has returned bytes, every get of that key that starts later and returns bytes returns those
    of a published put that is the same as or newer than every put of the key published by then,
    whatever is lost, delayed, repeated, crashed or deleted meanwhile. -/
theorem http_getObject_fresh (hnr : ¬ faults .restarted)
    {history history' : List (TalkEvent (ClientCall × ℕ) Message (HttpResponse J) (Fault J))}
    {n n' : Talking (ClientCall × ℕ) Net Message (HttpResponse J) Outcome}
    (h : (httpLts w urls masterUrl faults).Run history n)
    (h' : (httpLts w urls masterUrl faults).Steps n history' n') {c : ClientCall × ℕ}
    {o : Outcome} {key : ObjectKey} {value b : List UInt8}
    (hdone : n.talks c = some (.done (.ok o))) (hshows : c.1.Shows key value o)
    (j : ℕ) (hidle : n.talks (.get key, j) = none)
    (hget : n'.talks (.get key, j) = some (.done (.ok (.read (some b))))) :
    ∃ before after : World urls (faults .restarted), before ≤ after ∧
      Agrees before n.servers ∧ Agrees after n'.servers ∧
      (∃ p, p.key = key ∧ p.bytes = value ∧ Published before.trace p) ∧
      ∃ q ∈ after.sys.puts, (q.key = key ∧ q.bytes = b ∧ Published after.trace q) ∧
        ∀ p, p.key = key → Published before.trace p →
          p ∈ after.sys.puts ∧
            (p = q ∨ p.start.objectGeneration < q.start.objectGeneration) := by
  obtain ⟨before, hR, hkept⟩ := kept_http hw hu hm h
  obtain ⟨p, hp, hkey, hvalue⟩ := published_of_shows hnr ((hkept.talks hdone).result o rfl) hshows
  -- a get that starts from here on finds what is published from here on
  let P : ClientCall × ℕ → World urls (faults .restarted) → Except String Outcome → Prop :=
    fun c after r => n.talks c = none → ∀ key b, c.1 = .get key → r = .ok (.read (some b)) →
      before.Found key b after
  have hkept' : Service.Kept (contract w urls (faults .restarted)) P before n := by
    refine ⟨fun {c t} ht => (hkept.talks ht).mono fun _ _ _ hidle => ?_, hkept.stray⟩
    rw [ht] at hidle
    cases hidle
  have hstart : ∀ c t world, before ≤ world → n.talks c = none →
      c.1.Proper urls ∧ t = c.1.talk w → Keeps (contract w urls (faults .restarted)) (P c) t world := by
    rintro ⟨call, i⟩ t world hle - ⟨hproper, rfl⟩
    by_cases hc : ∃ key, call = .get key
    · obtain ⟨key, rfl⟩ := hc
      refine (gives_get hw key).mono fun after r hfound _ k b hk hr => ?_
      cases hk
      exact (hfound _ hr b rfl).earlier hle
    · exact (gives_talk hw hproper).mono fun _ _ _ _ key _ hk => absurd ⟨key, hk⟩ hc
  obtain ⟨after, hle, hR', hkept''⟩ := Service.kept_steps
    (fun world n q a n' hR hmay h => serve_request hw hR hu hm hmay h)
    (fun world n x n' hR h => fault_step hR h) h' hR hkept' hstart
  have hfound := (hkept''.talks hget).result hidle key b rfl rfl
  obtain ⟨q, hq, hqkey, hqbytes, hqp, hnewest⟩ := hfound.fresh hnr
  exact ⟨before, after, hle, hR, hR', ⟨p, hkey, hvalue, hp⟩, q, hq, ⟨hqkey, hqbytes, hqp⟩,
    fun p hkey hp => hnewest p hp hkey⟩

end Results

/-- What was put is read by a get that starts after it. -/
theorem http_getObject_fresh_read : ∃ history history', ∃ n n' : DocTalking,
    docLts.Run history n ∧ docLts.Steps n history' n' ∧
    ∃ before after : World plainUrls (onlyCrashes .restarted), before ≤ after ∧
      Agrees before n.servers ∧ Agrees after n'.servers ∧
      (∃ p, p.key = "k" ∧ p.bytes = [1] ∧ Published before.trace p) ∧
      ∃ q ∈ after.sys.puts, (q.key = "k" ∧ q.bytes = [1] ∧ Published after.trace q) ∧
        ∀ p, p.key = "k" → Published before.trace p →
          p ∈ after.sys.puts ∧
            (p = q ∨ p.start.objectGeneration < q.start.objectGeneration) := by
  obtain ⟨_, hregister⟩ := doc_registered
  obtain ⟨_, hput⟩ := doc_stored
  obtain ⟨_, hget⟩ := doc_read
  have hrun : docLts.Run _ ⟨docServers, docTalks₂, []⟩ :=
    ((Lts.Run.start docStart_init).trans hregister).trans hput
  have hstored : docTalks₂ docPut = some (.done (.ok .stored)) := Function.update_self _ _ _
  have hshows : docPut.1.Shows "k" [1] .stored := ⟨rfl, rfl⟩
  have hidle : docTalks₂ (.get "k", 0) = none := rfl
  have hread : Function.update docTalks₂ docGet (some (.done (.ok (.read (some [1])))))
      (.get "k", 0) = some (.done (.ok (.read (some [1])))) := Function.update_self docGet _ _
  exact ⟨_, _, _, _, hrun, hget, http_getObject_fresh docWire_lawful plainUrls_lawful origin_m
    (fun h => h) hrun hget hstored hshows 0 hidle hread⟩

end Flour.DistKv
