/-
  File:      Flour/DistKv/HttpServed.lean
  Subject:   A put and a get over HTTP that nothing disturbs.

  * `start_commit_route` -- a grant is published by its commit, and routed then;
  * `Putable` -- nothing speaks against a put: its grant, its worker, its sizes and its key;
  * `put_talk`, `get_talk` -- the requests of a put and of a get that are answered;
  * `put_reaches`, `get_reaches` -- each of the two goes through;
  * **`http_put_get`** -- from every state of every run a put that nothing speaks against can return,
    and a get after it returns its bytes.
-/
import Flour.DistKv.HttpRun

namespace Flour.DistKv

open Flour.Lib Flour.Lib.Url

/-! ## 1. What each request does -/

/-- A grant is published by its commit, and routed then. -/
theorem start_commit_route {m m₁ : MasterState} {now : ℕ} {order : List WorkerId} {putId : PutId}
    {key : ObjectKey} {size : ℕ} {start : PutStartResponse}
    (h : m.putStart now order putId ⟨key, size, none⟩ = (.ok start, m₁))
    (htime : now + leaseTtlMs ≤ u64Max) (leaseId : LeaseId) :
    ∃ m₂, m₁.putCommit ⟨key, start.putId⟩ = (.ok (), m₂) ∧ m₂.getRoute now leaseId key =
      .ok (some (MasterState.routeTo key start.workerId start.workerAddr start.objectGeneration
        leaseId now)) := by
  rcases m.putStart_cases now order putId ⟨key, size, none⟩ with
    ⟨msg, h'⟩ | ⟨id, x, hx, halive, -, h'⟩ <;> cases h'.symm.trans h
  let m₁ : MasterState :=
    { workers := (m.releasePrevious key).insert id
        (WorkerMeta.recharged x (m.releasedOn key id) size)
      objects := m.objects.insert key (m.opened putId ⟨key, size, none⟩ id x) }
  have hobj : m₁.objects.lookup key = some (m.opened putId ⟨key, size, none⟩ id x) :=
    Finmap.lookup_insert _
  rcases m₁.putCommit_cases ⟨key, putId⟩ with ⟨msg, -, hbad⟩ | ⟨obj, hobj', -, -, hcommit⟩
  · rcases hbad _ hobj with hs | hp
    · exact absurd rfl hs
    · exact absurd rfl hp
  · cases hobj.symm.trans hobj'
    exact ⟨_, hcommit, MasterState.getRoute_eq_some_iff.mpr ⟨_, id, _, Finmap.lookup_insert _, rfl,
      rfl, Finmap.lookup_insert _, halive, rfl, htime, rfl⟩⟩

section Stores

variable {J : Type} {w : Wire J} {store store' : WorkerStore}

/-- A write that the store takes. -/
theorem write_stored (masterUrl : String) {p : Put} (hk : ¬ Unroutable p.key)
    (hg : p.start.objectGeneration ≤ u64Max) (hl : p.bytes.length ≤ w.bodyLimit)
    (h : store.putBytes p.key p.start.objectGeneration p.bytes = (.ok (), store')) :
    workerRouter w ⟨store, false⟩ ((Message.write p).request w masterUrl) =
      some (some noContent, ⟨store', false⟩) := by
  have hcall : Handlers.putting p.key p.start.objectGeneration p.bytes store =
      (.ok (noContent : HttpResponse J), store') := by
    simp only [Handlers.putting, h]
    rfl
  rw [write_served masterUrl _ hk hg hl]
  exact congrArg some (locked_eq hcall)

/-- A fetch of what the store holds. -/
theorem fetch_held (masterUrl workerAddr : String) {key : ObjectKey} {generation : ℕ} {b : List UInt8}
    (hk : ¬ Unroutable key) (hg : generation ≤ u64Max)
    (h : store.objects.lookup (key, generation) = some b) :
    workerRouter w ⟨store, false⟩ ((Message.fetch workerAddr key generation).request w masterUrl) =
      some (some ⟨200, .bytes b⟩, ⟨store, false⟩) := by
  have hcall : Handlers.getting key generation store =
      (.ok (⟨200, .bytes b⟩ : HttpResponse J), store) := by
    simp only [Handlers.getting, WorkerStore.getBytes, h]
    rfl
  rw [fetch_served masterUrl workerAddr _ hk hg]
  exact congrArg some (locked_eq hcall)

end Stores

section Quiet

variable {J : Type} {w : Wire J} {urls : Urls} {masterUrl : String} {faults : Fault J → Prop}
  {key : ObjectKey} {bytes : List UInt8} {start : PutStartResponse}

/-- Nothing speaks against a put: the Master grants it, the worker is up and has room, no lock is
    poisoned, the bodies fit, and the key is a segment of a path. -/
structure Putable (w : Wire J) (n : Net) (key : ObjectKey) (bytes : List UInt8) (d : Draws)
    (start : PutStartResponse) (m₁ : MasterState) (store store' : WorkerStore) : Prop where
  lock : n.master.poisoned = false
  grant : n.master.state.putStart d.now d.order d.putId ⟨key, bytes.length, none⟩ = (.ok start, m₁)
  fresh : d.putId ∉ n.drawn
  time : d.now + leaseTtlMs ≤ u64Max
  generation : start.objectGeneration ≤ u64Max
  worker : n.workers (baseUrl start.workerAddr) = some ⟨store, false⟩
  room : store.putBytes key start.objectGeneration bytes = (.ok (), store')
  routable : ¬ Unroutable key
  body : bytes.length ≤ w.bodyLimit
  startText : (w.text (w.putStartRequest.ser ⟨key, bytes.length, none⟩)).length ≤ w.bodyLimit
  commitText : (w.text (w.putCommitRequest.ser ⟨key, start.putId⟩)).length ≤ w.bodyLimit

/-- The requests of a put that is answered. -/
theorem put_talk (hw : w.Lawful) (key : ObjectKey) (bytes : List UInt8) (start : PutStartResponse) :
    ∃ k₁ k₂ k₃, (ClientCall.put key bytes).talk w = .send (.putStart key bytes none) k₁ ∧
      k₁ (.ok (okJson (w.putStartResponse.ser start))) = .send (.write ⟨key, bytes, start⟩) k₂ ∧
      k₂ (.ok noContent) = .send (.commit ⟨key, bytes, start⟩) k₃ ∧
      k₃ (.ok noContent) = .done (.ok .stored) := by
  have hdecode : DistKvClient.json w.putStartResponse (okJson (w.putStartResponse.ser start)) =
      pure start := DistKvClient.json_ser hw.putStartResponse rfl
  have hrest : ∃ k₂ k₃, (((pure start : ClientTalk J PutStartResponse) >>= fun start => do
      DistKvClient.writeWorker ⟨key, bytes, start⟩
      DistKvClient.putCommit ⟨key, bytes, start⟩) >>= fun _ => pure Outcome.stored) =
        .send (.write ⟨key, bytes, start⟩) k₂ ∧
      k₂ (.ok noContent) = .send (.commit ⟨key, bytes, start⟩) k₃ ∧
      k₃ (.ok noContent) = .done (.ok .stored) := ⟨_, _, rfl, rfl, rfl⟩
  rw [← hdecode] at hrest
  obtain ⟨k₂, k₃, hwrite, hcommit, hdone⟩ := hrest
  exact ⟨_, k₂, k₃, rfl, hwrite, hcommit, hdone⟩

/-- The requests of a get that is answered. -/
theorem get_talk (hw : w.Lawful) (key : ObjectKey) (route : GetRouteResponse) (b : List UInt8) :
    ∃ k₁ k₂, (ClientCall.get key).talk w = .send (.route key) k₁ ∧
      k₁ (.ok (okJson (w.getRouteResponse.ser route))) =
        .send (.fetch route.workerAddr key route.objectGeneration) k₂ ∧
      k₂ (.ok ⟨200, .bytes b⟩) = .done (.ok (.read (some b))) := by
  have hdecode : DistKvClient.json w.getRouteResponse (okJson (w.getRouteResponse.ser route)) =
      pure route := DistKvClient.json_ser hw.getRouteResponse rfl
  obtain ⟨k, hk⟩ : ∃ k, DistKvClient.getRoute w key = .send (.route key) k := ⟨_, rfl⟩
  have hrouted : k (.ok (okJson (w.getRouteResponse.ser route))) = pure (some route) := by
    cases hk
    exact congrArg (· >>= fun route => pure (some route)) hdecode
  obtain ⟨fetch, hget, hfetch⟩ : ∃ fetch,
      DistKvClient.getObject w key = DistKvClient.getRoute w key >>= fetch ∧
      fetch (some route) = DistKvClient.fetchWorker w route.workerAddr key route.objectGeneration :=
    ⟨_, rfl, rfl⟩
  have htalk : (ClientCall.get key).talk w = .send (.route key) fun reply =>
      (k reply >>= fetch) >>= fun value => pure (Outcome.read value) := by
    rw [ClientCall.talk, hget, hk]
    rfl
  obtain ⟨k₂, hsend, hdone⟩ : ∃ k₂,
      (DistKvClient.fetchWorker w route.workerAddr key route.objectGeneration >>=
        fun value => pure (Outcome.read value)) =
        .send (.fetch route.workerAddr key route.objectGeneration) k₂ ∧
      k₂ (.ok ⟨200, .bytes b⟩) = .done (.ok (.read (some b))) := ⟨_, rfl, rfl⟩
  refine ⟨_, k₂, htalk, ?_, hdone⟩
  rw [hrouted, ← hsend, ← hfetch]
  rfl

/-! ## 2. A put and a get -/

/-- A put that nothing speaks against goes through. -/
theorem put_reaches (hw : w.Lawful) (hu : urls.Lawful) (hm : urls.Origin masterUrl)
    {n : Talking (ClientCall × ℕ) Net Message (HttpResponse J) Outcome} {d : Draws}
    {m₁ m₂ : MasterState} {store store' : WorkerStore}
    (hp : Putable w n.servers key bytes d start m₁ store store')
    (ho : urls.Origin (baseUrl start.workerAddr))
    (hcommit : m₁.putCommit ⟨key, start.putId⟩ = (.ok (), m₂)) {i : ℕ}
    (hput : n.talks (.put key bytes, i) = none) :
    Reaches w urls masterUrl faults n
      ⟨⟨m₂, false⟩, Function.update n.servers.workers (baseUrl start.workerAddr)
        (some ⟨store', false⟩), d.putId :: n.servers.drawn⟩
      n.talks (.put key bytes, i) (.done (.ok .stored)) := by
  have hmaster : n.servers.master = ⟨n.servers.master.state, false⟩ := by rw [← hp.lock]
  have hstart : masterRouter w d n.servers.master ((Message.putStart key bytes none).request w
      masterUrl) = some (some (okJson (w.putStartResponse.ser start)), ⟨m₁, false⟩) := by
    rw [hmaster]
    exact putStart_served hw d masterUrl hp.startText hp.grant
  have hfresh : ∀ id ∈ (Message.putStart key bytes none).draws d, id ∉ n.servers.drawn := by
    intro id hid
    cases List.mem_singleton.mp hid
    exact hp.fresh
  obtain ⟨k₁, k₂, k₃, htalk, hwrite, hpublish, hdone⟩ := put_talk hw key bytes start
  have h₀ : Reaches w urls masterUrl faults n n.servers n.talks (.put key bytes, i)
      ((ClientCall.put key bytes).talk w) := .started hput trivial
  have h₁ := h₀.master hu hm d _ _ htalk rfl hfresh hstart
  have h₂ := h₁.worker hu ho _ _ hwrite rfl (show _ = objectPath key from rfl) (fun _ => rfl) hp.worker
    (write_stored masterUrl hp.routable hp.generation hp.body hp.room)
  have h₃ := h₂.master hu hm d _ _ hpublish rfl (fun _ h => by cases h)
    (putCommit_served hw d masterUrl hp.commitText hcommit)
  rw [hdone] at h₃
  exact h₃

/-- A get of a key that the Master routes, to a worker that holds it, reads it. -/
theorem get_reaches (hw : w.Lawful) (hu : urls.Lawful) (hm : urls.Origin masterUrl)
    {n : Talking (ClientCall × ℕ) Net Message (HttpResponse J) Outcome} {d : Draws} {m : MasterState}
    {route : GetRouteResponse} {store : WorkerStore} (hmaster : n.servers.master = ⟨m, false⟩)
    (hroute : m.getRoute d.now d.leaseId key = .ok (some route))
    (ho : urls.Origin (baseUrl route.workerAddr))
    (hx : n.servers.workers (baseUrl route.workerAddr) = some ⟨store, false⟩)
    (hheld : store.objects.lookup (key, route.objectGeneration) = some bytes)
    (hk : ¬ Unroutable key) (hg : route.objectGeneration ≤ u64Max) {j : ℕ}
    (hget : n.talks (.get key, j) = none) :
    ∃ servers, Reaches w urls masterUrl faults n servers n.talks (.get key, j)
      (.done (.ok (.read (some bytes)))) := by
  have hserved : masterRouter w d n.servers.master ((Message.route key).request w masterUrl) =
      some (some (okJson (w.getRouteResponse.ser route)), ⟨m, false⟩) := by
    rw [hmaster]
    exact getRoute_served d masterUrl hroute
  obtain ⟨k₁, k₂, htalk, hfetch, hdone⟩ := get_talk hw key route bytes
  have h₀ : Reaches w urls masterUrl faults n n.servers n.talks (.get key, j)
      ((ClientCall.get key).talk w) := .started hget trivial
  have h₁ := h₀.master hu hm d _ _ htalk rfl (fun _ h => by cases h) hserved
  have h₂ := h₁.worker hu ho _ _ hfetch rfl (show _ = objectPath key from rfl) (fun _ => rfl) hx
    (fetch_held masterUrl route.workerAddr hk hg hheld)
  rw [hdone] at h₂
  exact ⟨_, h₂⟩

/-- **A put that nothing speaks against returns, and a get after it returns its bytes.** From every
    state of every run, whatever is under way there, the two calls can go through one after the other:
    the servers answer each of their requests with a success. -/
theorem http_put_get (hw : w.Lawful) (hu : urls.Lawful) (hm : urls.Origin masterUrl)
    {history : List (TalkEvent (ClientCall × ℕ) Message (HttpResponse J) (Fault J))}
    {n : Talking (ClientCall × ℕ) Net Message (HttpResponse J) Outcome}
    (h : (httpLts w urls masterUrl faults).Run history n) {d : Draws} {m₁ : MasterState}
    {store store' : WorkerStore} (hp : Putable w n.servers key bytes d start m₁ store store')
    {i j : ℕ} (hput : n.talks (.put key bytes, i) = none) (hget : n.talks (.get key, j) = none) :
    ∃ history₁ stored history₂ n', (httpLts w urls masterUrl faults).Steps n history₁ stored ∧
      stored.talks (.put key bytes, i) = some (.done (.ok .stored)) ∧
      stored.talks (.get key, j) = none ∧
      (httpLts w urls masterUrl faults).Steps stored history₂ n' ∧
      n'.talks (.get key, j) = some (.done (.ok (.read (some bytes)))) := by
  obtain ⟨world, hR, -⟩ := kept_http hw hu hm h
  obtain ⟨x, hx, haddr⟩ := putStart_addr hp.grant
  have ho : urls.Origin (baseUrl start.workerAddr) := by
    rw [haddr]
    exact (origins_run world.run).worker (hR.master ▸ hx)
  obtain ⟨m₂, hcommit, hroute⟩ := start_commit_route hp.grant hp.time d.leaseId
  have hheld : store'.objects.lookup (key, start.objectGeneration) = some bytes := by
    rcases store.putBytes_cases key start.objectGeneration bytes with ⟨msg, h', -⟩ | ⟨h', -⟩ <;>
      cases h'.symm.trans hp.room
    exact stored_lookup_self store ⟨key, bytes, start⟩ _
  -- the put
  let talks : ClientCall × ℕ → Option (ClientTalk J Outcome) :=
    Function.update n.talks (.put key bytes, i) (some (.done (.ok .stored)))
  let stored : Talking (ClientCall × ℕ) Net Message (HttpResponse J) Outcome :=
    ⟨⟨⟨m₂, false⟩, Function.update n.servers.workers (baseUrl start.workerAddr)
      (some ⟨store', false⟩), d.putId :: n.servers.drawn⟩, talks, n.stray⟩
  obtain ⟨history₁, hsteps⟩ : ∃ history₁, (httpLts w urls masterUrl faults).Steps n history₁ stored :=
    put_reaches hw hu hm hp ho hcommit hput
  -- the get
  have hne : ((ClientCall.get key, j) : ClientCall × ℕ) ≠ (.put key bytes, i) := fun heq => by
    cases heq
  have hidle : talks (.get key, j) = none := by
    rw [show talks (.get key, j) = n.talks (.get key, j) from Function.update_of_ne hne _ _, hget]
  obtain ⟨servers, history₂, hsteps'⟩ : ∃ servers, Reaches w urls masterUrl faults stored servers
      talks (.get key, j) (.done (.ok (.read (some bytes)))) :=
    get_reaches hw hu hm rfl hroute ho (Function.update_self _ _ _) hheld hp.routable hp.generation
      hidle
  exact ⟨_, stored, _, _, hsteps, Function.update_self _ _ _, hidle, hsteps',
    Function.update_self _ _ _⟩

end Quiet

/-- The registered worker takes a put, and answers a get. -/
theorem http_put_get_registered : ∃ history₁ stored history₂ n',
    docLts.Steps docRegistered history₁ stored ∧
    stored.talks docPut = some (.done (.ok .stored)) ∧ stored.talks docGet = none ∧
    docLts.Steps stored history₂ n' ∧
    n'.talks docGet = some (.done (.ok (.read (some [1])))) := by
  obtain ⟨_, hregister⟩ := doc_registered
  have hrun : docLts.Run _ docRegistered := (Lts.Run.start docStart_init).trans hregister
  have hputable : Putable docWire docRegistered.servers "k" [1] docDraws putA.start docMaster₂
      (.new "w1" 0 1024) (putStore putA) := {
    lock := rfl
    grant := rfl
    fresh := List.not_mem_nil
    time := by decide
    generation := by decide
    worker := by
      rw [show baseUrl putA.start.workerAddr = "http://w1" from baseUrl_w]
      rfl
    room := rfl
    routable := by decide
    body := by decide
    startText := by decide +kernel
    commitText := by decide +kernel }
  exact http_put_get docWire_lawful plainUrls_lawful origin_m hrun hputable rfl rfl

end Flour.DistKv
