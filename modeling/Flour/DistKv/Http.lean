/-
  File:      Flour/DistKv/Http.lean
  Subject:   The HTTP of the distributed cache: the routers and handlers of `src/distkv/http.rs`, the
             requests and calls of `src/distkv/client.rs`, and the single calls of
             `src/distkv/registration.rs`.

  * `masterRouter`, `workerRouter` -- what a server makes of a request: the route, its extractors, the
    lock, the call, the status;
  * `Message`, `Message.outgoing` -- what a client means, and the request that it sends for it;
  * `DistKvClient.putObject`, `getObject` -- the two calls, as talks;
  * **`split_outgoing`** -- every request arrives at its server, with its path and its query;
  * `effect_*` -- there it has the effect of one call, or is refused; `*_served` -- when it is not.

  The serializer and the reader of URLs are parameters.
-/
import Flour.DistKv.Client
import Flour.Lib.Form
import Flour.Lib.Talk
import Flour.Lib.Url

namespace Flour.DistKv

open Flour.Lib Flour.Lib.Percent Flour.Lib.Form Flour.Lib.Url

/-! ## 1. Requests and responses -/

structure RegisterRequest where
  workerId : WorkerId
  addr : String
  capacityBytes : ℕ
  deriving DecidableEq

structure RegisterResponse where
  epoch : ℕ
  deriving DecidableEq

structure HeartbeatRequest where
  workerId : WorkerId
  epoch : ℕ
  deriving DecidableEq

inductive Method where
  | get
  | post
  | put
  | delete
  deriving DecidableEq

/-- A body: bytes, or a JSON text that says so in its content type. -/
inductive Body (J : Type) where
  | bytes (b : List UInt8)
  | json (j : J)
  deriving DecidableEq

/-- A request as a server reads it: the segments of its path, and what follows the question mark. -/
structure HttpRequest (J : Type) where
  method : Method
  path : List String
  query : String
  body : Body J

structure HttpResponse (J : Type) where
  status : ℕ
  body : Body J

def HttpResponse.isSuccess {J : Type} (r : HttpResponse J) : Bool :=
  decide (200 ≤ r.status) && decide (r.status < 300)

/-- A status as it is displayed. -/
def statusText : ℕ → String
  | 200 => "200 OK"
  | 204 => "204 No Content"
  | 400 => "400 Bad Request"
  | 404 => "404 Not Found"
  | 405 => "405 Method Not Allowed"
  | 413 => "413 Payload Too Large"
  | 415 => "415 Unsupported Media Type"
  | 422 => "422 Unprocessable Entity"
  | 500 => "500 Internal Server Error"
  | n => s!"{n} <unknown status code>"

/-- The JSON of a type. What is read may be no JSON, or JSON of something else: then a server answers
    with a status and a text. -/
structure Codec (J α : Type) where
  ser : α → J
  de : J → Except (ℕ × String) α

/-- What is read was written. -/
def Codec.Lawful {J α : Type} (c : Codec J α) : Prop := ∀ a, c.de (c.ser a) = .ok a

/-- The serializer, and the longest body that an extractor takes. -/
structure Wire (J : Type) where
  /-- The bytes of a JSON text. -/
  text : J → List UInt8
  bodyLimit : ℕ
  registerRequest : Codec J RegisterRequest
  registerResponse : Codec J RegisterResponse
  heartbeatRequest : Codec J HeartbeatRequest
  putStartRequest : Codec J PutStartRequest
  putStartResponse : Codec J PutStartResponse
  putCommitRequest : Codec J PutCommitRequest
  getRouteResponse : Codec J GetRouteResponse

structure Wire.Lawful {J : Type} (w : Wire J) : Prop where
  registerRequest : w.registerRequest.Lawful
  registerResponse : w.registerResponse.Lawful
  heartbeatRequest : w.heartbeatRequest.Lawful
  putStartRequest : w.putStartRequest.Lawful
  putStartResponse : w.putStartResponse.Lawful
  putCommitRequest : w.putCommitRequest.Lawful
  getRouteResponse : w.getRouteResponse.Lawful

section Server

variable {J σ α : Type}

def plain (status : ℕ) (text : String) : HttpResponse J := ⟨status, .bytes (utf8Bytes text)⟩

def okJson (j : J) : HttpResponse J := ⟨200, .json j⟩
def noContent : HttpResponse J := ⟨204, .bytes []⟩
def notFound : HttpResponse J := ⟨404, .bytes []⟩

/-! ## 2. Extractors -/

/-- `Json<T>`. -/
def HttpRequest.json (w : Wire J) (c : Codec J α) (req : HttpRequest J) :
    Except (HttpResponse J) α :=
  match req.body with
  | .bytes _ => .error (plain 415 "Expected request with `Content-Type: application/json`")
  | .json j =>
    if w.bodyLimit < (w.text j).length then
      .error (plain 413 "Failed to buffer the request body: length limit exceeded")
    else (c.de j).mapError fun e => plain e.1 e.2

/-- `Bytes`. -/
def HttpRequest.bytes (w : Wire J) (req : HttpRequest J) : Except (HttpResponse J) (List UInt8) :=
  let b := match req.body with
    | .bytes b => b
    | .json j => w.text j
  if w.bodyLimit < b.length then
    .error (plain 413 "Failed to buffer the request body: length limit exceeded")
  else .ok b

/-- `Path<String>`, of a segment. -/
def pathParam (segment : String) : Except (HttpResponse J) String :=
  match textOf (decode (utf8Bytes segment)) with
  | some s => .ok s
  | none => .error (plain 400 "Invalid URL: Invalid UTF-8 in `key`")

/-- Digits read after those that gave `n`. -/
def parseDigits (n : ℕ) : List Char → Except String ℕ
  | [] => .ok n
  | c :: rest =>
    if c.isDigit then
      let n := 10 * n + (c.toNat - '0'.toNat)
      if n ≤ u64Max then parseDigits n rest else .error "number too large to fit in target type"
    else .error "invalid digit found in string"

/-- `str::parse::<u64>`. -/
def parseU64 (s : String) : Except String ℕ :=
  match s.toList with
  | [] => .error "cannot parse integer from empty string"
  | ['+'] => .error "invalid digit found in string"
  | '+' :: rest => parseDigits 0 rest
  | digits => parseDigits 0 digits

/-- `Query<T>`, of a struct with one field. -/
def HttpRequest.queryParam (name : String) (parse : String → Except String α)
    (req : HttpRequest J) : Except (HttpResponse J) α :=
  (field name parse req.query).mapError fun e =>
    plain 400 s!"Failed to deserialize query string: {e}"

/-! ## 3. The lock -/

/-- A state behind a mutex. -/
structure Shared (σ : Type) where
  state : σ
  poisoned : Bool

structure AppError where
  status : ℕ
  message : String

def AppError.internal (message : String) : AppError := ⟨500, message⟩

/-- `From<E>`: what a call reports is the caller's fault. -/
def AppError.ofError (message : String) : AppError := ⟨400, message⟩

def AppError.intoResponse (e : AppError) : HttpResponse J := plain e.status e.message

def lock (m : Shared σ) : Except AppError σ :=
  if m.poisoned then .error (.internal "distkv state lock poisoned") else .ok m.state

/-- The answer of a handler: none if it panicked. -/
abbrev Answer (J : Type) := Option (HttpResponse J)

/-- A handler behind its extractors. -/
def extracted (x : Except (HttpResponse J) α) (m : Shared σ) (handler : α → Answer J × Shared σ) :
    Answer J × Shared σ :=
  match x with
  | .error rejection => (some rejection, m)
  | .ok a => handler a

/-- What a call reports, as a response. -/
def respond : Except String (HttpResponse J) → HttpResponse J
  | .ok resp => resp
  | .error e => (AppError.ofError e).intoResponse

/-- A call under the lock. -/
def locked (m : Shared σ) (call : σ → Except String (HttpResponse J) × σ) : Answer J × Shared σ :=
  match lock m with
  | .error e => (some e.intoResponse, m)
  | .ok s =>
    let (reply, s') := call s
    (some (respond reply), { m with state := s' })

/-! ## 4. Handlers -/

/-- What the Master draws while it handles a request. -/
structure Draws where
  now : ℕ
  order : List WorkerId
  putId : PutId
  leaseId : LeaseId

namespace Handlers

variable (w : Wire J)

/-- What `register` does under the lock; so for the others. -/
def registering (d : Draws) (r : RegisterRequest) (s : MasterState) :
    Except String (HttpResponse J) × MasterState :=
  let (epoch, s') := s.registerWorker d.now r.workerId r.addr r.capacityBytes
  (.ok (okJson (w.registerResponse.ser ⟨epoch⟩)), s')

def register (d : Draws) (m : Shared MasterState) (req : HttpRequest J) :
    Answer J × Shared MasterState :=
  extracted (req.json w w.registerRequest) m fun r => locked m (registering w d r)

def beating (d : Draws) (r : HeartbeatRequest) (s : MasterState) :
    Except String (HttpResponse J) × MasterState :=
  let (reply, s') := s.heartbeat d.now r.workerId r.epoch
  (reply.map fun _ => noContent, s')

def heartbeat (d : Draws) (m : Shared MasterState) (req : HttpRequest J) :
    Answer J × Shared MasterState :=
  extracted (req.json w w.heartbeatRequest) m fun r => locked m (beating d r)

def starting (d : Draws) (r : PutStartRequest) (s : MasterState) :
    Except String (HttpResponse J) × MasterState :=
  let (reply, s') := s.putStart d.now d.order d.putId r
  (reply.map fun start => okJson (w.putStartResponse.ser start), s')

def putStart (d : Draws) (m : Shared MasterState) (req : HttpRequest J) :
    Answer J × Shared MasterState :=
  extracted (req.json w w.putStartRequest) m fun r => locked m (starting w d r)

def committing (r : PutCommitRequest) (s : MasterState) :
    Except String (HttpResponse J) × MasterState :=
  let (reply, s') := s.putCommit r
  (reply.map fun _ => noContent, s')

def putCommit (m : Shared MasterState) (req : HttpRequest J) : Answer J × Shared MasterState :=
  extracted (req.json w w.putCommitRequest) m fun r => locked m (committing r)

/-- A route, or that there is none. -/
def routed : Option GetRouteResponse → HttpResponse J
  | some route => okJson (w.getRouteResponse.ser route)
  | none => notFound

/-- The only error of `get_route` is that the end of the lease overflows: a panic under the lock. -/
def getRoute (d : Draws) (m : Shared MasterState) (req : HttpRequest J) :
    Answer J × Shared MasterState :=
  extracted (req.queryParam "key" .ok) m fun key =>
    match lock m with
    | .error e => (some e.intoResponse, m)
    | .ok s =>
      match s.getRoute d.now d.leaseId key with
      | .ok route => (some (routed w route), m)
      | .error _ => (none, { m with poisoned := true })

/-- The subtraction of `put_bytes` does not underflow (`Counted`), so what it reports is no panic. -/
def putting (key : ObjectKey) (generation : ℕ) (body : List UInt8) (s : WorkerStore) :
    Except String (HttpResponse J) × WorkerStore :=
  let (reply, s') := s.putBytes key generation body
  (reply.map fun _ => noContent, s')

def putObject (m : Shared WorkerStore) (segment : String) (req : HttpRequest J) :
    Answer J × Shared WorkerStore :=
  extracted (pathParam segment) m fun key =>
    extracted (req.queryParam "generation" parseU64) m fun generation =>
      extracted (req.bytes w) m fun body => locked m (putting key generation body)

/-- The bytes, or that there are none. -/
def found : Option (List UInt8) → HttpResponse J
  | some bytes => ⟨200, .bytes bytes⟩
  | none => notFound

def getting (key : ObjectKey) (generation : ℕ) (s : WorkerStore) :
    Except String (HttpResponse J) × WorkerStore :=
  ((s.getBytes key generation).map found, s)

def getObject (m : Shared WorkerStore) (segment : String) (req : HttpRequest J) :
    Answer J × Shared WorkerStore :=
  extracted (pathParam segment) m fun key =>
    extracted (req.queryParam "generation" parseU64) m fun generation =>
      locked m (getting key generation)

def deleting (key : ObjectKey) (generation : ℕ) (s : WorkerStore) :
    Except String (HttpResponse J) × WorkerStore :=
  (.ok noContent, s.deleteGeneration key generation)

def deleteObject (m : Shared WorkerStore) (segment : String) (req : HttpRequest J) :
    Answer J × Shared WorkerStore :=
  extracted (pathParam segment) m fun key =>
    extracted (req.queryParam "generation" parseU64) m fun generation =>
      locked m (deleting key generation)

end Handlers

/-! ## 5. Routers -/

/-- A route that has another method. -/
def methodNotAllowed (m : Shared σ) : Answer J × Shared σ := (some ⟨405, .bytes []⟩, m)

def masterRouter (w : Wire J) (d : Draws) (m : Shared MasterState) (req : HttpRequest J) :
    Option (Answer J × Shared MasterState) :=
  if req.path = ["v1", "distkv", "workers", "register"] then
    some (if req.method = .post then Handlers.register w d m req else methodNotAllowed m)
  else if req.path = ["v1", "distkv", "workers", "heartbeat"] then
    some (if req.method = .post then Handlers.heartbeat w d m req else methodNotAllowed m)
  else if req.path = ["v1", "distkv", "put_start"] then
    some (if req.method = .post then Handlers.putStart w d m req else methodNotAllowed m)
  else if req.path = ["v1", "distkv", "put_commit"] then
    some (if req.method = .post then Handlers.putCommit w m req else methodNotAllowed m)
  else if req.path = ["v1", "distkv", "get_route"] then
    some (if req.method = .get then Handlers.getRoute w d m req else methodNotAllowed m)
  else none

/-- A parameter of a path is one segment that is not empty. -/
def workerRouter (w : Wire J) (m : Shared WorkerStore) (req : HttpRequest J) :
    Option (Answer J × Shared WorkerStore) :=
  if req.path.dropLast = ["v1", "distkv", "worker", "objects"] then
    let segment := req.path.getLastD ""
    if segment = "" then none
    else some (match req.method with
      | .put => Handlers.putObject w m segment req
      | .get => Handlers.getObject m segment req
      | .delete => Handlers.deleteObject m segment req
      | .post => methodNotAllowed m)
  else none

end Server

/-! ## 6. The client -/

/-- What a client means by a request. -/
inductive Message where
  | register (req : RegisterRequest)
  | heartbeat (req : HeartbeatRequest)
  | putStart (key : ObjectKey) (bytes : List UInt8) (preferred : Option WorkerId)
  | write (p : Put)
  | commit (p : Put)
  | route (key : ObjectKey)
  | fetch (workerAddr : String) (key : ObjectKey) (generation : ℕ)

/-- A request as a client sends it. -/
structure Outgoing (J : Type) where
  method : Method
  url : String
  body : Body J

/-- The bytes that a form leaves as they are. -/
def formUnreserved (b : UInt8) : Bool :=
  Utf8.between 'A'.toUInt8 'Z'.toUInt8 b || Utf8.between 'a'.toUInt8 'z'.toUInt8 b ||
    Utf8.between '0'.toUInt8 '9'.toUInt8 b || b = '*'.toUInt8 || b = '-'.toUInt8 ||
    b = '.'.toUInt8 || b = '_'.toUInt8

/-- `.query(&[("key", key)])`. -/
def keyQuery (key : ObjectKey) : String :=
  String.ofList ("key".toList ++ '=' :: encodeForm formUnreserved (utf8Bytes key))

/-- The request for a message, to a Master whose URL has no trailing slashes. -/
def Message.outgoing {J : Type} (w : Wire J) (masterUrl : String) : Message → Outgoing J
  | .register req =>
    ⟨.post, s!"{masterUrl}/v1/distkv/workers/register", .json (w.registerRequest.ser req)⟩
  | .heartbeat req =>
    ⟨.post, s!"{masterUrl}/v1/distkv/workers/heartbeat", .json (w.heartbeatRequest.ser req)⟩
  | .putStart key bytes preferred =>
    ⟨.post, s!"{masterUrl}/v1/distkv/put_start",
      .json (w.putStartRequest.ser ⟨key, bytes.length, preferred⟩)⟩
  | .write p => ⟨.put, p.url, .bytes p.bytes⟩
  | .commit p =>
    ⟨.post, s!"{masterUrl}/v1/distkv/put_commit",
      .json (w.putCommitRequest.ser ⟨p.key, p.start.putId⟩)⟩
  | .route key => ⟨.get, s!"{masterUrl}/v1/distkv/get_route?{keyQuery key}", .bytes []⟩
  | .fetch workerAddr key generation => ⟨.get, objectUrl workerAddr key generation, .bytes []⟩

abbrev ClientTalk (J α : Type) := Talk Message (HttpResponse J) α

namespace DistKvClient

variable {J α : Type} (w : Wire J)

/-- `resp.json()`. -/
def json (c : Codec J α) (resp : HttpResponse J) : ClientTalk J α :=
  match resp.body with
  | .json j => .ofExcept ((c.de j).mapError Prod.snd)
  | .bytes _ => .bail "error decoding response body"

theorem json_ser {c : Codec J α} (hc : c.Lawful) {resp : HttpResponse J} {a : α}
    (h : resp.body = .json (c.ser a)) : json c resp = pure a := by
  unfold json
  rw [h]
  dsimp only
  rw [hc a]
  rfl

/-- Phase 1 of a put. Of the bytes the Master learns the number. -/
def putStart (key : ObjectKey) (bytes : List UInt8) (preferred : Option WorkerId) :
    ClientTalk J PutStartResponse := do
  let resp ← Talk.ask (.putStart key bytes preferred)
  if !resp.isSuccess then
    Talk.bail s!"/v1/distkv/put_start failed with status {statusText resp.status}"
  else json w.putStartResponse resp

/-- The bytes of a put, straight to its worker. -/
def writeWorker (p : Put) : ClientTalk J Unit := do
  let put ← Talk.ask (.write p)
  if !put.isSuccess then
    Talk.bail s!"worker write failed with status {statusText put.status}"
  else pure ()

/-- Phase 2 of a put. -/
def putCommit (p : Put) : ClientTalk J Unit := do
  let commit ← Talk.ask (.commit p)
  if !commit.isSuccess then
    Talk.bail s!"put_commit failed with status {statusText commit.status}"
  else pure ()

def getRoute (key : ObjectKey) : ClientTalk J (Option GetRouteResponse) := do
  let resp ← Talk.ask (.route key)
  if resp.status = 404 then pure none
  else if !resp.isSuccess then
    Talk.bail s!"get_route failed with status {statusText resp.status}"
  else do
    let route ← json w.getRouteResponse resp
    pure (some route)

def fetchWorker (workerAddr : String) (key : ObjectKey) (generation : ℕ) :
    ClientTalk J (Option (List UInt8)) := do
  let fetched ← Talk.ask (.fetch workerAddr key generation)
  if fetched.status = 404 then pure none
  else if !fetched.isSuccess then
    Talk.bail s!"worker fetch failed with status {statusText fetched.status}"
  else pure (some (match fetched.body with
    | .bytes b => b
    | .json j => w.text j))

def putObject (key : ObjectKey) (bytes : List UInt8) : ClientTalk J Unit := do
  let start ← putStart w key bytes none
  writeWorker ⟨key, bytes, start⟩
  putCommit ⟨key, bytes, start⟩

def getObject (key : ObjectKey) : ClientTalk J (Option (List UInt8)) := do
  match ← getRoute w key with
  | some route => fetchWorker w route.workerAddr key route.objectGeneration
  | none => pure none

end DistKvClient

/-- One turn of the loop of `register`: the epoch, or nothing if it has to try again. -/
def registerOnce {J : Type} (w : Wire J) (req : RegisterRequest) : ClientTalk J (Option ℕ) :=
  .send (.register req) fun
    | .ok resp =>
      if resp.isSuccess then do
        let reg ← DistKvClient.json w.registerResponse resp
        pure (some reg.epoch)
      else pure none
    | .error _ => pure none

/-- Whether the Master accepted a heartbeat. -/
def heartbeatOnce {J : Type} (workerId : WorkerId) (epoch : ℕ) : ClientTalk J Bool :=
  .send (.heartbeat ⟨workerId, epoch⟩) fun r => pure (match r with
    | .ok resp => resp.isSuccess
    | .error _ => false)

/-! ## 7. What arrives -/

section Arrives

variable {J σ α : Type} {w : Wire J} {urls : Urls} {origin : String} {key : ObjectKey} {g : ℕ}

/-- The URL of a route of the Master. -/
theorem split_route (hu : urls.Lawful) (ho : urls.Origin origin) {path : List String} {text : String}
    (hne : path ≠ []) (hpath : ∀ s ∈ path, s.toList.all pathChar = true ∧ s ≠ "." ∧ s ≠ "..")
    (htext : String.join (path.map ("/" ++ ·)) = text) {query : String} (hq : QueryText query) :
    urls.split (origin ++ text ++ if query = "" then "" else "?" ++ query) =
      some ⟨origin, path, query⟩ := by
  have h := hu.split ho hne (fun s hs => segmentText_plain (hpath s hs).1) hq
  rwa [urlText, htext, removeDots_eq (fun s hs => (hpath s hs).2), List.nil_append] at h

theorem queryText_nil : QueryText "" := .nil

/-- The path of an object: that of its key, unless a URL reader takes the key for dots. -/
def objectPath (key : ObjectKey) : List String :=
  removeDots [] ["v1", "distkv", "worker", "objects", encodeSegment key]

theorem segmentText_encodeSegment (key : ObjectKey) : SegmentText (encodeSegment key) := by
  refine ⟨escaped_encodeSegment key, fun hmem => ?_⟩
  -- each of these texts is read as dots, and dots are not written so
  have hdots : ∀ t ∈ escapedDots, (textOf (decode (utf8Bytes t)) = some "." ∨
      textOf (decode (utf8Bytes t)) = some "..") ∧ t ≠ encodeSegment "." ∧ t ≠ encodeSegment ".." := by
    decide +kernel
  obtain ⟨hread, hone, htwo⟩ := hdots _ hmem
  rw [decode_encodeSegment, textOf_utf8Bytes] at hread
  rcases hread with hread | hread
  · cases hread
    exact hone rfl
  · cases hread
    exact htwo rfl

/-- The query of an object. -/
def generationQuery (g : ℕ) : String := s!"generation={g}"

theorem toList_generationQuery (g : ℕ) :
    (generationQuery g).toList = "generation".toList ++ '=' :: Nat.toDigits 10 g := by
  simp [generationQuery, toString]

theorem formChar_of_mem_toDigits {g : ℕ} {c : Char} (hc : c ∈ Nat.toDigits 10 g) :
    formChar c = true := by
  have hdigit := Nat.isDigit_of_mem_toDigits (by decide) (by decide) hc
  simp only [Char.isDigit, Bool.and_eq_true, decide_eq_true_eq] at hdigit
  have hrange : '0' ≤ c ∧ c ≤ '9' := hdigit
  simp [formChar, pathChar, hrange]

theorem queryChar_of_formChar {c : Char} (h : formChar c = true) : queryChar c = true := by
  rw [queryChar, h, Bool.true_or]

theorem queryText_generation (g : ℕ) : QueryText (generationQuery g) := by
  unfold QueryText
  rw [toList_generationQuery]
  refine escaped_of_all fun c hc => ?_
  rcases List.mem_append.mp hc with hc | hc
  · have hname : "generation".toList.all queryChar = true := by decide
    exact List.all_eq_true.mp hname c hc
  · rcases List.mem_cons.mp hc with rfl | hc
    · rfl
    · exact queryChar_of_formChar (formChar_of_mem_toDigits hc)

theorem formChar_formUnreserved (b : UInt8) (h : formUnreserved b = true) :
    formChar (Char.ofUInt8 b) = true := by
  have hall : ∀ n < 256, formUnreserved (UInt8.ofNat n) = true →
      formChar (Char.ofUInt8 (UInt8.ofNat n)) = true := by decide +kernel
  simpa [h] using hall b.toNat b.toNat_lt

theorem escaped_formValue (key : ObjectKey) :
    Escaped formChar (encodeForm formUnreserved (utf8Bytes key)) :=
  escaped_encodeForm rfl formChar_formUnreserved _

theorem queryText_key (key : ObjectKey) : QueryText (keyQuery key) := by
  unfold QueryText keyQuery
  rw [String.toList_ofList]
  exact .keep rfl (.keep rfl (.keep rfl (.keep rfl
    (escaped_imp (fun _ => queryChar_of_formChar) (escaped_formValue key)))))

/-- Where a message arrives. -/
def Message.target (masterUrl : String) : Message → Target
  | .register _ => ⟨masterUrl, ["v1", "distkv", "workers", "register"], ""⟩
  | .heartbeat _ => ⟨masterUrl, ["v1", "distkv", "workers", "heartbeat"], ""⟩
  | .putStart .. => ⟨masterUrl, ["v1", "distkv", "put_start"], ""⟩
  | .write p => ⟨p.server, objectPath p.key, generationQuery p.start.objectGeneration⟩
  | .commit _ => ⟨masterUrl, ["v1", "distkv", "put_commit"], ""⟩
  | .route key => ⟨masterUrl, ["v1", "distkv", "get_route"], keyQuery key⟩
  | .fetch workerAddr key g => ⟨baseUrl workerAddr, objectPath key, generationQuery g⟩

theorem split_object (hu : urls.Lawful) {workerAddr : String} (ho : urls.Origin (baseUrl workerAddr))
    (key : ObjectKey) (g : ℕ) : urls.split (objectUrl workerAddr key g) =
      some ⟨baseUrl workerAddr, objectPath key, generationQuery g⟩ := by
  have hpath : ∀ s ∈ ["v1", "distkv", "worker", "objects", encodeSegment key], SegmentText s := by
    have hfixed : ∀ s ∈ ["v1", "distkv", "worker", "objects"], s.toList.all pathChar = true := by
      decide
    intro s hs
    rcases List.mem_append.mp
        (show s ∈ ["v1", "distkv", "worker", "objects"] ++ [encodeSegment key] from hs) with hs | hs
    · exact segmentText_plain (hfixed s hs)
    · exact List.mem_singleton.mp hs ▸ segmentText_encodeSegment key
  have h := hu.split ho (by simp) hpath (queryText_generation g)
  have hne : generationQuery g ≠ "" := fun heq => by
    have hlist := congrArg String.toList heq
    rw [toList_generationQuery] at hlist
    cases hlist
  rw [urlText, if_neg hne] at h
  rw [show objectUrl workerAddr key g = baseUrl workerAddr ++ String.join
    (["v1", "distkv", "worker", "objects", encodeSegment key].map ("/" ++ ·)) ++
      ("?" ++ generationQuery g) from ?_]
  · exact h
  · refine String.toList_inj.mp ?_
    simp [objectUrl, generationQuery, String.join_cons, toString]

/-- **Every request arrives** at its server, with its path and its query. -/
theorem split_outgoing (hu : urls.Lawful) {masterUrl : String} (q : Message)
    (ho : urls.Origin (q.target masterUrl).origin) :
    urls.split (q.outgoing w masterUrl).url = some (q.target masterUrl) := by
  have hroute : ∀ {path : List String} {text : String}, path ≠ [] →
      (∀ s ∈ path, s.toList.all pathChar = true ∧ s ≠ "." ∧ s ≠ "..") →
      String.join (path.map ("/" ++ ·)) = text → urls.Origin masterUrl →
      urls.split (masterUrl ++ text) = some ⟨masterUrl, path, ""⟩ := fun hne hpath htext ho => by
    simpa using split_route hu ho hne hpath htext queryText_nil
  cases q with
  | register => exact hroute (by simp) (by decide) (by decide) ho
  | heartbeat => exact hroute (by simp) (by decide) (by decide) ho
  | putStart => exact hroute (by simp) (by decide) (by decide) ho
  | commit => exact hroute (by simp) (by decide) (by decide) ho
  | write p => exact split_object hu ho p.key _
  | fetch workerAddr key g => exact split_object hu ho key g
  | route key =>
    have hne : keyQuery key ≠ "" := fun heq => by
      have hlist := congrArg String.toList heq
      rw [keyQuery, String.toList_ofList] at hlist
      cases hlist
    have h : urls.split (masterUrl ++ "/v1/distkv/get_route" ++
        if keyQuery key = "" then "" else "?" ++ keyQuery key) =
        some ⟨masterUrl, ["v1", "distkv", "get_route"], keyQuery key⟩ :=
      split_route hu ho (by simp) (by decide) (by decide) (queryText_key key)
    rw [if_neg hne] at h
    rw [show (Message.outgoing w masterUrl (.route key)).url =
      masterUrl ++ "/v1/distkv/get_route" ++ ("?" ++ keyQuery key) from ?_]
    · exact h
    · refine String.toList_inj.mp ?_
      simp [Message.outgoing, toString]

end Arrives

/-! ## 8. What a request does -/

section Effects

variable {J σ α : Type} {w : Wire J}

/-- The request of a message, as it is read. -/
def Message.request (w : Wire J) (masterUrl : String) (q : Message) : HttpRequest J where
  method := (q.outgoing w masterUrl).method
  path := (q.target masterUrl).path
  query := (q.target masterUrl).query
  body := (q.outgoing w masterUrl).body

/-- No answer, or none that is a success. -/
def Refused (a : Answer J) : Prop := ∀ resp, a = some resp → resp.isSuccess = false

theorem refused_plain {status : ℕ} (h : 400 ≤ status) (text : String) :
    Refused (some (plain status text) : Answer J) := by
  rintro resp ⟨⟩
  have hlarge : ¬ status < 300 := by omega
  show (decide (200 ≤ status) && decide (status < 300)) = false
  rw [decide_eq_false hlarge, Bool.and_false]

theorem refused_none : Refused (none : Answer J) := fun _ h => by cases h

/-- An extractor that gives its value, or rejects the request. -/
def Extracts (x : Except (HttpResponse J) α) (a : α) : Prop :=
  x = .ok a ∨ ∃ status text, 400 ≤ status ∧ x = .error (plain status text)

/-- A request that was turned away, or had the effect of a call. -/
def Effect (m : Shared σ) (call : σ → Except String (HttpResponse J) × σ)
    (r : Answer J × Shared σ) : Prop :=
  (Refused r.1 ∧ r.2.state = m.state) ∨
    r = (some (respond (call m.state).1), { m with state := (call m.state).2 })

theorem effect_locked (m : Shared σ) (call : σ → Except String (HttpResponse J) × σ) :
    Effect m call (locked m call) := by
  obtain ⟨s, poisoned⟩ := m
  cases poisoned with
  | true => exact Or.inl ⟨refused_plain (by decide) _, rfl⟩
  | false => exact Or.inr rfl

theorem effect_extracted {m : Shared σ} {call : σ → Except String (HttpResponse J) × σ}
    {x : Except (HttpResponse J) α} {a : α} {handler : α → Answer J × Shared σ} (hx : Extracts x a)
    (h : Effect m call (handler a)) : Effect m call (extracted x m handler) := by
  rcases hx with rfl | ⟨status, text, hstatus, rfl⟩
  · exact h
  · exact Or.inl ⟨refused_plain hstatus text, rfl⟩

theorem extracts_json {c : Codec J α} (hc : c.Lawful) {req : HttpRequest J} {a : α}
    (hb : req.body = .json (c.ser a)) : Extracts (req.json w c) a := by
  unfold HttpRequest.json
  rw [hb]
  dsimp only
  split_ifs
  · exact Or.inr ⟨413, _, by decide, rfl⟩
  · rw [hc a]
    exact Or.inl rfl

theorem extracts_bytes {req : HttpRequest J} {b : List UInt8} (hb : req.body = .bytes b) :
    Extracts (req.bytes w) b := by
  unfold HttpRequest.bytes
  rw [hb]
  dsimp only
  split_ifs
  · exact Or.inr ⟨413, _, by decide, rfl⟩
  · exact Or.inl rfl

theorem pathParam_encodeSegment (key : ObjectKey) :
    (pathParam (encodeSegment key) : Except (HttpResponse J) String) = .ok key := by
  unfold pathParam
  rw [decode_encodeSegment, textOf_utf8Bytes]

theorem queryParam_key {req : HttpRequest J} {key : ObjectKey} (hq : req.query = keyQuery key) :
    req.queryParam "key" .ok = .ok key := by
  have hascii := (escaped_formValue key).ascii fun _ => formChar_ascii
  have hfield : field "key" .ok (keyQuery key) = .ok key :=
    field_single .ok (by decide) (by decide) (by decide +kernel)
      ((escaped_formValue key).notMem (by decide) (by decide) (by decide))
      (by rw [decodeForm_encoded (by decide) (by decide) hascii, textOf_utf8Bytes])
  unfold HttpRequest.queryParam
  rw [hq, hfield]
  rfl

/-- Digits that fit make their number. -/
theorem parseDigits_of_digits {l : List Char} (hl : l.all Char.isDigit = true) {n : ℕ}
    (hn : n ≤ u64Max) : parseDigits n l =
      if Nat.ofDigitChars 10 l n ≤ u64Max then .ok (Nat.ofDigitChars 10 l n)
      else .error "number too large to fit in target type" := by
  induction l generalizing n with
  | nil => rw [parseDigits, Nat.ofDigitChars_nil, if_pos hn]
  | cons c l ih =>
    obtain ⟨hc, hl⟩ := Bool.and_eq_true_iff.mp ((List.all_cons).symm.trans hl)
    rw [parseDigits, if_pos hc, Nat.ofDigitChars_cons]
    dsimp only
    by_cases hfit : 10 * n + (c.toNat - '0'.toNat) ≤ u64Max
    · rw [if_pos hfit, ih hl hfit]
    · -- further digits only make it larger
      have hgrows : 10 * n + (c.toNat - '0'.toNat) ≤
          Nat.ofDigitChars 10 l (10 * n + (c.toNat - '0'.toNat)) := by
        rw [Nat.ofDigitChars_eq_ofDigitChars_zero]
        exact le_trans (Nat.le_mul_of_pos_left _ (Nat.pow_pos (by decide))) (Nat.le_add_right _ _)
      rw [if_neg hfit, if_neg fun h => hfit (le_trans hgrows h)]

/-- A numeral of 64 bits is read back. -/
theorem parseU64_toDigits (g : ℕ) : parseU64 (String.ofList (Nat.toDigits 10 g)) =
    if g ≤ u64Max then .ok g else .error "number too large to fit in target type" := by
  have hdigit : (Nat.toDigits 10 g).all Char.isDigit = true := List.all_eq_true.mpr fun c hc =>
    Nat.isDigit_of_mem_toDigits (by decide) (by decide) hc
  have hplus : '+' ∉ Nat.toDigits 10 g := notMem_toDigits (by decide) g
  have hread := parseDigits_of_digits hdigit (Nat.zero_le u64Max)
  rw [Nat.ofDigitChars_ten_toDigits] at hread
  unfold parseU64
  rw [String.toList_ofList]
  split
  · rename_i hnil
    exact absurd hnil Nat.toDigits_ne_nil
  · rename_i hsign
    exact absurd (hsign ▸ List.mem_cons_self) hplus
  · rename_i hsign
    exact absurd (hsign ▸ List.mem_cons_self) hplus
  · exact hread

theorem queryParam_generation {req : HttpRequest J} {g : ℕ} (hq : req.query = generationQuery g) :
    req.queryParam "generation" parseU64 =
      if g ≤ u64Max then .ok g
      else .error (plain 400 ("Failed to deserialize query string: generation: " ++
        "number too large to fit in target type")) := by
  have hno : '&' ∉ Nat.toDigits 10 g := notMem_toDigits (by decide) g
  have hplain : ∀ c ∈ Nat.toDigits 10 g, c.toNat < 128 ∧ c ≠ '+' ∧ c ≠ '%' := fun c hc =>
    ⟨formChar_ascii (formChar_of_mem_toDigits hc),
      fun heq => notMem_toDigits (by decide) g (heq ▸ hc),
      fun heq => notMem_toDigits (by decide) g (heq ▸ hc)⟩
  have hfield : field "generation" parseU64
      (String.ofList ("generation".toList ++ '=' :: Nat.toDigits 10 g)) = _ :=
    field_single parseU64 (by decide) (by decide) (by decide +kernel) hno
      (by rw [decodeForm_plain hplain, textOf_utf8Bytes])
  unfold HttpRequest.queryParam
  rw [hq, ← String.ofList_toList (s := generationQuery g), toList_generationQuery, hfield,
    parseU64_toDigits]
  split_ifs <;> rfl

theorem extracts_generation {req : HttpRequest J} {g : ℕ} (hq : req.query = generationQuery g) :
    Extracts (req.queryParam "generation" parseU64) g := by
  rw [queryParam_generation hq]
  split_ifs
  · exact Or.inl rfl
  · exact Or.inr ⟨400, _, by decide, rfl⟩

section Routes

variable (hw : w.Lawful) (d : Draws) (masterUrl : String)
include hw

theorem effect_register (m : Shared MasterState) (r : RegisterRequest) :
    ∃ out, masterRouter w d m ((Message.register r).request w masterUrl) = some out ∧
      Effect m (Handlers.registering w d r) out :=
  ⟨_, rfl, effect_extracted (extracts_json hw.registerRequest rfl) (effect_locked _ _)⟩

theorem effect_heartbeat (m : Shared MasterState) (r : HeartbeatRequest) :
    ∃ out, masterRouter w d m ((Message.heartbeat r).request w masterUrl) = some out ∧
      Effect m (Handlers.beating d r) out :=
  ⟨_, rfl, effect_extracted (extracts_json hw.heartbeatRequest rfl) (effect_locked _ _)⟩

theorem effect_putStart (m : Shared MasterState) (key : ObjectKey) (bytes : List UInt8)
    (preferred : Option WorkerId) :
    ∃ out, masterRouter w d m ((Message.putStart key bytes preferred).request w masterUrl) =
      some out ∧ Effect m (Handlers.starting w d ⟨key, bytes.length, preferred⟩) out :=
  ⟨_, rfl, effect_extracted (extracts_json hw.putStartRequest rfl) (effect_locked _ _)⟩

theorem effect_putCommit (m : Shared MasterState) (p : Put) :
    ∃ out, masterRouter w d m ((Message.commit p).request w masterUrl) = some out ∧
      Effect m (Handlers.committing ⟨p.key, p.start.putId⟩) out :=
  ⟨_, rfl, effect_extracted (extracts_json hw.putCommitRequest rfl) (effect_locked _ _)⟩

end Routes

/-- A lookup changes nothing but the lock. -/
theorem effect_getRoute (d : Draws) (masterUrl : String) (m : Shared MasterState) (key : ObjectKey) :
    ∃ out, masterRouter w d m ((Message.route key).request w masterUrl) = some out ∧
      out.2.state = m.state ∧ (Refused out.1 ∨ ∃ route,
        m.state.getRoute d.now d.leaseId key = .ok route ∧
          out.1 = some (Handlers.routed w route)) := by
  refine ⟨Handlers.getRoute w d m ((Message.route key).request w masterUrl), rfl, ?_⟩
  have hkey : ((Message.route key).request w masterUrl).queryParam "key" .ok = .ok key :=
    queryParam_key rfl
  unfold Handlers.getRoute extracted lock
  rw [hkey]
  cases hp : m.poisoned with
  | true => exact ⟨rfl, Or.inl (refused_plain (by decide) _)⟩
  | false =>
    cases hr : m.state.getRoute d.now d.leaseId key with
    | error e => simp [hr, refused_none]
    | ok route => simp [hr]

/-- The path of an object, with what is left of it when its key is read as dots. -/
theorem objectPath_cases (key : ObjectKey) :
    objectPath key = ["v1", "distkv", "worker", "objects", encodeSegment key] ∨
      objectPath key = ["v1", "distkv", "worker", "objects", ""] ∨
      objectPath key = ["v1", "distkv", "worker", ""] := by
  simp only [objectPath, removeDots]
  by_cases htwo : encodeSegment key = ".."
  · exact Or.inr (Or.inr (by simp [htwo]))
  · by_cases hone : encodeSegment key = "."
    · exact Or.inr (Or.inl (by simp [hone]))
    · exact Or.inl (by simp [htwo, hone])

/-- The path of an object that a worker takes for one. -/
theorem objectPath_segment {key : ObjectKey}
    (h : (objectPath key).dropLast = ["v1", "distkv", "worker", "objects"])
    (hne : (objectPath key).getLastD "" ≠ "") :
    (objectPath key).getLastD "" = encodeSegment key := by
  rcases objectPath_cases key with hkey | hdot | hdots
  · rw [hkey]
    rfl
  · exact absurd (by rw [hdot]; rfl) hne
  · rw [hdots] at h
    cases h

/-- An object is no route of the Master, on a server that has both routers. -/
theorem masterRouter_object {d : Draws} {m : Shared MasterState} {req : HttpRequest J}
    {key : ObjectKey} (hp : req.path = objectPath key) : masterRouter w d m req = none := by
  have hthird : (objectPath key)[2]? = some "worker" := by
    rcases objectPath_cases key with h | h | h <;> rw [h] <;> rfl
  have hne : ∀ {path : List String}, path[2]? ≠ some "worker" → req.path ≠ path := by
    rintro path h rfl
    exact h (hp ▸ hthird)
  unfold masterRouter
  rw [if_neg (hne (by decide)), if_neg (hne (by decide)), if_neg (hne (by decide)),
    if_neg (hne (by decide)), if_neg (hne (by decide))]

/-- The keys that no path has as a segment: nothing, and what a URL reader takes for dots. -/
def Unroutable (key : ObjectKey) : Prop := key ∈ ["", ".", ".."]

instance (key : ObjectKey) : Decidable (Unroutable key) :=
  inferInstanceAs (Decidable (key ∈ ["", ".", ".."]))

theorem workerRouter_unroutable {m : Shared WorkerStore} {req : HttpRequest J} {key : ObjectKey}
    {out : Answer J × Shared WorkerStore} (hp : req.path = objectPath key)
    (h : workerRouter w m req = some out) : ¬ Unroutable key := by
  have hnone : objectPath "" = ["v1", "distkv", "worker", "objects", ""] := by decide +kernel
  have hone : objectPath "." = ["v1", "distkv", "worker", "objects", ""] := by decide +kernel
  have htwo : objectPath ".." = ["v1", "distkv", "worker", ""] := by decide +kernel
  intro hkey
  unfold workerRouter at h
  simp only [Unroutable, List.mem_cons, List.not_mem_nil, or_false] at hkey
  rcases hkey with rfl | rfl | rfl
  · simp [hp, hnone] at h
  · simp [hp, hone] at h
  · simp [hp, htwo] at h

/-- Every other key has a path of its own. -/
theorem objectPath_routable {key : ObjectKey} (h : ¬ Unroutable key) :
    objectPath key = ["v1", "distkv", "worker", "objects", encodeSegment key] ∧
      encodeSegment key ≠ "" := by
  have hfixed : ∀ s ∈ ["", ".", ".."], encodeSegment s = s := by decide +kernel
  have hne : ∀ s ∈ ["", ".", ".."], encodeSegment key ≠ s := fun s hs heq =>
    h (encodeSegment_inj (heq.trans (hfixed s hs).symm) ▸ hs)
  refine ⟨removeDots_eq (fun s hs => ?_) [], hne "" (by simp)⟩
  have hroute : ∀ s ∈ ["v1", "distkv", "worker", "objects"], s ≠ "." ∧ s ≠ ".." := by decide
  rcases List.mem_append.mp
      (show s ∈ ["v1", "distkv", "worker", "objects"] ++ [encodeSegment key] from hs) with hs | hs
  · exact hroute s hs
  · rw [List.mem_singleton.mp hs]
    exact ⟨hne "." (by simp), hne ".." (by simp)⟩

/-- An object of a worker, if there is a route. -/
theorem workerRouter_cases {m : Shared WorkerStore} {req : HttpRequest J} {key : ObjectKey}
    {out : Answer J × Shared WorkerStore} (hp : req.path = objectPath key)
    (h : workerRouter w m req = some out) :
    out = match req.method with
      | .put => Handlers.putObject w m (encodeSegment key) req
      | .get => Handlers.getObject m (encodeSegment key) req
      | .delete => Handlers.deleteObject m (encodeSegment key) req
      | .post => methodNotAllowed m := by
  unfold workerRouter at h
  rw [hp] at h
  by_cases hpath : (objectPath key).dropLast = ["v1", "distkv", "worker", "objects"]
  · rw [if_pos hpath] at h
    by_cases hne : (objectPath key).getLastD "" = ""
    · rw [if_pos hne] at h
      cases h
    · rw [if_neg hne, objectPath_segment hpath hne] at h
      exact (Option.some.inj h).symm
  · rw [if_neg hpath] at h
    cases h

/-- A write puts the bytes of its put, unless they are too many. -/
theorem effect_write (masterUrl : String) (m : Shared WorkerStore) (p : Put)
    {out : Answer J × Shared WorkerStore}
    (h : workerRouter w m ((Message.write p).request w masterUrl) = some out) :
    Effect m (Handlers.putting p.key p.start.objectGeneration p.bytes) out ∧
      (w.bodyLimit < p.bytes.length → Refused out.1) := by
  obtain rfl : out = Handlers.putObject w m (encodeSegment p.key)
    ((Message.write p).request w masterUrl) := workerRouter_cases rfl h
  have hgeneration : Extracts (((Message.write p).request w masterUrl).queryParam "generation" parseU64)
    p.start.objectGeneration := extracts_generation rfl
  unfold Handlers.putObject
  rw [pathParam_encodeSegment]
  refine ⟨effect_extracted (Or.inl rfl) (effect_extracted hgeneration
    (effect_extracted (extracts_bytes rfl) (effect_locked _ _))), fun hlimit => ?_⟩
  have hbytes : ((Message.write p).request w masterUrl).bytes w =
      .error (plain 413 "Failed to buffer the request body: length limit exceeded") := if_pos hlimit
  rcases hgeneration with h | ⟨status, text, hstatus, h⟩
  · simp only [extracted, h, hbytes]
    exact refused_plain (by decide) _
  · simp only [extracted, h]
    exact refused_plain hstatus text

/-- A fetch changes nothing. -/
theorem effect_fetch (masterUrl : String) (m : Shared WorkerStore) (workerAddr : String)
    (key : ObjectKey) (g : ℕ) {out : Answer J × Shared WorkerStore}
    (h : workerRouter w m ((Message.fetch workerAddr key g).request w masterUrl) = some out) :
    Effect m (Handlers.getting key g) out := by
  obtain rfl : out = Handlers.getObject m (encodeSegment key)
    ((Message.fetch workerAddr key g).request w masterUrl) := workerRouter_cases rfl h
  unfold Handlers.getObject
  rw [pathParam_encodeSegment]
  exact effect_extracted (Or.inl rfl) (effect_extracted (extracts_generation rfl)
    (effect_locked _ _))

/-- A worker has a route for every other key. -/
theorem workerRouter_routable {m : Shared WorkerStore} {req : HttpRequest J} {key : ObjectKey}
    (hp : req.path = objectPath key) (hk : ¬ Unroutable key) :
    ∃ out, workerRouter w m req = some out := by
  obtain ⟨hpath, hne⟩ := objectPath_routable hk
  unfold workerRouter
  rw [hp, hpath]
  exact ⟨_, if_neg hne⟩

/-- **A write that nothing speaks against is a call of the worker.** -/
theorem write_served (masterUrl : String) (m : Shared WorkerStore) {p : Put}
    (hk : ¬ Unroutable p.key) (hg : p.start.objectGeneration ≤ u64Max)
    (hl : p.bytes.length ≤ w.bodyLimit) :
    workerRouter w m ((Message.write p).request w masterUrl) =
      some (locked m (Handlers.putting p.key p.start.objectGeneration p.bytes)) := by
  obtain ⟨out, hroute⟩ : ∃ out, workerRouter w m ((Message.write p).request w masterUrl) = some out :=
    workerRouter_routable rfl hk
  have hout : out = Handlers.putObject w m (encodeSegment p.key)
    ((Message.write p).request w masterUrl) := workerRouter_cases rfl hroute
  have hgeneration : ((Message.write p).request w masterUrl).queryParam "generation" parseU64 =
      .ok p.start.objectGeneration := by
    rw [queryParam_generation rfl, if_pos hg]
  have hbytes : ((Message.write p).request w masterUrl).bytes w = .ok p.bytes :=
    if_neg (Nat.not_lt.mpr hl)
  rw [hroute, hout, Handlers.putObject, pathParam_encodeSegment, hgeneration, hbytes]
  rfl

/-- A fetch that nothing speaks against is a call of the worker. -/
theorem fetch_served (masterUrl workerAddr : String) (m : Shared WorkerStore) {key : ObjectKey} {g : ℕ}
    (hk : ¬ Unroutable key) (hg : g ≤ u64Max) :
    workerRouter w m ((Message.fetch workerAddr key g).request w masterUrl) =
      some (locked m (Handlers.getting key g)) := by
  obtain ⟨out, hroute⟩ : ∃ out,
      workerRouter w m ((Message.fetch workerAddr key g).request w masterUrl) = some out :=
    workerRouter_routable rfl hk
  have hout : out = Handlers.getObject m (encodeSegment key)
    ((Message.fetch workerAddr key g).request w masterUrl) := workerRouter_cases rfl hroute
  have hgeneration : ((Message.fetch workerAddr key g).request w masterUrl).queryParam "generation"
      parseU64 = .ok g := by
    rw [queryParam_generation rfl, if_pos hg]
  rw [hroute, hout, Handlers.getObject, pathParam_encodeSegment, hgeneration]
  rfl

/-- A body that fits is read. -/
theorem json_served {c : Codec J α} (hc : c.Lawful) {req : HttpRequest J} {a : α}
    (hb : req.body = .json (c.ser a)) (hl : (w.text (c.ser a)).length ≤ w.bodyLimit) :
    req.json w c = .ok a := by
  unfold HttpRequest.json
  rw [hb]
  dsimp only
  rw [if_neg (Nat.not_lt.mpr hl), hc a]
  rfl

/-- A call under a lock that is not poisoned. -/
theorem locked_eq {s s' : σ} {call : σ → Except String (HttpResponse J) × σ} {resp : HttpResponse J}
    (h : call s = (.ok resp, s')) : locked ⟨s, false⟩ call = (some resp, ⟨s', false⟩) := by
  unfold locked lock
  simp only [Bool.false_eq_true, if_false, h]
  rfl

section Granted

variable (hw : w.Lawful) (d : Draws) (masterUrl : String) {m m' : MasterState} {key : ObjectKey}

include hw in
theorem register_served {r : RegisterRequest} {epoch : ℕ}
    (hl : (w.text (w.registerRequest.ser r)).length ≤ w.bodyLimit)
    (h : m.registerWorker d.now r.workerId r.addr r.capacityBytes = (epoch, m')) :
    masterRouter w d ⟨m, false⟩ ((Message.register r).request w masterUrl) =
      some (some (okJson (w.registerResponse.ser ⟨epoch⟩)), ⟨m', false⟩) := by
  have hjson : ((Message.register r).request w masterUrl).json w w.registerRequest = .ok r :=
    json_served hw.registerRequest rfl hl
  have hcall : Handlers.registering w d r m =
      (.ok (okJson (w.registerResponse.ser ⟨epoch⟩)), m') := by
    simp only [Handlers.registering, h]
  rw [show masterRouter w d ⟨m, false⟩ ((Message.register r).request w masterUrl) =
    some (Handlers.register w d ⟨m, false⟩ ((Message.register r).request w masterUrl)) from rfl,
    Handlers.register, hjson]
  exact congrArg some (locked_eq hcall)

include hw in
theorem putStart_served {bytes : List UInt8} {preferred : Option WorkerId} {start : PutStartResponse}
    (hl : (w.text (w.putStartRequest.ser ⟨key, bytes.length, preferred⟩)).length ≤ w.bodyLimit)
    (h : m.putStart d.now d.order d.putId ⟨key, bytes.length, preferred⟩ = (.ok start, m')) :
    masterRouter w d ⟨m, false⟩ ((Message.putStart key bytes preferred).request w masterUrl) =
      some (some (okJson (w.putStartResponse.ser start)), ⟨m', false⟩) := by
  have hjson : ((Message.putStart key bytes preferred).request w masterUrl).json w w.putStartRequest =
      .ok ⟨key, bytes.length, preferred⟩ := json_served hw.putStartRequest rfl hl
  have hcall : Handlers.starting w d ⟨key, bytes.length, preferred⟩ m =
      (.ok (okJson (w.putStartResponse.ser start)), m') := by
    simp only [Handlers.starting, h]
    rfl
  rw [show masterRouter w d ⟨m, false⟩ ((Message.putStart key bytes preferred).request w masterUrl) =
    some (Handlers.putStart w d ⟨m, false⟩ ((Message.putStart key bytes preferred).request w
      masterUrl)) from rfl, Handlers.putStart, hjson]
  exact congrArg some (locked_eq hcall)

include hw in
theorem putCommit_served {p : Put}
    (hl : (w.text (w.putCommitRequest.ser ⟨p.key, p.start.putId⟩)).length ≤ w.bodyLimit)
    (h : m.putCommit ⟨p.key, p.start.putId⟩ = (.ok (), m')) :
    masterRouter w d ⟨m, false⟩ ((Message.commit p).request w masterUrl) =
      some (some noContent, ⟨m', false⟩) := by
  have hjson : ((Message.commit p).request w masterUrl).json w w.putCommitRequest =
      .ok ⟨p.key, p.start.putId⟩ := json_served hw.putCommitRequest rfl hl
  have hcall : Handlers.committing ⟨p.key, p.start.putId⟩ m =
      (.ok (noContent : HttpResponse J), m') := by
    simp only [Handlers.committing, h]
    rfl
  rw [show masterRouter w d ⟨m, false⟩ ((Message.commit p).request w masterUrl) =
    some (Handlers.putCommit w ⟨m, false⟩ ((Message.commit p).request w masterUrl)) from rfl,
    Handlers.putCommit, hjson]
  exact congrArg some (locked_eq hcall)

theorem getRoute_served {route : GetRouteResponse}
    (h : m.getRoute d.now d.leaseId key = .ok (some route)) :
    masterRouter w d ⟨m, false⟩ ((Message.route key).request w masterUrl) =
      some (some (okJson (w.getRouteResponse.ser route)), ⟨m, false⟩) := by
  rw [show masterRouter w d ⟨m, false⟩ ((Message.route key).request w masterUrl) =
    some (Handlers.getRoute w d ⟨m, false⟩ ((Message.route key).request w masterUrl)) from rfl,
    Handlers.getRoute, queryParam_key rfl]
  simp only [extracted, lock, Bool.false_eq_true, if_false, h]
  rfl

end Granted

end Effects

end Flour.DistKv
