/-
  File:      Flour/Api/Chat.lean
  Subject:   The server of `src/api/chat.rs` and `src/api/models.rs`: any number of requests on one
             engine behind a mutex.

  * `accept`, `listModels` -- what a handler does at once; `chatLts` -- requests come in at any time,
    and the tasks that were accepted take the engine in any order. A task that panics leaves the mutex
    poisoned. What is sent on while a task runs is the stream of the pieces it is going to have sent.
  * `idealAnswer` -- the answer that generation without a cache gives; `ReadsAnswer` -- a client has
    read an answer to its end, as a stream or in one piece;
  * **`served_run`** -- every answer is that one, and what a client has read of a stream that is not at
    its end, or never gets there, is a first part of it;
  * **`reproducible_run`** -- requests for the same chat with the same seed get the same answer;
  * **`poisoned_run`** -- after a panic nothing is served, and before one nobody is turned away and
    every task has the engine.
-/
import Flour.Api.Openai
import Flour.Engine.Ideal

namespace Flour.Api

open Kv Candle Flour.Lib Flour.Lib.Prog

/-! ## 1. Handlers -/

section Handlers

variable {F D : Type} [OfScientific F] [OfNat D 1]

/-- `chat_completions`, up to `spawn_blocking`. -/
def accept (poisoned : Bool) (modelId : String) (seed : UInt64) (req : ChatCompletionRequest D) :
    Except ApiError (Task F D) :=
  if req.messages.isEmpty then .error (.badRequest "messages must not be empty")
  else if poisoned then .error (.internal "engine mutex poisoned")
  else .ok
    { messages := req.messages
      params := ofRequest seed req
      includeUsage := req.wantsUsage
      modelId
      stream := req.stream.getD false }

structure ModelObject where
  id : String
  object : String
  created : ℕ
  ownedBy : String

structure ModelsListResponse where
  object : String
  data : List ModelObject

def listModels (poisoned : Bool) (modelId : String) (startedAt : ℕ) :
    Except ApiError ModelsListResponse :=
  if poisoned then .error (.internal "engine mutex poisoned")
  else .ok ⟨"list", [⟨modelId, "model", startedAt, "flour"⟩]⟩

end Handlers

/-! ## 2. The server -/

/-- The engine behind its mutex, and the accepted tasks that have not run. -/
structure AppState (T F D : Type) where
  engine : EngineState T
  poisoned : Bool
  startedAt : ℕ
  pending : List (Task F D)

/-- What happens on a server. A task ran over a store, if any, that answered as it did. -/
inductive Event (F D : Type) where
  | received (req : ChatCompletionRequest D) (answer : Except ApiError (Task F D))
  | ran (task : Task F D) (remote : Option RemoteGet) (pieces : List String)
      (reply : Option (Except String GenerationStats))
  | listed (answer : Except ApiError ModelsListResponse)

section Server

variable {T H O F D R : Type} [Candle T] [HostCandle T] [BEq F] [OfNat F 1] [OfScientific F] [OfNat D 1]

/-- A request that came in. -/
def AppState.receive (s : AppState T F D) : Except ApiError (Task F D) → AppState T F D
  | .ok task => { s with pending := s.pending ++ [task] }
  | .error _ => s

/-- A task has the engine to itself. -/
def RunTask (fromSlice : List UInt8 → Except String KvBundleMeta)
    (toVec : KvBundleMeta → Except String (List UInt8)) (blockHash : BlockHash)
    (e : Engine T H O F D R) (dtype : DType) (s : AppState T F D) (task : Task F D)
    (remote : Option RemoteGet) (pieces : List String)
    (reply : Option (Except String GenerationStats)) (s' : AppState T F D) : Prop :=
  if s.poisoned then
    pieces = [] ∧ reply = some (.error "engine mutex poisoned") ∧ s'.engine = s.engine ∧
      s'.poisoned = true
  else
    (generateLts fromSlice toVec blockHash e dtype).step s.engine
      ⟨task.messages, task.params, remote, reply, pieces⟩ s'.engine ∧ s'.poisoned = reply.isNone

omit [OfScientific F] [OfNat D 1] in
theorem runTask_of_step {fromSlice : List UInt8 → Except String KvBundleMeta}
    {toVec : KvBundleMeta → Except String (List UInt8)} {blockHash : BlockHash}
    {e : Engine T H O F D R} {dtype : DType} {s s' : AppState T F D} {task : Task F D}
    {remote : Option RemoteGet} {pieces : List String} {reply : Option (Except String GenerationStats)}
    (h : s.poisoned = false)
    (hstep : (generateLts fromSlice toVec blockHash e dtype).step s.engine
      ⟨task.messages, task.params, remote, reply, pieces⟩ s'.engine)
    (hs' : s'.poisoned = reply.isNone) :
    RunTask fromSlice toVec blockHash e dtype s task remote pieces reply s' := by
  unfold RunTask
  rw [if_neg (Bool.eq_false_iff.mp h)]
  exact ⟨hstep, hs'⟩

/-- The server. -/
def chatLts (fromSlice : List UInt8 → Except String KvBundleMeta)
    (toVec : KvBundleMeta → Except String (List UInt8)) (blockHash : BlockHash)
    (e : Engine T H O F D R) (dtype : DType) : Lts (AppState T F D) (Event F D) where
  init s := e.Fresh dtype s.engine ∧ s.poisoned = false ∧ s.pending = []
  step s ev s' :=
    match ev with
    | .received req answer =>
      ∃ seed, answer = accept s.poisoned e.kvCache.modelId seed req ∧ s' = s.receive answer
    | .ran task remote pieces reply =>
      (∃ before after, s.pending = before ++ task :: after ∧ s'.pending = before ++ after) ∧
        s'.startedAt = s.startedAt ∧
        RunTask fromSlice toVec blockHash e dtype s task remote pieces reply s'
    | .listed answer => answer = listModels s.poisoned e.kvCache.modelId s.startedAt ∧ s' = s

end Server

/-! ## 3. Answers -/

section Answers

variable {T H O F D R J : Type} [BEq F] [OfNat F 1]

/-- What a client reads of generation without a cache, when it comes to its end. -/
def idealAnswer (e : Engine T H O F D R) (ref : List UInt32 → List F) (messages : List ChatMessage)
    (params : SamplingParams F D) (withUsage : Bool) : Option Reading :=
  match e.tokenizer.encode (e.chatTemplate.render messages) with
  | .error _ => none
  | .ok prompt =>
    let (pieces, outcome) := e.ideal ref params prompt
    outcome.map fun (finishReason, completed) =>
      { role := some "assistant"
        text := pieces.foldl (· ++ ·) ""
        finishReason := some finishReason.asStr
        usage := if withUsage then some ⟨prompt.length, completed, prompt.length + completed⟩ else none
        done := true }

/-- Its text, whether or not it comes to its end. -/
def idealText (e : Engine T H O F D R) (ref : List UInt32 → List F) (messages : List ChatMessage)
    (params : SamplingParams F D) : String :=
  match e.tokenizer.encode (e.chatTemplate.render messages) with
  | .error _ => ""
  | .ok prompt => (e.ideal ref params prompt).1.foldl (· ++ ·) ""

omit [BEq F] [OfNat F 1] in
/-- A client has read the answer of a task to its end. -/
inductive ReadsAnswer (json : Json J) (task : Task F D) (pieces : List String)
    (reply : Option (Except String GenerationStats)) : Reading → Prop where
  | streamed (id : String) (created : ℕ) (hs : task.stream = true)
      (h : (readEvents json (task.events json id created pieces reply)).done = true) :
      ReadsAnswer json task pieces reply (readEvents json (task.events json id created pieces reply))
  | whole (id : String) (created : ℕ) (joinError : String) (hs : task.stream = false)
      {resp : ChatCompletionResponse}
      (h : task.respond id created joinError pieces reply = .ok resp) :
      ReadsAnswer json task pieces reply resp.reading

variable {json : Json J} {task : Task F D} {pieces : List String}
  {reply : Option (Except String GenerationStats)} {r : Reading} {e : Engine T H O F D R}
  {ref : List UInt32 → List F}

omit [BEq F] [OfNat F 1] in
/-- **An answer** is that of a generation that returned. -/
theorem answers_iff (hj : json.Lawful) : ReadsAnswer json task pieces reply r ↔
    ∃ stats, reply = some (.ok stats) ∧
      r = readingOf pieces stats (task.includeUsage || !task.stream) := by
  constructor
  · rintro (⟨id, created, hs, h⟩ | ⟨id, created, joinError, hs, h⟩)
    · by_cases hok : ∃ stats, reply = some (.ok stats)
      · obtain ⟨stats, rfl⟩ := hok
        exact ⟨stats, rfl, by rw [readEvents_ok hj, hs, Bool.not_true, Bool.or_false]⟩
      · rw [readEvents_failed hj pieces fun stats hstats => hok ⟨stats, hstats⟩] at h
        cases h
    · rcases reply with _ | _ | stats
      · cases h
      · cases h
      · cases h
        exact ⟨stats, rfl, by rw [reading_new, hs, Bool.not_false, Bool.or_true]⟩
  · rintro ⟨stats, rfl, rfl⟩
    cases hs : task.stream with
    | true =>
      rw [Bool.not_true, Bool.or_false]
      have hread : readEvents json (task.events json "" 0 pieces (some (.ok stats))) = _ :=
        readEvents_ok hj pieces stats
      have h := @ReadsAnswer.streamed _ _ _ json task pieces (some (.ok stats)) "" 0 hs
        (by rw [hread]; rfl)
      rwa [hread] at h
    | false =>
      rw [Bool.not_false, Bool.or_true]
      have h := @ReadsAnswer.whole _ _ _ json task pieces (some (.ok stats)) "" 0 "" hs _ rfl
      rwa [reading_new] at h

omit [BEq F] [OfNat F 1] in
/-- What was read of a stream. -/
theorem text_seen (hj : json.Lawful) {id : String} {created : ℕ} {seen : List (Data J)}
    (h : seen <+: task.events json id created pieces reply) :
    ∃ rest, pieces.foldl (· ++ ·) "" = (readEvents json seen).text ++ rest := by
  obtain ⟨rest, hrest⟩ := @text_of_firstPart _ json _ _ h
  refine ⟨rest, hrest ▸ ?_⟩
  by_cases hok : ∃ stats, reply = some (.ok stats)
  · obtain ⟨stats, rfl⟩ := hok
    rw [readEvents_ok hj, readingOf]
  · rw [readEvents_failed hj pieces fun stats hstats => hok ⟨stats, hstats⟩]

theorem idealAnswer_of_ideal {messages : List ChatMessage} {params : SamplingParams F D}
    {remote : Option RemoteGet} {stats : GenerationStats} (withUsage : Bool)
    (h : Generation.Ideal e ref ⟨messages, params, remote, some (.ok stats), pieces⟩) :
    idealAnswer e ref messages params withUsage = some (readingOf pieces stats withUsage) := by
  obtain ⟨prompt, henc, hlen, hideal⟩ := h.returned rfl
  simp [idealAnswer, henc, hideal, readingOf, usageOf, hlen]

theorem idealText_of_ideal {messages : List ChatMessage} {params : SamplingParams F D}
    {remote : Option RemoteGet} (hreply : reply ≠ none)
    (h : Generation.Ideal e ref ⟨messages, params, remote, reply, pieces⟩) :
    ∃ rest, idealText e ref messages params = pieces.foldl (· ++ ·) "" ++ rest := by
  have hpieces : pieces = [] ∨ ∃ prompt,
      e.tokenizer.encode (e.chatTemplate.render messages) = .ok prompt ∧
        pieces <+: (e.ideal ref params prompt).1 := by
    rcases reply with _ | err | stats
    · exact absurd rfl hreply
    · exact h.failed rfl
    · obtain ⟨prompt, henc, -, hideal⟩ := h.returned rfl
      exact Or.inr ⟨prompt, henc, by rw [hideal]⟩
  rcases hpieces with rfl | ⟨prompt, henc, more, hmore⟩
  · exact ⟨_, String.empty_append.symm⟩
  · refine ⟨more.foldl (· ++ ·) "", ?_⟩
    simp only [idealText, henc, ← hmore]
    rw [List.foldl_append, foldl_append]

end Answers

/-! ## 4. Runs of the server -/

section Runs

variable {T H O F D R J : Type} [Candle T] [LawfulCandle T] [HostCandle T] [BEq F] [OfNat F 1]
  [OfScientific F] [OfNat D 1] {e : Engine T H O F D R} {dtype : DType} {rowOf : RowOf}
  {hidden : ℕ → List UInt32 → List UInt32 → H → Prop}
  {logits : List UInt32 → List UInt32 → O → Prop} {ref : List UInt32 → List F}
  {blockHash : BlockHash} {prompts : List UInt32 → Prop}
  {fromSlice : List UInt8 → Except String KvBundleMeta}
  {toVec : KvBundleMeta → Except String (List UInt8)}
  {history : List (Event F D)} {s : AppState T F D}

/-- The generations that take place are sound. -/
def SoundTask (fromSlice : List UInt8 → Except String KvBundleMeta) (blockHash : BlockHash)
    (prompts : List UInt32 → Prop) (rowOf : RowOf) (e : Engine T H O F D R) (s : AppState T F D) :
    Event F D → Prop
  | .ran task remote _ _ => s.poisoned = false →
    Sound (e.over remote) blockHash prompts rowOf fromSlice task.messages s.engine
  | _ => True

/-- **Every task** of a server runs ideally, in whatever order. -/
theorem ran_ideal (hm : Evaluates e.model dtype rowOf hidden logits) (hp : Predicts e.sampling logits ref)
    (hc : NoCollision blockHash blockSize prompts) (hns : NoSeed blockHash blockSize prompts)
    (hlayers : e.model.cfg.numHiddenLayers ≠ 0)
    (hr : ((chatLts fromSlice toVec blockHash e dtype).restrict
      (SoundTask fromSlice blockHash prompts rowOf e)).Run history s) :
    ∀ task remote pieces reply, .ran task remote pieces reply ∈ history →
      Generation.Ideal e ref ⟨task.messages, task.params, remote, reply, pieces⟩ := by
  suffices hinv : (∀ task remote pieces reply, .ran task remote pieces reply ∈ history →
      Generation.Ideal e ref ⟨task.messages, task.params, remote, reply, pieces⟩) ∧
      (s.poisoned = false → Usable e.model.cfg dtype blockHash prompts rowOf s.engine) from hinv.1
  refine hr.invariant (I := fun history s => (∀ task remote pieces reply,
      .ran task remote pieces reply ∈ history →
        Generation.Ideal e ref ⟨task.messages, task.params, remote, reply, pieces⟩) ∧
      (s.poisoned = false → Usable e.model.cfg dtype blockHash prompts rowOf s.engine))
    (fun s (h : e.Fresh dtype s.engine ∧ _) =>
      ⟨fun _ _ _ _ hmem => absurd hmem List.not_mem_nil, fun _ => h.1.usable⟩)
    fun history s ev s' _ h hstep => ?_
  obtain ⟨hideal, husable⟩ := h
  obtain ⟨hstep, hadmitted⟩ := hstep
  have hearlier : ∀ ev' : Event F D, (∀ task remote pieces reply, ev' ≠ .ran task remote pieces reply) →
      ∀ task remote pieces reply, .ran task remote pieces reply ∈ ev' :: history →
        Generation.Ideal e ref ⟨task.messages, task.params, remote, reply, pieces⟩ :=
    fun ev' hne task remote pieces reply hmem => by
      rcases List.mem_cons.mp hmem with heq | hmem
      · exact absurd heq.symm (hne _ _ _ _)
      · exact hideal _ _ _ _ hmem
  cases ev with
  | received req answer =>
    obtain ⟨_, -, rfl⟩ := hstep
    refine ⟨hearlier _ (fun _ _ _ _ hne => by cases hne), ?_⟩
    cases answer <;> exact husable
  | listed answer =>
    obtain ⟨-, rfl⟩ := hstep
    exact ⟨hearlier _ (fun _ _ _ _ hne => by cases hne), husable⟩
  | ran task remote pieces reply =>
    obtain ⟨-, -, hrun⟩ := hstep
    have hnow : Generation.Ideal e ref ⟨task.messages, task.params, remote, reply, pieces⟩ ∧
        (s'.poisoned = false → Usable e.model.cfg dtype blockHash prompts rowOf s'.engine) := by
      unfold RunTask at hrun
      split_ifs at hrun with hpois
      · obtain ⟨rfl, rfl, -, hpois'⟩ := hrun
        refine ⟨⟨fun h => (by cases h), fun _ => Or.inl rfl⟩, fun hf => ?_⟩
        rw [hpois'] at hf
        cases hf
      · have hfree : s.poisoned = false := Bool.eq_false_of_not_eq_true hpois
        obtain ⟨⟨hg, hu⟩, -⟩ := generation_step hm hp hc hns hlayers (husable hfree) (hadmitted hfree)
          hrun.1
        exact ⟨hg, fun _ => hu⟩
    refine ⟨fun task' remote' pieces' reply' hmem => ?_, hnow.2⟩
    rcases List.mem_cons.mp hmem with heq | hmem
    · cases heq
      exact hnow.1
    · exact hideal _ _ _ _ hmem

/-- **Answers do not depend on what the server did before.** In every run of a server whose
    generations are sound: what a client has read to its end, as a stream or in one piece, is the
    answer of generation without a cache; there is such an answer exactly when the generation
    returned; and what was read of a stream at any moment, also when the generation fails later, is a
    first part of the ideal text. -/
theorem served_run (hm : Evaluates e.model dtype rowOf hidden logits)
    (hp : Predicts e.sampling logits ref) (hc : NoCollision blockHash blockSize prompts)
    (hns : NoSeed blockHash blockSize prompts) (hlayers : e.model.cfg.numHiddenLayers ≠ 0)
    {json : Json J} (hj : json.Lawful)
    (hr : ((chatLts fromSlice toVec blockHash e dtype).restrict
      (SoundTask fromSlice blockHash prompts rowOf e)).Run history s)
    {task : Task F D} {remote : Option RemoteGet} {pieces : List String}
    {reply : Option (Except String GenerationStats)}
    (hran : .ran task remote pieces reply ∈ history) :
    (∀ r, ReadsAnswer json task pieces reply r →
      idealAnswer e ref task.messages task.params (task.includeUsage || !task.stream) = some r) ∧
    ((∃ r, ReadsAnswer json task pieces reply r) ↔ ∃ stats, reply = some (.ok stats)) ∧
    (reply ≠ none → ∀ id created seen, seen <+: task.events json id created pieces reply →
      ∃ rest, idealText e ref task.messages task.params = (readEvents json seen).text ++ rest) := by
  have hideal := ran_ideal hm hp hc hns hlayers hr _ _ _ _ hran
  refine ⟨fun r h => ?_, ⟨fun ⟨r, h⟩ => ?_, fun ⟨stats, hstats⟩ => ?_⟩,
    fun hreply id created seen hseen => ?_⟩
  · obtain ⟨stats, rfl, rfl⟩ := (answers_iff hj).mp h
    exact idealAnswer_of_ideal _ hideal
  · obtain ⟨stats, hstats, -⟩ := (answers_iff hj).mp h
    exact ⟨stats, hstats⟩
  · exact ⟨_, (answers_iff hj).mpr ⟨stats, hstats, rfl⟩⟩
  · obtain ⟨rest, hrest⟩ := text_seen hj hseen
    obtain ⟨more, hmore⟩ := idealText_of_ideal hreply hideal
    exact ⟨rest ++ more, by rw [hmore, hrest, String.append_assoc]⟩

omit [LawfulCandle T] in
/-- A task is made from its request. -/
theorem received_params (hr : (chatLts fromSlice toVec blockHash e dtype).Run history s)
    {req : ChatCompletionRequest D} {task : Task F D} (h : .received req (.ok task) ∈ history) :
    task.messages = req.messages ∧ ∃ seed, task.params = ofRequest seed req := by
  refine hr.invariant (I := fun history _ => .received req (.ok task) ∈ history →
    task.messages = req.messages ∧ ∃ seed, task.params = ofRequest seed req)
    (fun _ _ hmem => absurd hmem List.not_mem_nil) (fun history s ev s' _ ih hstep hmem => ?_) h
  rcases List.mem_cons.mp hmem with rfl | hmem
  · obtain ⟨seed, hseed, -⟩ := hstep
    unfold accept at hseed
    split_ifs at hseed
    cases hseed
    exact ⟨rfl, seed, rfl⟩
  · exact ih hmem

omit [BEq F] [OfNat F 1] in
/-- What decides about the text of an answer. -/
theorem ofRequest_congr {req req' : ChatCompletionRequest D}
    (hsame : { req with stream := none, streamOptions := none } =
      { req' with stream := none, streamOptions := none })
    (hseed : req.seed.isSome) (seed seed' : UInt64) :
    (ofRequest seed req : SamplingParams F D) = ofRequest seed' req' := by
  obtain ⟨n, hn⟩ := Option.isSome_iff_exists.mp hseed
  simp only [ChatCompletionRequest.mk.injEq] at hsame
  obtain ⟨-, -, htemp, htopP, htopK, hmax, hseed', hstop, -⟩ := hsame
  simp [ofRequest, defaultParams, htemp, htopP, htopK, hmax, ← hseed', hn, hstop]

/-- **Seeded answers can be reproduced.** Of two requests that differ in nothing but how the answer is
    delivered, and give a seed, all answers have the same text, finish reason and, where told, usage,
    whatever the server did before, between and after them. -/
theorem reproducible_run (hm : Evaluates e.model dtype rowOf hidden logits)
    (hp : Predicts e.sampling logits ref) (hc : NoCollision blockHash blockSize prompts)
    (hns : NoSeed blockHash blockSize prompts) (hlayers : e.model.cfg.numHiddenLayers ≠ 0)
    {json : Json J} (hj : json.Lawful)
    (hr : ((chatLts fromSlice toVec blockHash e dtype).restrict
      (SoundTask fromSlice blockHash prompts rowOf e)).Run history s)
    {req req' : ChatCompletionRequest D}
    (hsame : { req with stream := none, streamOptions := none } =
      { req' with stream := none, streamOptions := none }) (hseed : req.seed.isSome)
    {task task' : Task F D} (hreq : .received req (.ok task) ∈ history)
    (hreq' : .received req' (.ok task') ∈ history) {remote remote' : Option RemoteGet}
    {pieces pieces' : List String} {reply reply' : Option (Except String GenerationStats)}
    (hran : .ran task remote pieces reply ∈ history)
    (hran' : .ran task' remote' pieces' reply' ∈ history) {r r' : Reading}
    (hans : ReadsAnswer json task pieces reply r) (hans' : ReadsAnswer json task' pieces' reply' r') :
    r.text = r'.text ∧ r.finishReason = r'.finishReason ∧ ∀ u ∈ r.usage, ∀ u' ∈ r'.usage, u = u' := by
  obtain ⟨hmessages, seed, hparams⟩ := received_params hr.of_restrict hreq
  obtain ⟨hmessages', seed', hparams'⟩ := received_params hr.of_restrict hreq'
  have hmess : req.messages = req'.messages := (ChatCompletionRequest.mk.inj hsame).1
  obtain ⟨stats, rfl, rfl⟩ := (answers_iff hj).mp hans
  obtain ⟨stats', rfl, rfl⟩ := (answers_iff hj).mp hans'
  have hone := idealAnswer_of_ideal true (ran_ideal hm hp hc hns hlayers hr _ _ _ _ hran)
  have htwo := idealAnswer_of_ideal true (ran_ideal hm hp hc hns hlayers hr _ _ _ _ hran')
  -- both answers are the ideal one of the same messages and parameters
  rw [hmessages, hparams, hmess, ofRequest_congr hsame hseed seed seed', ← hmessages', ← hparams',
    htwo] at hone
  have hsame : readingOf pieces' stats' true = readingOf pieces stats true := Option.some.inj hone
  have husage : usageOf stats' = usageOf stats := Option.some.inj (congrArg Reading.usage hsame)
  refine ⟨(congrArg Reading.text hsame).symm, (congrArg Reading.finishReason hsame).symm,
    fun u hu u' hu' => ?_⟩
  have hu : usageOf stats = u := by
    simp only [readingOf, Option.mem_def] at hu
    split_ifs at hu
    exact Option.some.inj hu
  have hu' : usageOf stats' = u' := by
    simp only [readingOf, Option.mem_def] at hu'
    split_ifs at hu'
    exact Option.some.inj hu'
  rw [← hu, ← hu', husage]

/-- Some task panicked. -/
def Panicked (history : List (Event F D)) : Prop :=
  ∃ task remote pieces, .ran task remote pieces none ∈ history

/-- The task had the engine, in some state of it that no panic has poisoned. -/
def Generates (fromSlice : List UInt8 → Except String KvBundleMeta)
    (toVec : KvBundleMeta → Except String (List UInt8)) (blockHash : BlockHash)
    (e : Engine T H O F D R) (dtype : DType) (g : Generation F D) : Prop :=
  ∃ engine engine', engine.poisoned = false ∧
    (generateLts fromSlice toVec blockHash e dtype).step engine g engine'

/-- What an event tells of the mutex. A task that is not turned away has the engine. -/
def Event.Tells (ev : Event F D) (generates : Generation F D → Prop) (panicked : Prop) : Prop :=
  match ev with
  | .received req answer => req.messages ≠ [] →
    (answer = .error (.internal "engine mutex poisoned") ↔ panicked)
  | .listed answer => answer = .error (.internal "engine mutex poisoned") ↔ panicked
  | .ran task remote pieces reply =>
    (panicked → pieces = [] ∧ reply = some (.error "engine mutex poisoned")) ∧
      (¬ panicked → generates ⟨task.messages, task.params, remote, reply, pieces⟩)

omit [Candle T] [LawfulCandle T] [HostCandle T] [BEq F] [OfNat F 1] [OfScientific F] [OfNat D 1] in
theorem panicked_cons {ev : Event F D} : Panicked (ev :: history) ↔
    (∃ task remote pieces, ev = .ran task remote pieces none) ∨ Panicked history := by
  constructor
  · rintro ⟨task, remote, pieces, hmem⟩
    rcases List.mem_cons.mp hmem with rfl | hmem
    · exact Or.inl ⟨_, _, _, rfl⟩
    · exact Or.inr ⟨_, _, _, hmem⟩
  · rintro (⟨task, remote, pieces, rfl⟩ | ⟨task, remote, pieces, hmem⟩)
    · exact ⟨_, _, _, List.mem_cons_self⟩
    · exact ⟨_, _, _, List.mem_cons_of_mem _ hmem⟩

/-- The mutexes of the server and of its engine, after a history. -/
def Mutexes (history : List (Event F D)) (s : AppState T F D) : Prop :=
  (s.poisoned = true ↔ Panicked history) ∧ (s.poisoned = false → s.engine.poisoned = false)

omit [LawfulCandle T] in
/-- A step tells of the panics so far, and poisons the mutexes if it is one. -/
theorem tells_step {s' : AppState T F D} {ev : Event F D} (h : Mutexes history s)
    (hstep : (chatLts fromSlice toVec blockHash e dtype).step s ev s') :
    ev.Tells (Generates fromSlice toVec blockHash e dtype) (Panicked history) ∧
      Mutexes (ev :: history) s' := by
  unfold Mutexes
  rw [panicked_cons, ← h.1]
  cases ev with
  | received req answer =>
    obtain ⟨seed, rfl, rfl⟩ := hstep
    refine ⟨fun hne => ?_, ?_⟩
    · unfold accept
      rw [if_neg (by simpa using hne)]
      cases s.poisoned <;> simp
    · have hkept : ∀ a : Except ApiError (Task F D), (s.receive a).poisoned = s.poisoned ∧
          (s.receive a).engine = s.engine := fun a => by
        cases a <;> exact ⟨rfl, rfl⟩
      simp only [(hkept _).1, (hkept _).2]
      exact ⟨by simp, h.2⟩
  | listed answer =>
    obtain ⟨rfl, rfl⟩ := hstep
    refine ⟨?_, by simp, h.2⟩
    show listModels s'.poisoned e.kvCache.modelId s'.startedAt = _ ↔ _
    unfold listModels
    cases s'.poisoned <;> simp
  | ran task remote pieces reply =>
    obtain ⟨-, -, hrun⟩ := hstep
    unfold RunTask at hrun
    split_ifs at hrun with hp
    · obtain ⟨rfl, rfl, -, hp'⟩ := hrun
      refine ⟨⟨fun _ => ⟨rfl, rfl⟩, fun hno => absurd hp hno⟩, by simp [hp, hp'], fun hno => ?_⟩
      cases hp'.symm.trans hno
    · have hfree := h.2 (Bool.eq_false_iff.mpr hp)
      refine ⟨⟨fun h => absurd h hp, fun _ => ⟨_, _, hfree, hrun.1⟩⟩, ?_⟩
      rw [hrun.2]
      cases reply with
      | none => simp
      | some r =>
        refine ⟨by simp [hp], fun _ => ?_⟩
        exact keeps_generate fromSlice toVec blockHash _ _ _ hfree hrun.1.1

omit [LawfulCandle T] in
/-- **A panic is the end of service.** At every moment of a run, a chat is turned away for a poisoned
    mutex, and so is the list of models, exactly when some earlier task panicked; a task that waited
    through the panic fails and has sent nothing, and every other task has the engine, unpoisoned. -/
theorem poisoned_run (hr : (chatLts fromSlice toVec blockHash e dtype).Run history s)
    {later earlier : List (Event F D)} {ev : Event F D} (hsplit : history = later ++ ev :: earlier) :
    ev.Tells (Generates fromSlice toVec blockHash e dtype) (Panicked earlier) := by
  suffices hinv : Mutexes history s ∧ ∀ later ev earlier, history = later ++ ev :: earlier →
      ev.Tells (Generates fromSlice toVec blockHash e dtype) (Panicked earlier)
    from hinv.2 _ _ _ hsplit
  clear hsplit
  refine hr.invariant (I := fun history s => Mutexes history s ∧ ∀ later ev earlier,
    history = later ++ ev :: earlier →
      ev.Tells (Generates fromSlice toVec blockHash e dtype) (Panicked earlier))
    (fun s (h : e.Fresh dtype s.engine ∧ s.poisoned = false ∧ _) =>
      ⟨⟨?_, fun _ => ?_⟩, fun later ev earlier h => ?_⟩)
    fun history s ev s' _ h hstep => ?_
  · simp [h.2.1, Panicked]
  · obtain ⟨_, -, hfresh⟩ := h.1
    rw [hfresh]
  · exact absurd h.symm (by simp)
  obtain ⟨htells, hmutexes⟩ := tells_step h.1 hstep
  refine ⟨hmutexes, fun later ev' earlier hsplit => ?_⟩
  cases later with
  | nil =>
    obtain ⟨rfl, rfl⟩ := List.cons.inj hsplit
    exact htells
  | cons _ later =>
    exact h.2 _ _ _ (List.cons.inj hsplit).2

end Runs

/-! ## 5. Two clients -/

/-- A JSON text that is the chunk itself. -/
def plainJson : Json ChatCompletionChunk := ⟨.ok, some⟩

theorem plainJson_lawful : plainJson.Lawful := fun c => ⟨c, rfl, rfl⟩

/-- The engine that counts on from the last token, with rational logits. -/
def countingServer : Engine Dense (List UInt32) (List UInt32) ℚ ℕ Unit where
  model := echoModel twoBlocks
  tokenizer := countingEngine.tokenizer
  chatTemplate := .chatMl
  eosTokenId := .single 21
  sampling :=
    { dim1 := fun o => .ok o.length
      row := fun o i => .ok [((o.getD i 0).toNat : ℚ)]
      applyRepeatPenalty := fun logits _ _ => logits
      new := fun _ => ()
      sample := fun r logits _ => some (UInt32.ofNat ((logits.headD 0).num.toNat + 1), r) }
  kvCache := .localOnly "m"

def lastLogit (seq : List UInt32) : List ℚ := [((seq.getLastD 0).toNat : ℚ)]

theorem countingServer_predicts :
    Predicts countingServer.sampling (fun _ ids o => o = ids) lastLogit := by
  rintro before ids o hn rfl
  have hlast : ((before ++ o).getLastD 0).toNat = (o.getD (o.length - 1) 0).toNat :=
    (List.cons.inj (Except.ok.inj
      (echoEngine_predicts twoBlocks samplePrompt 21 before o o hn rfl).2)).1.symm
  refine ⟨rfl, ?_⟩
  rw [lastLogit, hlast]
  rfl

def sampleRequest (stream : Bool) : ChatCompletionRequest ℕ where
  messages := [⟨"user", "hi"⟩]
  stream := some stream
  temperature := none
  topP := none
  topK := none
  maxTokens := none
  seed := some 7
  stop := none
  streamOptions := some ⟨some true⟩

def sampleTask (stream : Bool) : Task ℚ ℕ where
  messages := [⟨"user", "hi"⟩]
  params := ofRequest 0 (sampleRequest stream)
  includeUsage := true
  modelId := "m"
  stream

set_option synthInstance.maxSize 256 in
/-- Two clients ask the same; the one that came second is served first, and the other one's prompt
    takes 16 tokens from the cache. -/
theorem sample_run : ∃ (stats stats' : GenerationStats) (pieces pieces' : List String)
    (s : AppState Dense ℚ ℕ), stats.reusedPrefixTokens = 16 ∧ pieces.length = 4 ∧
    ((chatLts noHeader (fun _ => .error "no header") sampleHash countingServer .f32).restrict
      (SoundTask noHeader sampleHash (· ∈ [samplePrompt]) sampleRow countingServer)).Run
      [.ran (sampleTask true) none pieces (some (.ok stats)),
        .ran (sampleTask false) none pieces' (some (.ok stats')),
        .received (sampleRequest false) (.ok (sampleTask false)),
        .received (sampleRequest true) (.ok (sampleTask true))] s := by
  have hrun : wp (ofExcept (Cache.new twoBlocks .f32) : Prog Unit (Cache Dense))
      (fun fresh _ =>
        InStep (suffixBlocks noHeader sampleHash countingServer.model
          (countingServer.kvCache.session samplePrompt) ⟨fresh, []⟩) ∧
        wp (countingServer.generate noHeader (fun _ => .error "no header") sampleHash
            (sampleTask false).messages (sampleTask false).params)
          (fun _ s₁ => s₁.delivered.length = 4 ∧
            InStep (suffixBlocks noHeader sampleHash countingServer.model
              (countingServer.kvCache.session samplePrompt) s₁.traced) ∧
            wp (countingServer.generate noHeader (fun _ => .error "no header") sampleHash
                (sampleTask true).messages (sampleTask true).params)
              (fun stats s₂ => stats.reusedPrefixTokens = 16 ∧
                (s₂.delivered.drop 4).length = 4 ∧ s₂.delivered.take 4 = s₁.delivered)
              (fun _ _ => False) s₁)
          (fun _ _ => False) ⟨false, ⟨fresh, []⟩, [], []⟩) (fun _ _ => False) () := by
    decide +kernel
  obtain ⟨fresh, _, hnew, hstep₁, hfirst⟩ := hrun.returns
  obtain ⟨stats₁, s₁, hs₁, -, hstep₂, hsecond⟩ := hfirst.returns
  obtain ⟨stats₂, s₂, hs₂, hreused, hfour, htake⟩ := hsecond.returns
  have hsound : ∀ s : EngineState Dense,
      InStep (suffixBlocks noHeader sampleHash countingServer.model
        (countingServer.kvCache.session samplePrompt) s.traced) →
      Sound (countingServer.over none) sampleHash (· ∈ [samplePrompt]) sampleRow noHeader
        [⟨"user", "hi"⟩] s := fun s hs =>
    ⟨fun h => by cases h; exact List.mem_singleton_self _, fun h => (by cases h),
      fun h => by cases h; exact hs⟩
  let L := (chatLts noHeader (fun _ => .error "no header") sampleHash countingServer .f32).restrict
    (SoundTask noHeader sampleHash (· ∈ [samplePrompt]) sampleRow countingServer)
  have h₀ : L.Run [] ⟨⟨false, ⟨fresh, []⟩, [], []⟩, false, 0, []⟩ :=
    .start ⟨⟨fresh, (ofExcept_eq_ok.mp hnew).1, rfl⟩, rfl, rfl⟩
  have h₂ : L.Run [.received (sampleRequest false) (.ok (sampleTask false)),
      .received (sampleRequest true) (.ok (sampleTask true))]
      ⟨⟨false, ⟨fresh, []⟩, [], []⟩, false, 0, [sampleTask true, sampleTask false]⟩ :=
    .step (.step h₀ ⟨⟨0, rfl, rfl⟩, trivial⟩) ⟨⟨0, rfl, rfl⟩, trivial⟩
  have h₃ : L.Run [.ran (sampleTask false) none s₁.delivered (some (.ok stats₁)),
      .received (sampleRequest false) (.ok (sampleTask false)),
      .received (sampleRequest true) (.ok (sampleTask true))] ⟨s₁, false, 0, [sampleTask true]⟩ :=
    .step h₂
      ⟨⟨⟨[sampleTask true], [], rfl, rfl⟩, rfl, runTask_of_step rfl ⟨hs₁, rfl⟩ rfl⟩,
        fun _ => hsound _ hstep₁⟩
  have h₄ : L.Run [.ran (sampleTask true) none (s₂.delivered.drop 4) (some (.ok stats₂)),
      .ran (sampleTask false) none s₁.delivered (some (.ok stats₁)),
      .received (sampleRequest false) (.ok (sampleTask false)),
      .received (sampleRequest true) (.ok (sampleTask true))] ⟨s₂, false, 0, []⟩ :=
    .step h₃
      ⟨⟨⟨[], [], rfl, rfl⟩, rfl, runTask_of_step rfl
          ⟨hs₂, by rw [← htake, List.take_append_drop]⟩ rfl⟩,
        fun _ => hsound _ hstep₂⟩
  exact ⟨_, _, _, _, _, hreused, hfour, h₄⟩

/-- A stream of a chat that reuses what a blocking request left in the cache. -/
theorem served_run_streamed : ∃ (history : List (Event ℚ ℕ)) (s : AppState Dense ℚ ℕ),
    (chatLts noHeader (fun _ => .error "no header") sampleHash countingServer .f32).Run history s ∧
    ∃ pieces stats r, .ran (sampleTask true) none pieces (some (.ok stats)) ∈ history ∧
      stats.reusedPrefixTokens = 16 ∧
      ReadsAnswer plainJson (sampleTask true) pieces (some (.ok stats)) r ∧
      idealAnswer countingServer lastLogit (sampleTask true).messages (sampleTask true).params true =
        some r := by
  have hcollide : NoCollision sampleHash blockSize (· ∈ [samplePrompt]) := by decide +kernel
  have hseed : NoSeed sampleHash blockSize (· ∈ [samplePrompt]) := by decide +kernel
  obtain ⟨stats, _, pieces, _, s, hreused, -, hr⟩ := sample_run
  obtain ⟨hideal, hanswer, -⟩ := served_run (echoModel_evaluates rfl rfl) countingServer_predicts hcollide
    hseed (by decide) plainJson_lawful hr List.mem_cons_self
  obtain ⟨r, hans⟩ := hanswer.mpr ⟨stats, rfl⟩
  exact ⟨_, s, hr.of_restrict, pieces, stats, r, List.mem_cons_self, hreused, hans, hideal r hans⟩

/-- The stream and the one response are the same text. -/
theorem reproducible_run_streamed : ∃ (history : List (Event ℚ ℕ)) (s : AppState Dense ℚ ℕ),
    (chatLts noHeader (fun _ => .error "no header") sampleHash countingServer .f32).Run history s ∧
    ∃ pieces pieces' stats stats' r r',
      .ran (sampleTask true) none pieces (some (.ok stats)) ∈ history ∧
      .ran (sampleTask false) none pieces' (some (.ok stats')) ∈ history ∧
      ReadsAnswer plainJson (sampleTask true) pieces (some (.ok stats)) r ∧
      ReadsAnswer plainJson (sampleTask false) pieces' (some (.ok stats')) r' ∧ r.text = r'.text := by
  have hcollide : NoCollision sampleHash blockSize (· ∈ [samplePrompt]) := by decide +kernel
  have hseed : NoSeed sampleHash blockSize (· ∈ [samplePrompt]) := by decide +kernel
  obtain ⟨stats, stats', pieces, pieces', s, -, -, hr⟩ := sample_run
  have hans := (@answers_iff _ _ _ _ (sampleTask true) pieces _ _ plainJson_lawful).mpr
    ⟨stats, rfl, rfl⟩
  have hans' := (@answers_iff _ _ _ _ (sampleTask false) pieces' _ _ plainJson_lawful).mpr
    ⟨stats', rfl, rfl⟩
  have hsame := reproducible_run (echoModel_evaluates rfl rfl) countingServer_predicts hcollide hseed
    (by decide) plainJson_lawful hr (by rfl) rfl
    (.tail _ (.tail _ (.tail _ (.head _)))) (.tail _ (.tail _ (.head _))) (.head _) (.tail _ (.head _))
    hans hans'
  exact ⟨_, s, hr.of_restrict, pieces, pieces', stats, stats', _, _, .head _, .tail _ (.head _), hans,
    hans', hsame.1⟩

/-- Its sampler panics. -/
def crashingServer : Engine Dense (List UInt32) (List UInt32) ℚ ℕ Unit :=
  { countingServer with sampling := { countingServer.sampling with sample := fun _ _ _ => none } }

set_option synthInstance.maxSize 256 in
/-- After the panic the next client is turned away. -/
theorem poisoned_run_crashed : ∃ (earlier : List (Event ℚ ℕ)) (answer : Except ApiError (Task ℚ ℕ))
    (s : AppState Dense ℚ ℕ),
    (chatLts noHeader (fun _ => .error "no header") sampleHash crashingServer .f32).Run
      (.received (sampleRequest false) answer :: earlier) s ∧ Panicked earlier ∧
    answer = .error (.internal "engine mutex poisoned") := by
  have hrun : wp (ofExcept (Cache.new twoBlocks .f32) : Prog Unit (Cache Dense))
      (fun fresh _ => (crashingServer.generate noHeader (fun _ => .error "no header") sampleHash
        (sampleTask true).messages (sampleTask true).params
        ⟨false, ⟨fresh, []⟩, [], []⟩).isNone = true) (fun _ _ => False) () := by
    decide +kernel
  obtain ⟨fresh, _, hnew, hcrash⟩ := hrun.returns
  let L := chatLts noHeader (fun _ => .error "no header") sampleHash crashingServer .f32
  have h₁ : L.Run [.received (sampleRequest true) (.ok (sampleTask true))]
      ⟨⟨false, ⟨fresh, []⟩, [], []⟩, false, 0, [sampleTask true]⟩ :=
    .step (.start (s := ⟨⟨false, ⟨fresh, []⟩, [], []⟩, false, 0, []⟩)
      ⟨⟨fresh, (ofExcept_eq_ok.mp hnew).1, rfl⟩, rfl, rfl⟩) ⟨0, rfl, rfl⟩
  have h₂ : L.Run [.ran (sampleTask true) none [] none,
      .received (sampleRequest true) (.ok (sampleTask true))]
      ⟨⟨true, ⟨fresh, []⟩, [], []⟩, true, 0, []⟩ :=
    .step h₁
      ⟨⟨[], [], rfl, rfl⟩, rfl, runTask_of_step rfl ⟨Option.isNone_iff_eq_none.mp hcrash, rfl, rfl⟩ rfl⟩
  have h₃ : L.Run [.received (sampleRequest false) (.error (.internal "engine mutex poisoned")),
      .ran (sampleTask true) none [] none, .received (sampleRequest true) (.ok (sampleTask true))]
      ⟨⟨true, ⟨fresh, []⟩, [], []⟩, true, 0, []⟩ := .step h₂ ⟨0, rfl, rfl⟩
  have hpanicked : Panicked [Event.ran (sampleTask true) none [] none,
      .received (sampleRequest true) (.ok (sampleTask true))] := ⟨_, _, _, .head _⟩
  have htells := poisoned_run h₃ (List.nil_append _).symm
  exact ⟨_, _, _, h₃, hpanicked, (htells (by simp [sampleRequest])).mpr hpanicked⟩

end Flour.Api
