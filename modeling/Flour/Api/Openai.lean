/-
  File:      Flour/Api/Openai.lean
  Subject:   Requests, responses and stream chunks of `src/api/openai.rs`, and the errors of
             `src/api/error.rs`.

  * `SamplingParams.ofRequest` -- what a request leaves open is taken from the defaults, and the seed
    from the generator;
  * `Task.events`, `Task.respond` -- what a generation is turned into, as a stream and as one response.
    JSON texts are those of the library;
  * `Reading` -- what a client has read: `readEvents` folds a stream, chunk by chunk, as a client does,
    and knows nothing of the server;
  * **`readEvents_ok`**, `readEvents_failed` -- reading a whole stream gives the text of the pieces, and
    the finish reason, the usage where it was asked for and `[DONE]` when the generation returned;
    `text_of_firstPart` -- what was read before the end is a first part of it.
-/
import Flour.Engine.Generate

namespace Flour

def FinishReason.asStr : FinishReason → String
  | stop => "stop"
  | length => "length"

namespace Api

/-! ## 1. Requests -/

/-- One string, or an array of strings. -/
inductive StopSequences where
  | one (s : String)
  | many (v : List String)

def StopSequences.toVec : StopSequences → List String
  | one s => [s]
  | many v => v

structure StreamOptions where
  includeUsage : Option Bool

structure ChatCompletionRequest (D : Type) where
  messages : List ChatMessage
  stream : Option Bool
  temperature : Option D
  topP : Option D
  topK : Option ℕ
  maxTokens : Option ℕ
  seed : Option UInt64
  stop : Option StopSequences
  streamOptions : Option StreamOptions

def ChatCompletionRequest.wantsUsage {D : Type} (req : ChatCompletionRequest D) : Bool :=
  (req.streamOptions.bind StreamOptions.includeUsage).getD false

/-- `SamplingParams::default`, with the seed that was drawn. -/
def defaultParams {F D : Type} [OfScientific F] [OfNat D 1] (seed : UInt64) : SamplingParams F D where
  temperature := 1
  topP := none
  topK := none
  maxTokens := 256
  repeatPenalty := 1.1
  repeatLastN := 64
  seed
  stop := []

/-- `From<&ChatCompletionRequest>`. The defaults are made, and a seed drawn, for every request. -/
def ofRequest {F D : Type} [OfScientific F] [OfNat D 1] (seed : UInt64)
    (req : ChatCompletionRequest D) : SamplingParams F D :=
  let defaults : SamplingParams F D := defaultParams seed
  { temperature := req.temperature.getD defaults.temperature
    topP := req.topP.or defaults.topP
    topK := req.topK.or defaults.topK
    maxTokens := req.maxTokens.getD defaults.maxTokens
    repeatPenalty := defaults.repeatPenalty
    repeatLastN := defaults.repeatLastN
    seed := req.seed.getD defaults.seed
    stop := (req.stop.map StopSequences.toVec).getD [] }

/-! ## 2. Errors -/

inductive ApiError where
  | badRequest (message : String)
  | internal (message : String)
deriving DecidableEq

/-- The status and the message of the body. -/
def ApiError.intoResponse : ApiError → ℕ × String
  | badRequest m => (400, m)
  | internal m => (500, m)

/-! ## 3. Responses and chunks -/

structure Usage where
  promptTokens : ℕ
  completionTokens : ℕ
  totalTokens : ℕ
deriving DecidableEq

def usageOf (stats : GenerationStats) : Usage where
  promptTokens := stats.promptTokens
  completionTokens := stats.completionTokens
  totalTokens := stats.promptTokens + stats.completionTokens

structure Choice where
  index : ℕ
  message : ChatMessage
  finishReason : String

structure ChatCompletionResponse where
  id : String
  object : String
  created : ℕ
  model : String
  choices : List Choice
  usage : Usage

/-- `ChatCompletionResponse::new`, with the id and the time it takes. -/
def ChatCompletionResponse.new (id : String) (created : ℕ) (model content : String)
    (stats : GenerationStats) : ChatCompletionResponse where
  id
  object := "chat.completion"
  created
  model
  choices := [⟨0, ⟨"assistant", content⟩, stats.finishReason.asStr⟩]
  usage := usageOf stats

structure StreamDelta where
  role : Option String
  content : Option String

structure ChunkChoice where
  index : ℕ
  delta : StreamDelta
  finishReason : Option String

structure ChatCompletionChunk where
  id : String
  object : String
  created : ℕ
  model : String
  choices : List ChunkChoice
  usage : Option Usage

namespace ChatCompletionChunk

variable (id : String) (created : ℕ) (model : String)

def roleChunk : ChatCompletionChunk :=
  ⟨id, "chat.completion.chunk", created, model, [⟨0, ⟨some "assistant", none⟩, none⟩], none⟩

def deltaChunk (content : String) : ChatCompletionChunk :=
  ⟨id, "chat.completion.chunk", created, model, [⟨0, ⟨none, some content⟩, none⟩], none⟩

def finishChunk (finishReason : String) : ChatCompletionChunk :=
  ⟨id, "chat.completion.chunk", created, model, [⟨0, ⟨none, none⟩, some finishReason⟩], none⟩

/-- It has no choices. -/
def usageChunk (usage : Usage) : ChatCompletionChunk :=
  ⟨id, "chat.completion.chunk", created, model, [], some usage⟩

end ChatCompletionChunk

/-- The data of an event: a JSON text, or a text that is none. -/
inductive Data (J : Type) where
  | json (j : J)
  | text (s : String)

/-- JSON texts of chunks, as the library writes them and a client reads them. -/
structure Json (J : Type) where
  toString : ChatCompletionChunk → Except String J
  parse : J → Option ChatCompletionChunk

/-- Chunks can be written, and are read as they were written. -/
def Json.Lawful {J : Type} (json : Json J) : Prop :=
  ∀ c, ∃ j, json.toString c = .ok j ∧ json.parse j = some c

/-! ## 4. What becomes of a generation -/

/-- A request that was accepted. -/
structure Task (F D : Type) where
  messages : List ChatMessage
  params : SamplingParams F D
  includeUsage : Bool
  modelId : String
  stream : Bool

section Answer

variable {J F D : Type}

/-- An event, unless its chunk cannot be written: then the stream ends. -/
def yieldJson (json : Json J) (chunk : ChatCompletionChunk) (rest : List (Data J)) : List (Data J) :=
  match json.toString chunk with
  | .ok j => .json j :: rest
  | .error _ => []

/-- `while let Some(tok) = rx.recv().await`. -/
def Task.deltas (json : Json J) (t : Task F D) (id : String) (created : ℕ) :
    List String → List (Data J) → List (Data J)
  | [], rest => rest
  | tok :: toks, rest =>
    yieldJson json (.deltaChunk id created t.modelId tok) (t.deltas json id created toks rest)

/-- `match generation_handle.await`; no reply when the task panicked. -/
def Task.closing (json : Json J) (t : Task F D) (id : String) (created : ℕ) :
    Option (Except String GenerationStats) → List (Data J)
  | some (.ok stats) =>
    yieldJson json (.finishChunk id created t.modelId stats.finishReason.asStr)
      (if t.includeUsage then
        yieldJson json (.usageChunk id created t.modelId (usageOf stats)) [.text "[DONE]"]
      else [.text "[DONE]"])
  | some (.error _) => []
  | none => []

/-- All events of a stream, for the pieces that were sent and the result of the task. -/
def Task.events (json : Json J) (t : Task F D) (id : String) (created : ℕ) (pieces : List String)
    (reply : Option (Except String GenerationStats)) : List (Data J) :=
  yieldJson json (.roleChunk id created t.modelId)
    (t.deltas json id created pieces (t.closing json id created reply))

/-- The one response; `joinError` is the text of a panic. -/
def Task.respond (t : Task F D) (id : String) (created : ℕ) (joinError : String)
    (pieces : List String) : Option (Except String GenerationStats) →
    Except ApiError ChatCompletionResponse
  | some (.ok stats) => .ok (.new id created t.modelId (pieces.foldl (· ++ ·) "") stats)
  | some (.error err) => .error (.internal err)
  | none => .error (.internal joinError)

end Answer

/-! ## 5. What a client reads -/

/-- What is known of an answer. -/
structure Reading where
  role : Option String
  text : String
  finishReason : Option String
  usage : Option Usage
  done : Bool
deriving DecidableEq

namespace Reading

def empty : Reading := ⟨none, "", none, none, false⟩

def choice (r : Reading) (c : ChunkChoice) : Reading :=
  { r with
    role := c.delta.role.or r.role
    text := r.text ++ c.delta.content.getD ""
    finishReason := c.finishReason.or r.finishReason }

def chunk (r : Reading) (c : ChatCompletionChunk) : Reading :=
  { c.choices.foldl choice r with usage := c.usage.or r.usage }

/-- An event. What cannot be read is skipped. -/
def event {J : Type} (json : Json J) (r : Reading) : Data J → Reading
  | .json j => (json.parse j).elim r r.chunk
  | .text s => if s = "[DONE]" then { r with done := true } else r

end Reading

def readEvents {J : Type} (json : Json J) (events : List (Data J)) : Reading :=
  events.foldl (Reading.event json) .empty

/-- The same of a response in one piece. -/
def ChatCompletionResponse.reading (resp : ChatCompletionResponse) : Reading where
  role := (resp.choices.head?).map fun c => c.message.role
  text := resp.choices.foldl (fun text c => text ++ c.message.content) ""
  finishReason := (resp.choices.head?).map Choice.finishReason
  usage := some resp.usage
  done := true

/-- The answer with these pieces and figures. -/
def readingOf (pieces : List String) (stats : GenerationStats) (withUsage : Bool) : Reading where
  role := some "assistant"
  text := pieces.foldl (· ++ ·) ""
  finishReason := some stats.finishReason.asStr
  usage := if withUsage then some (usageOf stats) else none
  done := true

section Reads

variable {J F D : Type} {json : Json J} {t : Task F D} {id : String} {created : ℕ} {r : Reading}

theorem foldl_yieldJson (h : json.Lawful) (c : ChatCompletionChunk) (rest : List (Data J)) :
    (yieldJson json c rest).foldl (Reading.event json) r =
      rest.foldl (Reading.event json) (r.chunk c) := by
  obtain ⟨j, hj, hparse⟩ := h c
  simp [yieldJson, hj, Reading.event, hparse]

theorem foldl_append (pieces : List String) (s : String) :
    pieces.foldl (· ++ ·) s = s ++ pieces.foldl (· ++ ·) "" := by
  induction pieces generalizing s with
  | nil => simp
  | cons p pieces ih =>
    rw [List.foldl_cons, List.foldl_cons, ih, ih ("" ++ p)]
    simp [String.append_assoc]

/-- A delta for each piece. -/
theorem foldl_deltas (h : json.Lawful) (pieces : List String) (rest : List (Data J)) :
    (t.deltas json id created pieces rest).foldl (Reading.event json) r =
      rest.foldl (Reading.event json) { r with text := r.text ++ pieces.foldl (· ++ ·) "" } := by
  induction pieces generalizing r with
  | nil => simp [Task.deltas]
  | cons p pieces ih =>
    rw [Task.deltas, foldl_yieldJson h, ih, List.foldl_cons, foldl_append pieces ("" ++ p)]
    simp [Reading.chunk, Reading.choice, ChatCompletionChunk.deltaChunk, String.append_assoc]

/-- **A stream** of a generation that returned. -/
theorem readEvents_ok (h : json.Lawful) (pieces : List String) (stats : GenerationStats) :
    readEvents json (t.events json id created pieces (some (.ok stats))) =
      readingOf pieces stats t.includeUsage := by
  unfold readEvents Task.events readingOf
  rw [foldl_yieldJson h, foldl_deltas h, Task.closing, foldl_yieldJson h]
  split
  · rw [foldl_yieldJson h]
    simp [Reading.event, Reading.chunk, Reading.choice, Reading.empty, ChatCompletionChunk.roleChunk,
      ChatCompletionChunk.finishChunk, ChatCompletionChunk.usageChunk]
  · simp [Reading.event, Reading.chunk, Reading.choice, Reading.empty, ChatCompletionChunk.roleChunk,
      ChatCompletionChunk.finishChunk]

/-- A stream of a generation that failed or panicked just ends. -/
theorem readEvents_failed (h : json.Lawful) (pieces : List String)
    {reply : Option (Except String GenerationStats)} (hreply : ∀ stats, reply ≠ some (.ok stats)) :
    readEvents json (t.events json id created pieces reply) =
      { role := some "assistant"
        text := pieces.foldl (· ++ ·) ""
        finishReason := none
        usage := none
        done := false } := by
  have hclosing : t.closing json id created reply = [] := by
    rcases reply with _ | _ | stats
    · rfl
    · rfl
    · exact absurd rfl (hreply stats)
  unfold readEvents Task.events
  rw [foldl_yieldJson h, foldl_deltas h, hclosing]
  simp [Reading.chunk, Reading.choice, Reading.empty, ChatCompletionChunk.roleChunk]

theorem foldl_choice_text (choices : List ChunkChoice) (r : Reading) :
    ∃ s, (choices.foldl Reading.choice r).text = r.text ++ s := by
  induction choices generalizing r with
  | nil => exact ⟨"", String.append_empty.symm⟩
  | cons c choices ih =>
    obtain ⟨s, hs⟩ := ih (r.choice c)
    exact ⟨c.delta.content.getD "" ++ s, hs.trans String.append_assoc⟩

/-- Later events only add text. -/
theorem foldl_event_text (json : Json J) (events : List (Data J)) (r : Reading) :
    ∃ s, (events.foldl (Reading.event json) r).text = r.text ++ s := by
  induction events generalizing r with
  | nil => exact ⟨"", String.append_empty.symm⟩
  | cons d events ih =>
    have hone : ∃ s, (r.event json d).text = r.text ++ s := by
      cases d with
      | json j =>
        cases hj : json.parse j with
        | none => exact ⟨"", by simp [Reading.event, hj]⟩
        | some c =>
          obtain ⟨s, hs⟩ := foldl_choice_text c.choices r
          exact ⟨s, by simpa [Reading.event, hj, Reading.chunk] using hs⟩
      | text s =>
        refine ⟨"", ?_⟩
        by_cases hs : s = "[DONE]" <;> simp [Reading.event, hs]
    obtain ⟨s, hs⟩ := hone
    obtain ⟨s', hs'⟩ := ih (r.event json d)
    exact ⟨s ++ s', by rw [List.foldl_cons, hs', hs, String.append_assoc]⟩

/-- **What was read so far** is a first part of what the whole stream says. -/
theorem text_of_firstPart {seen events : List (Data J)} (h : seen <+: events) :
    ∃ s, (readEvents json events).text = (readEvents json seen).text ++ s := by
  obtain ⟨more, rfl⟩ := h
  unfold readEvents
  rw [List.foldl_append]
  exact foldl_event_text json more _

/-- The one response of a generation that returned. -/
theorem reading_new (model : String) (pieces : List String) (stats : GenerationStats) :
    (ChatCompletionResponse.new id created model (pieces.foldl (· ++ ·) "") stats).reading =
      readingOf pieces stats true := by
  simp [ChatCompletionResponse.reading, ChatCompletionResponse.new, readingOf]

end Reads

end Api

end Flour
