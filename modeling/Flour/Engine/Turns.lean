/-
  File:      Flour/Engine/Turns.lean
  Subject:   The turns of the decode loop of `Engine::generate`, and what of them is delivered.

  * `Engine.turns`, `Engine.turnsOf` -- the tokens that a decode loop, a generation samples, with
    their pieces, up to an end-of-sequence token, a stop sequence or a failure;
  * **`wlp_generate_turns`** -- what a generation has delivered when it ends: the pieces before the
    first one after which the text ends with a stop sequence, or all.
-/
import Flour.Engine.Generate
import Flour.Lib.StopWords

namespace Flour

open Kv Flour.Lib Flour.Lib.Prog Flour.Lib.StopWords

section Turns

variable {T H O F D R : Type} [Candle T] [HostCandle T] [BEq F] [OfNat F 1]

/-- The tokens of a decode loop with their pieces: those that are delivered, and the last one if it
    completes a stop sequence. -/
def Engine.turns (e : Engine T H O F D R) (forward : Forward T O) (params : SamplingParams F D) :
    ℕ → ℕ → Decoding O R → EngineState T → List (UInt32 × String)
  | 0, _, _, _ => []
  | remaining + 1, indexPos, v, s =>
    match e.nextToken params v s with
    | some (.ok (nextToken, sampler), s) =>
      if e.eosTokenId.isEos nextToken then []
      else
        match e.tokenizer.decode [nextToken] with
        | .error _ => []
        | .ok piece =>
          (nextToken, piece) ::
            if params.stopsAt (v.generated ++ piece) then []
            else
              match onTraced (forward [nextToken] indexPos)
                  { s with delivered := s.delivered ++ [piece] } with
              | some (.ok logits, s) =>
                e.turns forward params remaining (indexPos + 1)
                  { logits
                    allTokens := v.allTokens ++ [nextToken]
                    generated := v.generated ++ piece
                    completionTokens := v.completionTokens + 1
                    sampler } s
              | _ => []
    | _ => []

/-- The variables of the decode loop before its first turn. -/
def Engine.startDecoding (e : Engine T H O F D R) (params : SamplingParams F D)
    (prompt : List UInt32) (logits : O) : Decoding O R where
  logits
  allTokens := prompt
  generated := ""
  completionTokens := 0
  sampler := e.sampling.new params.seed

/-- The tokens of a generation with their pieces. -/
def Engine.turnsOf (fromSlice : List UInt8 → Except String KvBundleMeta) (blockHash : BlockHash)
    (e : Engine T H O F D R) (forward : Forward T O) (messages : List ChatMessage)
    (params : SamplingParams F D) (s : EngineState T) : List (UInt32 × String) :=
  match e.tokenizer.encode (e.chatTemplate.render messages) with
  | .error _ => []
  | .ok prompt =>
    if s.poisoned then []
    else
      match prefillWith fromSlice blockHash forward (e.kvCache.session prompt, s.traced) with
      | some (.ok prefill, (_, traced)) =>
        e.turns forward params params.maxTokens prompt.length
          (e.startDecoding params prompt prefill.logits) { s with traced }
      | _ => []

/-- The stop sequences, as lists of characters. -/
def SamplingParams.stopWords (params : SamplingParams F D) : List (List Char) :=
  params.stop.map String.toList

omit [BEq F] [OfNat F 1] in
theorem SamplingParams.stopsAt_iff (params : SamplingParams F D) (candidate : String) :
    params.stopsAt candidate = true ↔ EndsWith params.stopWords candidate.toList := by
  unfold SamplingParams.stopsAt EndsWith SamplingParams.stopWords
  have hempty : ∀ w : String, (!w.isEmpty) = true ↔ w.toList ≠ [] := fun w => by
    simp [String.toList_eq_nil_iff]
  simp only [Bool.and_eq_true, List.any_eq_true, List.mem_map, hempty, List.isSuffixOf_iff_suffix]
  constructor
  · rintro ⟨-, w, hmem, hne, hsuf⟩
    exact ⟨w.toList, ⟨w, hmem, rfl⟩, hne, hsuf⟩
  · rintro ⟨_, ⟨w, hmem, rfl⟩, hne, hsuf⟩
    refine ⟨?_, w, hmem, hne, hsuf⟩
    rw [Bool.not_eq_true', List.isEmpty_eq_false_iff]
    exact List.ne_nil_of_mem hmem

/-- The pieces, as lists of characters. -/
def charsOf (pieces : List String) : List (List Char) := pieces.map String.toList

/-- What of the decoded pieces is delivered, for stop sequences and the text so far. -/
structure Streamed (words : List (List Char)) (text : String) (pieces out : List String)
    (stopped : Prop) : Prop where
  shown : charsOf out = StopWords.shown words text.toList (charsOf pieces)
  halted : haltAt words text.toList (charsOf pieces) ≠ none → stopped

theorem Streamed.nil {words : List (List Char)} {text : String} {stopped : Prop} :
    Streamed words text [] [] stopped := ⟨rfl, fun h => absurd rfl h⟩

/-- A piece that completes a stop sequence is not delivered. -/
theorem Streamed.halt {words : List (List Char)} {text piece : String} {stopped : Prop}
    (h : EndsWith words (text ++ piece).toList) (hstopped : stopped) :
    Streamed words text [piece] [] stopped := by
  rw [String.toList_append] at h
  refine ⟨?_, fun _ => hstopped⟩
  show [] = StopWords.shown words text.toList [piece.toList]
  rw [shown_cons, if_pos h]

/-- Any other piece is. -/
theorem Streamed.cons {words : List (List Char)} {text piece : String} {pieces out : List String}
    {stopped : Prop} (h : ¬ EndsWith words (text ++ piece).toList)
    (hs : Streamed words (text ++ piece) pieces out stopped) :
    Streamed words text (piece :: pieces) (piece :: out) stopped := by
  rw [String.toList_append] at h
  obtain ⟨hshown, hhalted⟩ := hs
  rw [String.toList_append] at hshown hhalted
  refine ⟨?_, fun hne => hhalted fun hnone => hne ?_⟩
  · show piece.toList :: charsOf out = StopWords.shown words text.toList (piece.toList :: charsOf pieces)
    rw [shown_cons, if_neg h, hshown]
  · show haltAt words text.toList (piece.toList :: charsOf pieces) = none
    rw [haltAt_cons, if_neg h, hnone]
    rfl

variable {e : Engine T H O F D R} {forward : Forward T O} {params : SamplingParams F D}

omit [Candle T] [HostCandle T] in
/-- A piece is what its token alone is decoded to. -/
theorem decode_of_mem_turns {n indexPos : ℕ} {v : Decoding O R} {s : EngineState T}
    {turn : UInt32 × String} (h : turn ∈ e.turns forward params n indexPos v s) :
    e.tokenizer.decode [turn.1] = .ok turn.2 := by
  induction n generalizing indexPos v s with
  | zero => cases h
  | succ n ih =>
    rw [Engine.turns] at h
    rcases hnext : e.nextToken params v s with _ | ⟨_ | ⟨nextToken, sampler⟩, s₁⟩ <;>
      rw [hnext] at h
    · cases h
    · cases h
    dsimp only at h
    split at h
    · cases h
    rcases hdecode : e.tokenizer.decode [nextToken] with _ | piece <;> rw [hdecode] at h
    · cases h
    rcases List.mem_cons.mp h with rfl | h
    · exact hdecode
    split at h
    · cases h
    split at h
    · exact ih h
    · cases h

/-- What a decode loop that ended in `s'` has delivered. -/
def LoopStreamed (e : Engine T H O F D R) (forward : Forward T O) (params : SamplingParams F D)
    (n indexPos : ℕ) (v : Decoding O R) (s : EngineState T) (stopped : Prop) (s' : EngineState T) :
    Prop :=
  ∃ out, s'.delivered = s.delivered ++ out ∧
    Streamed params.stopWords v.generated ((e.turns forward params n indexPos v s).map Prod.snd) out
      stopped

omit [Candle T] [HostCandle T] in
/-- A turn whose token has a piece. -/
theorem turns_succ (forward : Forward T O) (n indexPos : ℕ) {v : Decoding O R}
    {s s₁ : EngineState T} {nextToken : UInt32} {sampler : R} {piece : String}
    (hnext : e.nextToken params v s = some (.ok (nextToken, sampler), s₁))
    (heos : ¬ e.eosTokenId.isEos nextToken = true)
    (hdecode : e.tokenizer.decode [nextToken] = .ok piece) :
    e.turns forward params (n + 1) indexPos v s = (nextToken, piece) ::
      if params.stopsAt (v.generated ++ piece) then []
      else
        match onTraced (forward [nextToken] indexPos)
            { s₁ with delivered := s₁.delivered ++ [piece] } with
        | some (.ok logits, s₂) =>
          e.turns forward params n (indexPos + 1)
            { logits
              allTokens := v.allTokens ++ [nextToken]
              generated := v.generated ++ piece
              completionTokens := v.completionTokens + 1
              sampler } s₂
        | _ => [] := by
  rw [Engine.turns, hnext]
  dsimp only
  rw [if_neg heos, hdecode]

omit [Candle T] [HostCandle T] in
/-- **The decode loop** delivers the pieces before the first one that completes a stop sequence. -/
theorem wlp_decodeLoop_turns {n indexPos : ℕ} {v : Decoding O R} {s : EngineState T} :
    wlp (e.decodeLoop forward params n indexPos v)
      (fun r s' => LoopStreamed e forward params n indexPos v s (r.1 = .stop) s')
      (fun _ s' => LoopStreamed e forward params n indexPos v s False s') s := by
  induction n generalizing indexPos v s with
  | zero => exact Or.inr ⟨[], (List.append_nil _).symm, .nil⟩
  | succ n ih =>
    have hnone : ∀ {stopped : Prop}, e.turns forward params (n + 1) indexPos v s = [] →
        LoopStreamed e forward params (n + 1) indexPos v s stopped s := fun h =>
      ⟨[], (List.append_nil _).symm, by rw [h]; exact .nil⟩
    rcases hnext : e.nextToken params v s with _ | ⟨err | ⟨nextToken, sampler⟩, s₁⟩
    · exact wlp_bind (Or.inl hnext)
    · obtain rfl : s₁ = s := (wlp_nextToken v s).of_error hnext
      refine wlp_bind (Or.inr ((wp_of_error hnext).mpr (hnone ?_)))
      rw [Engine.turns, hnext]
    obtain rfl : s₁ = s := (wlp_nextToken v s).of_ok hnext
    refine wlp_bind (Or.inr ((wp_of_ok hnext).mpr ?_))
    dsimp only
    by_cases heos : e.eosTokenId.isEos nextToken = true
    · rw [if_pos heos]
      refine Or.inr (hnone ?_)
      rw [Engine.turns, hnext]
      exact if_pos heos
    rw [if_neg heos]
    rcases hdecode : e.tokenizer.decode [nextToken] with err | piece
    · refine wlp_bind (Or.inr (hnone ?_))
      rw [Engine.turns, hnext]
      dsimp only
      rw [if_neg heos, hdecode]
    refine wlp_bind (Or.inr ?_)
    show wlp (if params.stopsAt (v.generated ++ piece) = true then _ else _) _ _ _
    have hturns := turns_succ forward n indexPos hnext heos hdecode
    have hends := params.stopsAt_iff (v.generated ++ piece)
    by_cases hstop : params.stopsAt (v.generated ++ piece) = true
    · rw [if_pos hstop] at hturns ⊢
      exact Or.inr ⟨[], (List.append_nil _).symm, by
        rw [hturns]
        exact .halt (hends.mp hstop) rfl⟩
    rw [if_neg hstop] at hturns ⊢
    -- the piece is delivered, whatever the pass over its token does
    have hone : ∀ {stopped : Prop} {s' : EngineState T} {rest out : List _},
        e.turns forward params (n + 1) indexPos v s₁ = (nextToken, piece) :: rest →
        s'.delivered = s₁.delivered ++ [piece] ++ out →
        Streamed params.stopWords (v.generated ++ piece) (rest.map Prod.snd) out stopped →
        LoopStreamed e forward params (n + 1) indexPos v s₁ stopped s' :=
      fun heq hdel hs => ⟨piece :: _, by rw [hdel, List.append_assoc]; rfl, by
        rw [heq]
        exact .cons (fun h => hstop (hends.mpr h)) hs⟩
    refine wlp_bind (Or.inr ?_)
    rw [wp_modify]
    rcases hpass : onTraced (forward [nextToken] indexPos)
      { s₁ with delivered := s₁.delivered ++ [piece] } with _ | ⟨err | logits, s₂⟩
    · exact wlp_bind (Or.inl hpass)
    all_goals
      obtain ⟨t, -, rfl⟩ := zoom_eq_some.mp hpass
      rw [hpass] at hturns
    · exact wlp_bind (Or.inr ((wp_of_error hpass).mpr
        (hone hturns (List.append_nil _).symm .nil)))
    · refine wlp_bind (Or.inr ((wp_of_ok hpass).mpr ?_))
      refine ih.mono (fun r s' h => ?_) fun _ s' h => ?_
      all_goals
        obtain ⟨out, hdel, hs⟩ := h
        exact hone hturns hdel hs

variable {fromSlice : List UInt8 → Except String KvBundleMeta}
  {toVec : KvBundleMeta → Except String (List UInt8)} {blockHash : BlockHash}
  {messages : List ChatMessage}

omit [HostCandle T] in
theorem decode_of_mem_turnsOf {s : EngineState T} {turn : UInt32 × String}
    (h : turn ∈ e.turnsOf fromSlice blockHash forward messages params s) :
    e.tokenizer.decode [turn.1] = .ok turn.2 := by
  unfold Engine.turnsOf at h
  split at h
  · cases h
  split at h
  · cases h
  split at h
  · exact decode_of_mem_turns h
  · cases h

omit [HostCandle T] in
/-- The turns of a generation are those of its decode loop. -/
theorem turnsOf_of_prefill {s : EngineState T} {prompt : List UInt32} {prefill : PrefillOutput O}
    {session : KvSession} {traced : Traced T}
    (hprompt : e.tokenizer.encode (e.chatTemplate.render messages) = .ok prompt)
    (hpoisoned : ¬ s.poisoned = true)
    (hprefill : prefillWith fromSlice blockHash forward (e.kvCache.session prompt, s.traced) =
      some (.ok prefill, (session, traced))) :
    e.turnsOf fromSlice blockHash forward messages params s =
      e.turns forward params params.maxTokens prompt.length
        (e.startDecoding params prompt prefill.logits) { s with traced } := by
  rw [Engine.turnsOf, hprompt]
  dsimp only
  rw [if_neg hpoisoned, hprefill]

omit [HostCandle T] in
/-- Without a prefill there are none. -/
theorem turnsOf_of_no_prefill {s : EngineState T} {prompt : List UInt32}
    (hprompt : e.tokenizer.encode (e.chatTemplate.render messages) = .ok prompt)
    (hprefill : ¬ ∃ out st, prefillWith fromSlice blockHash forward
      (e.kvCache.session prompt, s.traced) = some (.ok out, st)) :
    e.turnsOf fromSlice blockHash forward messages params s = [] := by
  rw [Engine.turnsOf, hprompt]
  dsimp only
  split
  · rfl
  · split
    · rename_i out session traced hrun
      exact absurd ⟨out, _, hrun⟩ hprefill
    · rfl

/-- What a generation that ended in `s'` has delivered. -/
def GenerationStreamed (fromSlice : List UInt8 → Except String KvBundleMeta) (blockHash : BlockHash)
    (e : Engine T H O F D R) (forward : Forward T O) (messages : List ChatMessage)
    (params : SamplingParams F D) (s : EngineState T) (stopped : Prop) (s' : EngineState T) : Prop :=
  ∃ out, s'.delivered = s.delivered ++ out ∧
    Streamed params.stopWords "" ((e.turnsOf fromSlice blockHash forward messages params s).map Prod.snd)
      out stopped

/-- **A generation** delivers the pieces before the first one that completes a stop sequence, and
    then it ends by `Stop`. -/
theorem wlp_generate_turns {s : EngineState T} :
    wlp (e.generateWith fromSlice toVec blockHash forward messages params)
      (fun stats s' => GenerationStreamed fromSlice blockHash e forward messages params s
        (stats.finishReason = .stop) s')
      (fun _ s' => GenerationStreamed fromSlice blockHash e forward messages params s False s') s := by
  have hnone : ∀ {stopped : Prop} {s' : EngineState T}, s'.delivered = s.delivered →
      e.turnsOf fromSlice blockHash forward messages params s = [] →
      GenerationStreamed fromSlice blockHash e forward messages params s stopped s' := fun hs h =>
    ⟨[], by rw [hs, List.append_nil], by rw [h]; exact .nil⟩
  rcases hprompt : e.tokenizer.encode (e.chatTemplate.render messages) with err | prompt
  · exact wlp_bind (wlp_ofExcept (fun _ h => by rw [hprompt] at h; cases h) fun _ _ => hnone rfl (by
      rw [Engine.turnsOf, hprompt]))
  refine wlp_bind (wlp_ofExcept (fun prompt' h => ?_) fun _ h => by rw [hprompt] at h; cases h)
  obtain rfl := Except.ok.inj (hprompt.symm.trans h)
  refine wlp_bind (Or.inr ?_)
  rw [wp_get]
  by_cases hpoisoned : s.poisoned = true
  · rw [if_pos hpoisoned]
    refine Or.inr (hnone rfl ?_)
    rw [Engine.turnsOf, hprompt]
    exact if_pos hpoisoned
  rw [if_neg hpoisoned]
  refine wlp_within ?_
  rcases hprefill : prefillWith fromSlice blockHash forward (e.kvCache.session prompt, s.traced) with
    _ | ⟨err | prefill, session, traced⟩
  · exact wlp_bind (wlp_zoom (Or.inl hprefill))
  · refine wlp_bind (wlp_zoom (Or.inr ((wp_of_error hprefill).mpr (hnone rfl ?_))))
    rw [Engine.turnsOf, hprompt]
    dsimp only
    rw [if_neg hpoisoned, hprefill]
  have hturns : e.turnsOf fromSlice blockHash forward messages params s =
      e.turns forward params params.maxTokens prompt.length
        (e.startDecoding params prompt prefill.logits) { s with traced } :=
    turnsOf_of_prefill hprompt hpoisoned hprefill
  -- what is delivered is that of the loop
  have hloop : ∀ {stopped : Prop} {s' : EngineState T},
      LoopStreamed e forward params params.maxTokens prompt.length
        (e.startDecoding params prompt prefill.logits) { s with traced } stopped s' →
      GenerationStreamed fromSlice blockHash e forward messages params s stopped s' :=
    fun ⟨out, hdel, hs⟩ => ⟨out, hdel, by rw [hturns]; exact hs⟩
  refine wlp_bind (wlp_zoom (Or.inr ((wp_of_ok hprefill).mpr ?_)))
  refine wlp_bind (Or.inr ?_)
  rw [wp_get]
  refine wlp_bind (wlp_zoom (wlp_decodeLoop_turns.mono (fun r s₂ h => ?_) fun _ _ h => hloop h))
  refine wlp_bind (wlp_zoom ((wlp_finish_returns _).mono (fun publish st _ => ?_) fun _ _ h => h.elim))
  refine wlp_bind (wlp_zoom (Or.inr ?_))
  unfold publishBestEffort
  split
  · exact Or.inr (hloop h)
  · exact Or.inr (hloop h)

end Turns

end Flour
