/-
  File:      Flour/Engine/Streaming.lean
  Subject:   What `on_token` receives: the stop sequences of a request in it, and the text of the
             sampled tokens.

  * **`stop_text_withheld_iff`** -- a generation keeps the stop sequences from its caller, and cuts
    the text before the first one, iff the first one starts where a piece starts and one ends where
    that piece ends: what was delivered before is not taken back, and a stop sequence that ends
    inside a piece is not noticed;
  * `stop_text_delivered` -- the stop sequence "al", in the pieces "la" "la" "la".
  * **`streamed_eq_decoded_iff`** -- without stop sequences, the pieces add up to what the tokenizer
    makes of all tokens at once iff no token begins inside a character: each is decoded alone;
  * `split_character` -- one character in two tokens.
-/
import Flour.Engine.Positions
import Flour.Engine.Turns
import Flour.Lib.Utf8

namespace Flour

open Kv Flour.Lib Flour.Lib.Prog Flour.Lib.StopWords

section Stops

variable {T H O F D R : Type} [Candle T] [HostCandle T] [BEq F] [OfNat F 1]
  {e : Engine T H O F D R} {params : SamplingParams F D}
  {fromSlice : List UInt8 → Except String KvBundleMeta}
  {toVec : KvBundleMeta → Except String (List UInt8)} {blockHash : BlockHash}
  {messages : List ChatMessage}

theorem join_toList (pieces : List String) : (String.join pieces).toList = (charsOf pieces).flatten :=
  String.toList_join.trans List.flatMap_def

/-- The pieces that a generation decodes. -/
def Engine.piecesOf (fromSlice : List UInt8 → Except String KvBundleMeta) (blockHash : BlockHash)
    (e : Engine T H O F D R) (messages : List ChatMessage) (params : SamplingParams F D)
    (s : EngineState T) : List String :=
  (e.turnsOf fromSlice blockHash e.model.forward messages params s).map Prod.snd

/-- **When stop sequences are withheld.** For every generation, returned or failed, and whatever
    pieces `rest` the model would have gone on with after a stop: the text that was delivered has no
    stop sequence in it, and is the output up to the first one if the output has one, with
    `FinishReason.stop`, exactly if the pieces are clean. -/
theorem stop_text_withheld_iff {s s' : EngineState T} {r : Except String GenerationStats}
    (hrun : e.generate fromSlice toVec blockHash messages params s = some (r, s')) (rest : List String)
    (hrest : rest ≠ [] →
      haltAt params.stopWords [] (charsOf (e.piecesOf fromSlice blockHash messages params s)) ≠ none) :
    let output := e.piecesOf fromSlice blockHash messages params s ++ rest
    ∃ out, s'.delivered = s.delivered ++ out ∧
      (Withheld params.stopWords (String.join output).toList (String.join out).toList
          (∃ stats, r = .ok stats ∧ stats.finishReason = .stop) ↔
        Clean params.stopWords (charsOf output)) := by
  intro output
  obtain ⟨out, hdel, hs⟩ : ∃ out, s'.delivered = s.delivered ++ out ∧
      Streamed params.stopWords "" (e.piecesOf fromSlice blockHash messages params s) out
        (∃ stats, r = .ok stats ∧ stats.finishReason = .stop) := by
    cases r with
    | ok stats =>
      obtain ⟨out, hdel, hs⟩ := wlp_generate_turns.of_ok hrun
      exact ⟨out, hdel, hs.shown, fun h => ⟨stats, rfl, hs.halted h⟩⟩
    | error err =>
      obtain ⟨out, hdel, hs⟩ := wlp_generate_turns.of_error hrun
      exact ⟨out, hdel, hs.shown, fun h => (hs.halted h).elim⟩
  refine ⟨out, hdel, ?_⟩
  obtain ⟨hshown, hhalted⟩ := hs
  have hnil : "".toList = [] := rfl
  rw [hnil] at hshown hhalted
  have houtput : charsOf output =
      charsOf (e.piecesOf fromSlice blockHash messages params s) ++ charsOf rest := List.map_append
  -- a loop that did not halt has no pieces after its own
  have hsame : StopWords.shown params.stopWords [] (charsOf output) = charsOf out ∧
      (haltAt params.stopWords [] (charsOf output) ≠ none →
        haltAt params.stopWords []
          (charsOf (e.piecesOf fromSlice blockHash messages params s)) ≠ none) := by
    by_cases hne : rest = []
    · subst hne
      rw [houtput]
      show shown _ _ (_ ++ []) = _ ∧ (haltAt _ _ (_ ++ []) ≠ none → _)
      rw [List.append_nil]
      exact ⟨hshown.symm, id⟩
    · rw [houtput, shown_append (hrest hne), hshown]
      exact ⟨rfl, fun _ => hrest hne⟩
  rw [join_toList, join_toList, ← hsame.1]
  exact withheld_iff_clean fun h => hhalted (hsame.2 h)

/-! ## 2. Decoding token by token -/

/-- The tokens that a generation samples, up to an end-of-sequence token. -/
def Engine.tokensOf (fromSlice : List UInt8 → Except String KvBundleMeta) (blockHash : BlockHash)
    (e : Engine T H O F D R) (messages : List ChatMessage) (params : SamplingParams F D)
    (s : EngineState T) : List UInt32 :=
  (e.turnsOf fromSlice blockHash e.model.forward messages params s).map Prod.fst

/-- The library decodes ordinary ids to the text of their bytes. -/
def DecodesBytes (t : Tokenizer) (ordinary : UInt32 → Prop) (bytes : UInt32 → List UInt8) : Prop :=
  ∀ ids, (∀ id ∈ ids, ordinary id) → t.inner.2 ids = .ok (Utf8.lossy (ids.flatMap bytes))

theorem DecodesBytes.decode {t : Tokenizer} {ordinary : UInt32 → Prop}
    {bytes : UInt32 → List UInt8} (h : DecodesBytes t ordinary bytes) (ids : List UInt32)
    (hids : ∀ id ∈ ids, ordinary id) : t.decode ids = .ok (Utf8.lossy (ids.flatMap bytes)) := by
  rw [Tokenizer.decode, h ids hids]
  rfl

/-- **When pieces add up.** For every generation without stop sequences whose tokens are ordinary,
    returned or failed: what was delivered is the decoding of all its tokens at once exactly if no
    token begins with a byte that the bytes before it still want. -/
theorem streamed_eq_decoded_iff {ordinary : UInt32 → Prop} {bytes : UInt32 → List UInt8}
    (hdecodes : DecodesBytes e.tokenizer ordinary bytes) (hstop : params.stop = [])
    {s s' : EngineState T} {r : Except String GenerationStats}
    (hrun : e.generate fromSlice toVec blockHash messages params s = some (r, s'))
    (hordinary : ∀ id ∈ e.tokensOf fromSlice blockHash messages params s, ordinary id) :
    let tokens := e.tokensOf fromSlice blockHash messages params s
    ∃ out, s'.delivered = s.delivered ++ out ∧
      (e.tokenizer.decode tokens = .ok (String.join out) ↔
        Segments.Unsplit Utf8.following (tokens.map bytes)) := by
  intro tokens
  obtain ⟨out, hdel, hs⟩ : ∃ out, s'.delivered = s.delivered ++ out ∧
      ∃ stopped, Streamed params.stopWords ""
        (e.piecesOf fromSlice blockHash messages params s) out stopped := by
    cases r with
    | ok stats =>
      obtain ⟨out, hdel, hs⟩ := wlp_generate_turns.of_ok hrun
      exact ⟨out, hdel, _, hs⟩
    | error err =>
      obtain ⟨out, hdel, hs⟩ := wlp_generate_turns.of_error hrun
      exact ⟨out, hdel, _, hs⟩
  refine ⟨out, hdel, ?_⟩
  obtain ⟨_, hshown, -⟩ := hs
  rw [show params.stopWords = [] from congrArg (List.map String.toList) hstop, shown_no_words] at hshown
  obtain rfl := List.map_injective_iff.mpr (fun _ _ h => String.toList_inj.mp h) hshown
  -- each piece is the text of its token
  have hpieces : e.piecesOf fromSlice blockHash messages params s =
      (tokens.map bytes).map Utf8.lossy := by
    show List.map Prod.snd _ = ((List.map Prod.fst _).map bytes).map Utf8.lossy
    rw [List.map_map, List.map_map]
    refine List.map_congr_left fun turn hturn => ?_
    have hone := hdecodes.decode [turn.1] fun id hid =>
      hordinary id (List.mem_map.mpr ⟨turn, hturn, (List.mem_singleton.mp hid).symm⟩)
    rw [decode_of_mem_turnsOf hturn, List.flatMap_singleton] at hone
    exact Except.ok.inj hone
  rw [hdecodes.decode _ hordinary, hpieces, List.flatMap_def, ← Utf8.lossy_words_iff]
  exact ⟨fun h => (Except.ok.inj h).symm, fun h => congrArg _ h.symm⟩

end Stops

/-! ## 3. Sample generations -/

/-- The sample request, with stop sequences. -/
def stoppingParams (stop : List String) : SamplingParams ℕ ℕ := { sampleParams with stop }

/-- Tokens below 256 are bytes, and token 256 is the character é. -/
def bytesOf (id : UInt32) : List UInt8 := if id = 256 then [0xC3, 0xA9] else [UInt8.ofNat id.toNat]

/-- An engine with these tokens, whose sampler returns those of a script. -/
def byteEngine (script : List UInt32) : Engine Dense (List UInt32) Unit ℕ ℕ (List UInt32) where
  model := sampleModel sampleConfig
  tokenizer := { inner := (fun _ => .ok samplePrompt, fun ids => .ok (Utf8.lossy (ids.flatMap bytesOf))) }
  chatTemplate := .chatMl
  eosTokenId := .single 0
  sampling :=
    { dim1 := fun _ => .ok 1
      row := fun _ _ => .ok [0, 1]
      applyRepeatPenalty := fun logits _ _ => logits
      new := fun _ => script
      sample := fun script _ _ => some (script.headD 0, script.tail) }
  kvCache := .localOnly "m"

set_option synthInstance.maxSize 256 in
/-- The stop sequence is the third piece of "h" "i" "!", whatever the model would have gone on with:
    the two before it are delivered, and nothing of it. -/
theorem stop_text_withheld_hi : ∃ (c₀ : Cache Dense) (stats : GenerationStats)
    (s' : EngineState Dense) (out : List String),
    (byteEngine [0x68, 0x69, 0x21]).generate noHeader (fun _ => .error "no header") sampleHash []
      (stoppingParams ["!"]) ⟨false, ⟨c₀, []⟩, [], []⟩ = some (.ok stats, s') ∧
    s'.delivered = ["h", "i"] ∧ s'.delivered = [] ++ out ∧
    Withheld [['!']] ['h', 'i', '!', '?'] (String.join out).toList
      (∃ st, (Except.ok stats : Except String _) = .ok st ∧ st.finishReason = .stop) := by
  have hrun : wp (ofExcept (Cache.new sampleConfig .f32) : Prog Unit (Cache Dense))
      (fun fresh _ => fresh.kvs.table.len = 0 ∧
        (byteEngine [0x68, 0x69, 0x21]).piecesOf noHeader sampleHash [] (stoppingParams ["!"])
          ⟨false, ⟨fresh, []⟩, [], []⟩ = ["h", "i", "!"] ∧
        wp ((byteEngine [0x68, 0x69, 0x21]).generate noHeader (fun _ => .error "no header") sampleHash []
          (stoppingParams ["!"])) (fun _ s' => s'.delivered = ["h", "i"]) (fun _ _ => False)
          ⟨false, ⟨fresh, []⟩, [], []⟩) (fun _ _ => False) () := by
    decide +kernel
  obtain ⟨c₀, _, -, -, hpieces, hgen⟩ := hrun.returns
  obtain ⟨stats, s', hgen, hshown⟩ := hgen.returns
  obtain ⟨out, hdel, hiff⟩ := stop_text_withheld_iff hgen ["?"] fun _ => by
    rw [hpieces]
    decide
  refine ⟨c₀, stats, s', out, hgen, hshown, hdel, ?_⟩
  rw [hpieces] at hiff
  refine hiff.mpr (Or.inr ⟨2, by decide, ⟨?_, fun i hi => ?_⟩, ?_⟩)
  · exact ⟨['!'], by decide, by decide, by decide⟩
  · show 2 ≤ i
    by_contra hlt
    obtain ⟨w, hw, -, hpre⟩ := hi
    obtain rfl := List.mem_singleton.mp hw
    obtain rfl | rfl : i = 0 ∨ i = 1 := by omega
    · exact absurd hpre (by decide)
    · exact absurd hpre (by decide)
  · exact ⟨['!'], by decide, by decide, by decide⟩

set_option synthInstance.maxSize 256 in
/-- **A stop sequence that is delivered.** It ends inside the second of the pieces "la" "la" "la", so
    no text ends with it when the loop looks. -/
theorem stop_text_delivered : ∃ (c₀ : Cache Dense) (stats : GenerationStats)
    (s' : EngineState Dense),
    sampleEngine.generate noHeader (fun _ => .error "no header") sampleHash [] (stoppingParams ["al"])
      ⟨false, ⟨c₀, []⟩, [], []⟩ = some (.ok stats, s') ∧ stats.finishReason = .length ∧
    s'.delivered = ["la", "la", "la"] ∧
    OccursAt [['a', 'l']] (String.join s'.delivered).toList 1 := by
  have hrun : wp (ofExcept (Cache.new sampleConfig .f32) : Prog Unit (Cache Dense))
      (fun fresh _ => fresh.kvs.table.len = 0 ∧
        wp (sampleEngine.generate noHeader (fun _ => .error "no header") sampleHash []
          (stoppingParams ["al"])) (fun stats s' => stats.finishReason = .length ∧
            s'.delivered = ["la", "la", "la"]) (fun _ _ => False)
          ⟨false, ⟨fresh, []⟩, [], []⟩) (fun _ _ => False) () := by
    decide +kernel
  obtain ⟨c₀, _, -, -, hgen⟩ := hrun.returns
  obtain ⟨stats, s', hgen, hreason, hdel⟩ := hgen.returns
  refine ⟨c₀, stats, s', hgen, hreason, hdel, ['a', 'l'], by decide, by decide, ?_⟩
  rw [hdel]
  decide

def twoTokens : SamplingParams ℕ ℕ := { sampleParams with maxTokens := 2 }

set_option synthInstance.maxSize 256 in
/-- A letter and a character of two bytes, each in one token, add up. -/
theorem streamed_eq_decoded_whole : ∃ (c₀ : Cache Dense) (stats : GenerationStats)
    (s' : EngineState Dense) (out : List String),
    (byteEngine [0x68, 256]).generate noHeader (fun _ => .error "no header") sampleHash [] twoTokens
      ⟨false, ⟨c₀, []⟩, [], []⟩ = some (.ok stats, s') ∧ s'.delivered = [] ++ out ∧
    s'.delivered = ["h", "é"] ∧
    (byteEngine [0x68, 256]).tokenizer.decode [0x68, 256] = .ok (String.join out) := by
  have hrun : wp (ofExcept (Cache.new sampleConfig .f32) : Prog Unit (Cache Dense))
      (fun fresh _ => fresh.kvs.table.len = 0 ∧
        (byteEngine [0x68, 256]).tokensOf noHeader sampleHash [] twoTokens
          ⟨false, ⟨fresh, []⟩, [], []⟩ = [0x68, 256] ∧
        wp ((byteEngine [0x68, 256]).generate noHeader (fun _ => .error "no header") sampleHash []
          twoTokens) (fun _ s' => s'.delivered = ["h", "é"]) (fun _ _ => False)
          ⟨false, ⟨fresh, []⟩, [], []⟩) (fun _ _ => False) () := by
    decide +kernel
  obtain ⟨c₀, _, -, -, htokens, hgen⟩ := hrun.returns
  obtain ⟨stats, s', hgen, hshown⟩ := hgen.returns
  have hbytes : DecodesBytes (byteEngine [0x68, 256]).tokenizer (fun _ => True) bytesOf :=
    fun _ _ => rfl
  obtain ⟨out, hdel, hiff⟩ := streamed_eq_decoded_iff hbytes rfl hgen fun _ _ => trivial
  refine ⟨c₀, stats, s', out, hgen, hdel, hshown, ?_⟩
  rw [htokens] at hiff
  exact hiff.mpr (by decide)

set_option synthInstance.maxSize 256 in
/-- **A character in two tokens** is delivered as two replacement characters. -/
theorem split_character : ∃ (c₀ : Cache Dense) (stats : GenerationStats) (s' : EngineState Dense),
    (byteEngine [0xC3, 0xA9]).generate noHeader (fun _ => .error "no header") sampleHash [] twoTokens
      ⟨false, ⟨c₀, []⟩, [], []⟩ = some (.ok stats, s') ∧ stats.finishReason = .length ∧
    (byteEngine [0xC3, 0xA9]).tokensOf noHeader sampleHash [] twoTokens ⟨false, ⟨c₀, []⟩, [], []⟩ =
      [0xC3, 0xA9] ∧
    s'.delivered = ["\uFFFD", "\uFFFD"] ∧
    (byteEngine [0xC3, 0xA9]).tokenizer.decode [0xC3, 0xA9] = .ok "é" := by
  have hrun : wp (ofExcept (Cache.new sampleConfig .f32) : Prog Unit (Cache Dense))
      (fun fresh _ => fresh.kvs.table.len = 0 ∧
        (byteEngine [0xC3, 0xA9]).tokensOf noHeader sampleHash [] twoTokens
          ⟨false, ⟨fresh, []⟩, [], []⟩ = [0xC3, 0xA9] ∧
        wp ((byteEngine [0xC3, 0xA9]).generate noHeader (fun _ => .error "no header") sampleHash []
          twoTokens) (fun stats s' => stats.finishReason = .length ∧
            s'.delivered = ["\uFFFD", "\uFFFD"]) (fun _ _ => False)
          ⟨false, ⟨fresh, []⟩, [], []⟩) (fun _ _ => False) () := by
    decide +kernel
  obtain ⟨c₀, _, -, -, htokens, hgen⟩ := hrun.returns
  obtain ⟨stats, s', hgen, hreason, hdel⟩ := hgen.returns
  exact ⟨c₀, stats, s', hgen, hreason, htokens, hdel, by decide +kernel⟩

end Flour
