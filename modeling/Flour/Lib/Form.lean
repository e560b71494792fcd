/-
  File:      Flour/Lib/Form.lean
  Subject:   Query strings `name=value&name=value`, as forms write them. Names nothing of the program.

  * `encodeForm keep` -- percent-encoding in which a space is a plus sign; `decodeForm` reads it;
    **`decodeForm_encoded`** -- what was encoded is read back;
  * `textOf` -- the text of UTF-8 bytes; `field` -- the one value of a name, parsed;
    **`field_single`** -- a query of one pair has the field that was encoded.
-/
import Flour.Lib.Percent
import Mathlib.Data.List.TakeWhile

namespace Flour.Lib.Form

open Percent Utf8

/-! ## 1. Values -/

def plus : UInt8 := '+'.toUInt8
def space : UInt8 := ' '.toUInt8

def encodeFormByte (keep : UInt8 → Bool) (b : UInt8) : List Char :=
  if b = space then ['+'] else encodeByte keep b

def encodeForm (keep : UInt8 → Bool) (bytes : List UInt8) : List Char :=
  bytes.flatMap (encodeFormByte keep)

/-- Plus signs are read before escapes. -/
def spaced (b : UInt8) : UInt8 := if b = plus then space else b

def decodeForm (text : List Char) : List UInt8 :=
  decode ((utf8Bytes (String.ofList text)).map spaced)

/-- The text of these bytes, if they are one. -/
def textOf (bytes : List UInt8) : Option String := String.fromUTF8? ⟨bytes.toArray⟩

theorem textOf_utf8Bytes (s : String) : textOf (utf8Bytes s) = some s := by
  have hvalid : (⟨(utf8Bytes s).toArray⟩ : ByteArray) = s.toByteArray := ByteArray.ext (by
    simp [utf8Bytes])
  unfold textOf String.fromUTF8?
  rw [hvalid, dif_pos s.isValidUTF8]
  rfl

section Keep

variable {keep : UInt8 → Bool} {allowed : Char → Bool}

/-- The text of a value. -/
theorem escaped_encodeForm (hplus : allowed '+' = true)
    (h : ∀ b, keep b = true → allowed (Char.ofUInt8 b) = true) (bytes : List UInt8) :
    Escaped allowed (encodeForm keep bytes) := by
  unfold encodeForm
  induction bytes with
  | nil => exact .nil
  | cons b bytes ih =>
    rw [List.flatMap_cons]
    unfold encodeFormByte
    split_ifs with hb
    · exact .keep hplus ih
    · unfold encodeByte
      split_ifs with hk
      · exact .keep (h b hk) ih
      · have hlt : b.toNat < 256 := b.toNat_lt
        rw [hexPair_eq]
        exact .escape (isHexDigit_hexDigit _ (by omega)) (isHexDigit_hexDigit _ (by omega)) ih

theorem spaced_hexDigit : ∀ d < 16, spaced (hexDigit d).toUInt8 = (hexDigit d).toUInt8 := by decide

/-- Only a space is written as a plus sign. -/
theorem spaced_encodeByte (hplus : keep plus = false) (b : UInt8) :
    ((encodeByte keep b).map Char.toUInt8).map spaced = (encodeByte keep b).map Char.toUInt8 := by
  unfold encodeByte
  split_ifs with hb
  · have hne : b ≠ plus := fun h => by
      rw [h, hplus] at hb
      cases hb
    have hcode : (Char.ofUInt8 b).toUInt8 = b := UInt8.toUInt8_toUInt32 b
    simp only [List.map_cons, List.map_nil, hcode]
    unfold spaced
    rw [if_neg hne]
  · have hlt : b.toNat < 256 := b.toNat_lt
    rw [hexPair_eq]
    simp only [List.map_cons, List.map_nil, spaced_hexDigit _ (show b.toNat / 16 < 16 by omega),
      spaced_hexDigit _ (show b.toNat % 16 < 16 by omega)]
    rfl

/-- **What was encoded** is read back. -/
theorem decodeForm_encoded (hpercent : keep '%'.toUInt8 = false) (hplus : keep plus = false)
    {bytes : List UInt8} (hascii : ∀ c ∈ encodeForm keep bytes, c.toNat < 128) :
    decodeForm (encodeForm keep bytes) = bytes := by
  unfold decodeForm
  rw [utf8Bytes_ofList hascii]
  unfold encodeForm
  clear hascii
  induction bytes with
  | nil => rfl
  | cons b bytes ih =>
    rw [List.flatMap_cons, List.map_append, List.map_append]
    unfold encodeFormByte
    split_ifs with hb
    · subst hb
      show decode (space :: _) = _
      rw [decode_literal (by decide)]
      exact congrArg (space :: ·) ih
    · rw [spaced_encodeByte hplus, decode_encodeByte hpercent]
      exact congrArg (b :: ·) ih

end Keep

/-- ASCII characters have bytes of their own. -/
theorem toUInt8_ne {c d : Char} (hc : c.toNat < 128) (hd : d.toNat < 128) (h : c ≠ d) :
    c.toUInt8 ≠ d.toUInt8 := by
  intro heq
  have hc' : c.val.toNat < 128 := hc
  have hd' : d.val.toNat < 128 := hd
  have hmod : c.val.toUInt8.toNat = d.val.toUInt8.toNat := congrArg UInt8.toNat heq
  rw [UInt32.toNat_toUInt8, UInt32.toNat_toUInt8] at hmod
  exact h (Char.ext (UInt32.toNat_inj.mp (by omega)))

/-- A value without escapes. -/
theorem decodeForm_plain {l : List Char} (h : ∀ c ∈ l, c.toNat < 128 ∧ c ≠ '+' ∧ c ≠ '%') :
    decodeForm l = utf8Bytes (String.ofList l) := by
  unfold decodeForm
  rw [utf8Bytes_ofList fun c hc => (h c hc).1]
  induction l with
  | nil => rfl
  | cons c l ih =>
    obtain ⟨hascii, hplus, hpercent⟩ := h c List.mem_cons_self
    have hspaced : spaced c.toUInt8 = c.toUInt8 := if_neg (toUInt8_ne hascii (by decide) hplus)
    rw [List.map_cons, List.map_cons, hspaced,
      decode_literal (toUInt8_ne hascii (by decide) hpercent),
      ih fun d hd => h d (List.mem_cons_of_mem _ hd)]

/-! ## 2. Pairs -/

/-- What stands before and after the first equals sign. -/
def pair (text : List Char) : List Char × List Char :=
  (text.takeWhile (· ≠ '='), (text.dropWhile (· ≠ '=')).drop 1)

def pairs (query : String) : List (List Char × List Char) := (query.toList.splitOn '&').map pair

/-- The text of bytes, with replacement characters where they are none. -/
def lossyTextOf (bytes : List UInt8) : String := (textOf bytes).getD (lossy bytes)

/-- The values of the pairs with this name. -/
def values (name query : String) : List String :=
  ((pairs query).filter fun p => lossyTextOf (decodeForm p.1) = name).map fun p =>
    lossyTextOf (decodeForm p.2)

/-- The value of the one pair with this name, parsed. It is parsed when it is met, before there can
    be another one. -/
def field {α : Type} (name : String) (parse : String → Except String α) (query : String) :
    Except String α :=
  match values name query with
  | [] => .error s!"missing field `{name}`"
  | value :: rest =>
    match parse value with
    | .error e => .error s!"{name}: {e}"
    | .ok a => if rest = [] then .ok a else .error s!"duplicate field `{name}`"

theorem pair_append {name value : List Char} (h : '=' ∉ name) :
    pair (name ++ '=' :: value) = (name, value) := by
  have hall : ∀ c ∈ name, decide (c ≠ '=') = true := fun c hc =>
    decide_eq_true fun heq => h (heq ▸ hc)
  unfold pair
  rw [List.takeWhile_append_of_pos hall, List.dropWhile_append_of_pos hall]
  simp

/-- **The only pair** of a query. -/
theorem field_single {α : Type} {name : String} {value : List Char} {v : String}
    (parse : String → Except String α) (heq : '=' ∉ name.toList) (hamp : '&' ∉ name.toList)
    (hname : textOf (decodeForm name.toList) = some name) (hvalue : '&' ∉ value)
    (hv : textOf (decodeForm value) = some v) :
    field name parse (String.ofList (name.toList ++ '=' :: value)) =
      (parse v).mapError fun e => s!"{name}: {e}" := by
  have hno : '&' ∉ name.toList ++ '=' :: value := by simp [hamp, hvalue]
  have hpairs : pairs (String.ofList (name.toList ++ '=' :: value)) = [(name.toList, value)] := by
    unfold pairs
    rw [String.toList_ofList, List.splitOn_eq_singleton hno, List.map_singleton, pair_append heq]
  have hvalues : values name (String.ofList (name.toList ++ '=' :: value)) = [v] := by
    unfold values
    rw [hpairs]
    simp [lossyTextOf, hname, hv]
  unfold field
  rw [hvalues]
  cases hp : parse v with
  | error e => simp only [hp, Except.mapError]
  | ok a => simp only [hp, if_true, Except.mapError]

end Flour.Lib.Form
