/-
  File:      Flour/Lib/Percent.lean
  Subject:   Percent-encoding: bytes written as a text in which some bytes stand for themselves and
             the others are escapes. Names nothing of the program.

  * `encode keep` -- an escape is a percent sign with two upper-case hexadecimal digits; `decode`
    reads the bytes of a text, with escapes in either case;
  * **`decode_encoded`** -- what was encoded is read back, if the percent sign itself is escaped;
  * `Escaped allowed` -- the texts made of allowed characters and escapes: every percent sign starts
    an escape (`Escaped.percent`), and no other character occurs (`Escaped.notMem`);
  * `utf8Bytes_ofList` -- an ASCII text has its codes for bytes.
-/
import Flour.Lib.Fields
import Flour.Lib.Utf8

namespace Flour.Lib.Percent

open Utf8

/-! ## 1. Texts and bytes -/

/-- The UTF-8 bytes of a text. -/
def utf8Bytes (s : String) : List UInt8 := s.toUTF8.data.toList

theorem utf8Bytes_inj {s t : String} (h : utf8Bytes s = utf8Bytes t) : s = t :=
  String.toByteArray_inj.mp (ByteArray.ext (Array.toList_inj.mp h))

/-- An ASCII character is one byte, its code. -/
theorem utf8EncodeChar_ascii {c : Char} (h : c.toNat < 128) :
    String.utf8EncodeChar c = [c.toUInt8] :=
  String.utf8EncodeChar_eq_singleton (Char.utf8Size_eq_one_iff.mpr
    (UInt32.le_iff_toNat_le.mpr (Nat.le_of_lt_succ h)))

theorem utf8Bytes_ofList {l : List Char} (h : ∀ c ∈ l, c.toNat < 128) :
    utf8Bytes (String.ofList l) = l.map Char.toUInt8 := by
  unfold utf8Bytes
  rw [String.toUTF8_eq_toByteArray, String.toByteArray_ofList, List.utf8Encode,
    List.toList_data_toByteArray]
  induction l with
  | nil => rfl
  | cons c l ih =>
    obtain ⟨hc, hl⟩ := List.forall_mem_cons.mp h
    rw [List.flatMap_cons, utf8EncodeChar_ascii hc, ih hl, List.map_cons, List.singleton_append]

/-! ## 2. Encoding and decoding -/

/-- The upper-case digit of a number below 16. -/
def hexDigit (d : ℕ) : Char := (Nat.digitChar d).toUpper

/-- `{:02X}`. -/
def hexPair (b : UInt8) : List Char := padded 2 ((Nat.toDigits 16 b.toNat).map Char.toUpper)

def encodeByte (keep : UInt8 → Bool) (b : UInt8) : List Char :=
  if keep b then [Char.ofUInt8 b] else '%' :: hexPair b

def encode (keep : UInt8 → Bool) (bytes : List UInt8) : List Char := bytes.flatMap (encodeByte keep)

/-- The value of a hexadecimal digit, in either case. -/
def hexValue (b : UInt8) : Option ℕ :=
  if between '0'.toUInt8 '9'.toUInt8 b then some (b.toNat - '0'.toNat)
  else if between 'A'.toUInt8 'F'.toUInt8 b then some (b.toNat - 'A'.toNat + 10)
  else if between 'a'.toUInt8 'f'.toUInt8 b then some (b.toNat - 'a'.toNat + 10)
  else none

/-- The byte that three bytes of a text are an escape of. -/
def unescape (b hi lo : UInt8) : Option UInt8 :=
  if b = '%'.toUInt8 then do
    let hi ← hexValue hi
    let lo ← hexValue lo
    some (UInt8.ofNat (hi * 16 + lo))
  else none

/-- What starts no escape stands for itself, also a percent sign. -/
def decode : List UInt8 → List UInt8
  | b :: hi :: lo :: rest =>
    match unescape b hi lo with
    | some byte => byte :: decode rest
    | none => b :: decode (hi :: lo :: rest)
  | bytes => bytes

theorem hexPair_eq (b : UInt8) : hexPair b = [hexDigit (b.toNat / 16), hexDigit (b.toNat % 16)] := by
  have hb : b.toNat < 256 := b.toNat_lt
  unfold hexPair
  by_cases h : b.toNat < 16
  · rw [Nat.toDigits_of_lt_base h, Nat.div_eq_of_lt h, Nat.mod_eq_of_lt h]
    rfl
  · have hhi : b.toNat / 16 < 16 := by omega
    rw [Nat.toDigits_of_base_le (by decide) (Nat.le_of_not_lt h), Nat.toDigits_of_lt_base hhi]
    rfl

theorem hexValue_hexDigit : ∀ d < 16, hexValue (hexDigit d).toUInt8 = some d := by decide

/-- A byte that is no percent sign stands for itself, whatever follows. -/
theorem decode_literal {b : UInt8} (hb : b ≠ '%'.toUInt8) (rest : List UInt8) :
    decode (b :: rest) = b :: decode rest := by
  match rest with
  | [] => rfl
  | [_] => rfl
  | _ :: _ :: _ => rw [decode, unescape, if_neg hb]

/-- An escape is read back, whatever follows. -/
theorem decode_escape (b : UInt8) (rest : List UInt8) :
    decode (('%' :: hexPair b).map Char.toUInt8 ++ rest) = b :: decode rest := by
  have hb : b.toNat < 256 := b.toNat_lt
  have hunescape : unescape '%'.toUInt8 (hexDigit (b.toNat / 16)).toUInt8
      (hexDigit (b.toNat % 16)).toUInt8 = some b := by
    rw [unescape, if_pos rfl, hexValue_hexDigit _ (by omega), hexValue_hexDigit _ (by omega)]
    show some (UInt8.ofNat (b.toNat / 16 * 16 + b.toNat % 16)) = some b
    rw [Nat.div_add_mod', UInt8.ofNat_toNat]
  rw [hexPair_eq, List.map_cons, List.map_cons, List.map_cons, List.map_nil, List.cons_append,
    List.cons_append, List.cons_append, List.nil_append, decode, hunescape]

section Keep

variable {keep : UInt8 → Bool}

theorem decode_encodeByte (hkeep : keep '%'.toUInt8 = false) (b : UInt8) (rest : List UInt8) :
    decode ((encodeByte keep b).map Char.toUInt8 ++ rest) = b :: decode rest := by
  unfold encodeByte
  split_ifs with hb
  · have hne : b ≠ '%'.toUInt8 := fun h => by
      rw [h, hkeep] at hb
      cases hb
    have hcode : (Char.ofUInt8 b).toUInt8 = b := UInt8.toUInt8_toUInt32 b
    rw [List.map_singleton, hcode, List.singleton_append, decode_literal hne]
  · exact decode_escape b rest

/-- **What was encoded** is read back. -/
theorem decode_encoded (hkeep : keep '%'.toUInt8 = false) (bytes : List UInt8) :
    decode ((encode keep bytes).map Char.toUInt8) = bytes := by
  unfold encode
  induction bytes with
  | nil => rfl
  | cons b bytes ih => rw [List.flatMap_cons, List.map_append, decode_encodeByte hkeep, ih]

end Keep

/-! ## 3. The encoded text -/

/-- An upper-case hexadecimal digit. -/
def isHexDigit (c : Char) : Bool := ('0' ≤ c && c ≤ '9') || ('A' ≤ c && c ≤ 'F')

theorem isHexDigit_ascii {c : Char} (h : isHexDigit c = true) : c.toNat < 128 := by
  simp only [isHexDigit, Bool.or_eq_true, Bool.and_eq_true, decide_eq_true_eq, Char.le_def,
    UInt32.le_iff_toNat_le] at h
  obtain ⟨-, h⟩ | ⟨-, h⟩ := h
  · exact Nat.lt_of_le_of_lt h (by decide)
  · exact Nat.lt_of_le_of_lt h (by decide)

theorem isHexDigit_hexDigit : ∀ d < 16, isHexDigit (hexDigit d) = true := by decide

/-- Texts of allowed characters and escapes. -/
inductive Escaped (allowed : Char → Bool) : List Char → Prop where
  | nil : Escaped allowed []
  | keep {c : Char} {rest : List Char} (hc : allowed c = true) (h : Escaped allowed rest) :
      Escaped allowed (c :: rest)
  | escape {hi lo : Char} {rest : List Char} (hhi : isHexDigit hi = true)
      (hlo : isHexDigit lo = true) (h : Escaped allowed rest) :
      Escaped allowed ('%' :: hi :: lo :: rest)

section Escaped

variable {allowed : Char → Bool} {keep : UInt8 → Bool} {text : List Char}

theorem escaped_encode (h : ∀ b, keep b = true → allowed (Char.ofUInt8 b) = true)
    (bytes : List UInt8) : Escaped allowed (encode keep bytes) := by
  unfold encode
  induction bytes with
  | nil => exact .nil
  | cons b bytes ih =>
    rw [List.flatMap_cons]
    unfold encodeByte
    split_ifs with hb
    · exact .keep (h b hb) ih
    · have hlt : b.toNat < 256 := b.toNat_lt
      rw [hexPair_eq]
      exact .escape (isHexDigit_hexDigit _ (by omega)) (isHexDigit_hexDigit _ (by omega)) ih

/-- A character that is not allowed, nor part of an escape, does not occur. -/
theorem Escaped.notMem (ht : Escaped allowed text) {c : Char} (hc : allowed c = false)
    (hhex : isHexDigit c = false) (hpercent : c ≠ '%') : c ∉ text := by
  have hne : ∀ {p : Char → Bool} {d : Char}, p c = false → p d = true → c ≠ d :=
    fun hpc hpd heq => Bool.false_ne_true (hpc.symm.trans (heq ▸ hpd))
  induction ht with
  | nil => exact List.not_mem_nil
  | keep hd _ ih => exact List.not_mem_cons_of_ne_of_not_mem (hne hc hd) ih
  | escape hhi hlo _ ih =>
    exact List.not_mem_cons_of_ne_of_not_mem hpercent
      (List.not_mem_cons_of_ne_of_not_mem (hne hhex hhi)
        (List.not_mem_cons_of_ne_of_not_mem (hne hhex hlo) ih))

/-- **Every percent sign** has two digits behind it, if it is not allowed by itself. -/
theorem Escaped.percent (ht : Escaped allowed text) (hp : allowed '%' = false)
    {front rest : List Char} (h : text = front ++ '%' :: rest) :
    ∃ hi lo rest', rest = hi :: lo :: rest' ∧ isHexDigit hi = true ∧ isHexDigit lo = true := by
  have hno : ∀ {p : Char → Bool} {c : Char}, p '%' = false → p c = true → c ≠ '%' :=
    fun hpc hc heq => Bool.false_ne_true (hpc.symm.trans (heq ▸ hc))
  induction ht generalizing front with
  | nil => cases front <;> cases h
  | keep hc _ ih =>
    cases front with
    | nil => exact absurd (List.cons.inj h).1 (hno hp hc)
    | cons _ front => exact ih (List.cons.inj h).2
  | @escape hi lo rest' hhi hlo _ ih =>
    -- the sign is the first of the escape, or behind it; the digits are none
    rcases front with _ | ⟨_, _ | ⟨_, _ | ⟨_, front⟩⟩⟩
    · exact ⟨hi, lo, rest', (List.cons.inj h).2.symm, hhi, hlo⟩
    · exact absurd (List.cons.inj (List.cons.inj h).2).1 (hno rfl hhi)
    · exact absurd (List.cons.inj (List.cons.inj (List.cons.inj h).2).2).1 (hno rfl hlo)
    · exact ih (List.cons.inj (List.cons.inj (List.cons.inj h).2).2).2

/-- If the allowed characters are ASCII, so is the text. -/
theorem Escaped.ascii (ht : Escaped allowed text)
    (hallowed : ∀ c, allowed c = true → c.toNat < 128) : ∀ c ∈ text, c.toNat < 128 := by
  induction ht with
  | nil => exact fun _ h => absurd h List.not_mem_nil
  | keep hc _ ih => exact List.forall_mem_cons.mpr ⟨hallowed _ hc, ih⟩
  | escape hhi hlo _ ih =>
    exact List.forall_mem_cons.mpr ⟨by decide, List.forall_mem_cons.mpr
      ⟨isHexDigit_ascii hhi, List.forall_mem_cons.mpr ⟨isHexDigit_ascii hlo, ih⟩⟩⟩

end Escaped

end Flour.Lib.Percent
