/-
  File:      Flour/Lib/Utf8.lean
  Subject:   The lossy decoding of bytes as UTF-8: each character, and each longest beginning of one
             that does not go on, is one character of the text. Names nothing of the program.

  * `following` -- the bytes that a first byte wants after it; `charOf` -- the character of a segment,
    U+FFFD where it is not a whole one; `lossy` -- the text;
  * `alone_following` -- a byte that is wanted begins nothing itself;
  * **`lossy_words_iff`** -- words are decoded one by one as they are decoded at once exactly if none
    of them begins inside a character.
-/
import Flour.Lib.Segments
import Mathlib.Algebra.Group.Nat.Defs

namespace Flour.Lib.Utf8

open Segments

def between (low high byte : UInt8) : Bool := low ≤ byte && byte ≤ high

/-- A continuation byte. -/
def tail : UInt8 → Bool := between 0x80 0xBF

def following (lead : UInt8) : List (UInt8 → Bool) :=
  if between 0xC2 0xDF lead then [tail]
  else if lead = 0xE0 then [between 0xA0 0xBF, tail]
  else if between 0xE1 0xEC lead || between 0xEE 0xEF lead then [tail, tail]
  else if lead = 0xED then [between 0x80 0x9F, tail]
  else if lead = 0xF0 then [between 0x90 0xBF, tail, tail]
  else if between 0xF1 0xF3 lead then [tail, tail, tail]
  else if lead = 0xF4 then [between 0x80 0x8F, tail, tail]
  else []

/-- The bits of a first byte that has `n` bytes after it. -/
def leadBits (lead : UInt8) (n : ℕ) : ℕ := lead.toNat % 2 ^ (if n = 0 then 7 else 6 - n)

def charOf : List UInt8 → Char
  | [] => '\uFFFD'
  | lead :: rest =>
    if rest.length = (following lead).length ∧ (rest ≠ [] ∨ lead < 0x80) then
      Char.ofNat (rest.foldl (fun n byte => n * 64 + byte.toNat % 64) (leadBits lead rest.length))
    else '\uFFFD'

def lossy (bytes : List UInt8) : String := String.ofList ((segments following bytes).map charOf)

example : lossy [0x61, 0xC3, 0xA9, 0xF0, 0x9F, 0x98, 0x80] = "aé😀" := by decide +kernel

example : lossy [0xE2, 0x82, 0x41, 0xC0, 0xAF, 0xED, 0xA0] = "\uFFFDA\uFFFD\uFFFD\uFFFD\uFFFD" := by
  decide +kernel

theorem between_iff {low high byte : UInt8} :
    between low high byte = true ↔ low.toNat ≤ byte.toNat ∧ byte.toNat ≤ high.toNat := by
  unfold between
  rw [Bool.and_eq_true, decide_eq_true_eq, decide_eq_true_eq, UInt8.le_iff_toNat_le,
    UInt8.le_iff_toNat_le]

/-- What is wanted lies among the continuation bytes. -/
theorem following_between {lead : UInt8} {p : UInt8 → Bool} (hp : p ∈ following lead) :
    ∃ low high : UInt8, p = between low high ∧ 0x80 ≤ low.toNat ∧ high.toNat ≤ 0xBF := by
  have htail : ∃ low high : UInt8, tail = between low high ∧ 0x80 ≤ low.toNat ∧ high.toNat ≤ 0xBF :=
    ⟨0x80, 0xBF, rfl, by decide, by decide⟩
  have hfirst : ∀ low high : UInt8, 0x80 ≤ low.toNat → high.toNat ≤ 0xBF →
      ∃ low' high' : UInt8, between low high = between low' high' ∧ 0x80 ≤ low'.toNat ∧
        high'.toNat ≤ 0xBF := fun low high hlow hhigh => ⟨low, high, rfl, hlow, hhigh⟩
  unfold following at hp
  split_ifs at hp <;> simp only [List.mem_cons, List.not_mem_nil, or_false, or_self] at hp
  · exact hp ▸ htail
  · exact hp.elim (fun h => h ▸ hfirst 0xA0 0xBF (by decide) (by decide)) fun h => h ▸ htail
  · exact hp ▸ htail
  · exact hp.elim (fun h => h ▸ hfirst 0x80 0x9F (by decide) (by decide)) fun h => h ▸ htail
  · exact hp.elim (fun h => h ▸ hfirst 0x90 0xBF (by decide) (by decide)) fun h => h ▸ htail
  · exact hp ▸ htail
  · exact hp.elim (fun h => h ▸ hfirst 0x80 0x8F (by decide) (by decide)) fun h => h ▸ htail

/-- A continuation byte wants nothing. -/
theorem following_of_le {byte : UInt8} (h : byte.toNat ≤ 0xBF) : following byte = [] := by
  have hno : ∀ low high : UInt8, 0xBF < low.toNat → ¬ between low high byte = true :=
    fun low high hlow hb => Nat.not_lt_of_le (Nat.le_trans (between_iff.mp hb).1 h) hlow
  have hne : ∀ lead : UInt8, 0xBF < lead.toNat → byte ≠ lead := fun lead hlead heq =>
    Nat.not_lt_of_le (heq ▸ h) hlead
  unfold following
  rw [if_neg (hno _ _ (by decide)), if_neg (hne _ (by decide)), if_neg, if_neg (hne _ (by decide)),
    if_neg (hne _ (by decide)), if_neg (hno _ _ (by decide)), if_neg (hne _ (by decide))]
  rw [Bool.or_eq_true]
  exact fun hor => hor.elim (hno _ _ (by decide)) (hno _ _ (by decide))

/-- **A wanted byte begins nothing.** -/
theorem alone_following : Alone following := by
  intro lead p hp byte hb
  obtain ⟨low, high, rfl, -, hhigh⟩ := following_between hp
  exact following_of_le (Nat.le_trans (between_iff.mp hb).2 hhigh)

/-- **Words that are decoded one by one** give the text that is decoded at once exactly if no word
    begins inside a character. -/
theorem lossy_words_iff (words : List (List UInt8)) :
    String.join (words.map lossy) = lossy words.flatten ↔ Unsplit following words := by
  have hjoin : (String.join (words.map lossy)).toList =
      (words.flatMap (segments following)).map charOf := by
    rw [String.toList_join, List.flatMap_map, List.map_flatMap]
    exact congrArg words.flatMap (funext fun _ => String.toList_ofList)
  have hwhole : (lossy words.flatten).toList = (segments following words.flatten).map charOf :=
    String.toList_ofList
  rw [← String.toList_inj, hjoin, hwhole]
  constructor
  · intro h
    refine unsplit_of_length alone_following ?_
    have hlen := congrArg List.length h
    rwa [List.length_map, List.length_map] at hlen
  · intro h
    rw [segments_flatten h]

end Flour.Lib.Utf8
