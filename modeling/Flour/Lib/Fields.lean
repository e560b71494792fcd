/-
  File:      Flour/Lib/Fields.lean
  Subject:   Texts made of fields: what a text determines of them, read from the right. Names nothing
             of the program.

  * `last_field_inj` -- a last field without the separator in front of it is determined, whatever the
    text before the separator is;
  * `toDigits_inj`, `notMem_toDigits` -- a decimal numeral is determined by its digits, and has no
    other characters;
  * `padded` -- a numeral of a fixed width, `length_padded`.
-/
import Mathlib.Data.List.Basic
import Mathlib.Data.Nat.Notation

namespace Flour.Lib

/-- A longer text would have another separator in its last field. -/
theorem eq_nil_of_last_field {α : Type} {sep : α} {last last' mid : List α} (hl : sep ∉ last)
    (h : sep :: last = mid ++ sep :: last') : mid = [] := by
  cases mid with
  | nil => rfl
  | cons a mid =>
    obtain ⟨-, rfl⟩ := List.cons.inj h
    exact absurd (List.mem_append_right mid List.mem_cons_self) hl

/-- **The last field** is what follows the last separator. -/
theorem last_field_inj {α : Type} {sep : α} {xs ys last last' : List α} (hl : sep ∉ last)
    (hl' : sep ∉ last') (h : xs ++ sep :: last = ys ++ sep :: last') : xs = ys ∧ last = last' := by
  rcases List.append_eq_append_iff.mp h with ⟨mid, rfl, hmid⟩ | ⟨mid, rfl, hmid⟩
  · obtain rfl := eq_nil_of_last_field hl hmid
    exact ⟨(List.append_nil xs).symm, (List.cons.inj hmid).2⟩
  · obtain rfl := eq_nil_of_last_field hl' hmid
    exact ⟨List.append_nil ys, (List.cons.inj hmid).2.symm⟩

theorem toDigits_inj {m n : ℕ} (h : Nat.toDigits 10 m = Nat.toDigits 10 n) : m = n := by
  simpa using congrArg (Nat.ofDigitChars 10 · 0) h

theorem notMem_toDigits {c : Char} (hc : c.isDigit = false) (n : ℕ) : c ∉ Nat.toDigits 10 n :=
  fun hmem => Bool.false_ne_true (hc.symm.trans
    (Nat.isDigit_of_mem_toDigits (by decide) (by decide) hmem))

/-- The digits with zeros in front, up to a width. -/
def padded (width : ℕ) (digits : List Char) : List Char :=
  List.replicate (width - digits.length) '0' ++ digits

theorem length_padded {width : ℕ} {digits : List Char} (h : digits.length ≤ width) :
    (padded width digits).length = width := by
  unfold padded
  rw [List.length_append, List.length_replicate]
  omega

end Flour.Lib
