/-
  File:      Flour/Lib/StopWords.lean
  Subject:   A text that arrives in pieces and must end before the first of some words. Names nothing
             of the program.

  A reader of the pieces halts at the first one after which the text ends with a word, and shows
  those before it (`shown`):

  * `OccursAt`, `EndsWith` -- a word, not the empty one, starts at a position, ends the text;
  * `Withheld words text seen stopped` -- what is seen has no word in it, and is the text up to the
    first one if there is one;
  * **`withheld_iff_clean`** -- what is shown is so exactly if no word occurs, or the first one
    starts where a piece starts and the text ends with a word where that piece ends (`Clean`).
-/
import Flour.Lib.Scan
import Mathlib.Order.Bounds.Basic
import Mathlib.Data.Nat.Find

namespace Flour.Lib.StopWords

variable {α : Type}

/-- A word starts at position `i`. -/
def OccursAt (words : List (List α)) (text : List α) (i : ℕ) : Prop :=
  ∃ w ∈ words, w ≠ [] ∧ w <+: text.drop i

/-- The text ends with a word. -/
def EndsWith (words : List (List α)) (text : List α) : Prop := ∃ w ∈ words, w ≠ [] ∧ w <:+ text

instance [DecidableEq α] (words : List (List α)) : DecidablePred (EndsWith words) := fun text =>
  inferInstanceAs (Decidable (∃ w ∈ words, w ≠ [] ∧ w <:+ text))

structure Withheld (words : List (List α)) (text seen : List α) (stopped : Prop) : Prop where
  free : ∀ i, ¬ OccursAt words seen i
  cut : ∀ i, IsLeast {i | OccursAt words text i} i → seen = text.take i ∧ stopped

/-- No word occurs, or the first one starts with a piece, and a word ends with the same piece. -/
def Clean (words : List (List α)) (pieces : List (List α)) : Prop :=
  (∀ i, ¬ OccursAt words pieces.flatten i) ∨
    ∃ k, k < pieces.length ∧
      IsLeast {i | OccursAt words pieces.flatten i} (pieces.take k).flatten.length ∧
      EndsWith words (pieces.take (k + 1)).flatten

variable {words : List (List α)} {text rest : List α} {i : ℕ}

theorem OccursAt.lt (h : OccursAt words text i) : i < text.length := by
  obtain ⟨w, -, hne, hw⟩ := h
  by_contra hge
  rw [List.drop_of_length_le (Nat.le_of_not_lt hge)] at hw
  exact hne (List.prefix_nil.mp hw)

/-- Words stay where they are when the text goes on. -/
theorem OccursAt.append (h : OccursAt words text i) : OccursAt words (text ++ rest) i := by
  have hlt := h.lt
  obtain ⟨w, hmem, hne, hw⟩ := h
  refine ⟨w, hmem, hne, ?_⟩
  rw [List.drop_append_of_le_length (Nat.le_of_lt hlt)]
  exact hw.trans (List.prefix_append _ _)

theorem EndsWith.occursAt (h : EndsWith words text) : ∃ i, OccursAt words text i := by
  obtain ⟨w, hmem, hne, t, rfl⟩ := h
  have hdrop : (t ++ w).drop t.length = w := List.drop_left
  exact ⟨t.length, w, hmem, hne, by simp only [hdrop, List.prefix_rfl]⟩

/-- Of the words that occur, one is the first. -/
theorem exists_isLeast (h : OccursAt words text i) : ∃ i, IsLeast {i | OccursAt words text i} i := by
  classical
  exact ⟨Nat.find ⟨i, h⟩, Nat.find_spec _, fun _ hj => Nat.find_min' _ hj⟩

section Pieces

variable {pieces : List (List α)}

theorem flatten_take_append (pieces : List (List α)) (k : ℕ) :
    pieces.flatten = (pieces.take k).flatten ++ (pieces.drop k).flatten := by
  rw [← List.flatten_append, List.take_append_drop]

/-- A prefix of the pieces is a prefix of the text. -/
theorem take_length_flatten (pieces : List (List α)) (k : ℕ) :
    pieces.flatten.take (pieces.take k).flatten.length = (pieces.take k).flatten := by
  rw [flatten_take_append pieces k, List.take_left]

theorem length_flatten_take_le (pieces : List (List α)) {j k : ℕ} (h : j ≤ k) :
    (pieces.take j).flatten.length ≤ (pieces.take k).flatten.length := by
  have hprefix : pieces.take j <+: pieces.take k := List.take_prefix_take_left h
  obtain ⟨t, ht⟩ := hprefix
  rw [← ht, List.flatten_append, List.length_append]
  exact Nat.le_add_right _ _

/-- A text that ends with a word after some pieces has a word before that place. -/
theorem EndsWith.occursAt_lt {k : ℕ} (h : EndsWith words (pieces.take k).flatten) :
    ∃ i, OccursAt words pieces.flatten i ∧ i < (pieces.take k).flatten.length := by
  obtain ⟨i, hi⟩ := h.occursAt
  refine ⟨i, ?_, hi.lt⟩
  rw [flatten_take_append pieces k]
  exact hi.append

end Pieces

/-! ## The reader -/

section Reader

variable [DecidableEq α]

/-- The piece at which a reader of the text so far halts. -/
def haltAt (words : List (List α)) (text : List α) (pieces : List (List α)) : Option ℕ :=
  scan (· ++ ·) (EndsWith words) text pieces

/-- The pieces that are shown. -/
def shown (words : List (List α)) (text : List α) (pieces : List (List α)) : List (List α) :=
  match haltAt words text pieces with
  | some k => pieces.take k
  | none => pieces

theorem haltAt_eq_some_iff {pieces : List (List α)} {k : ℕ} :
    haltAt words [] pieces = some k ↔ k < pieces.length ∧
      EndsWith words (pieces.take (k + 1)).flatten ∧
      ∀ j, j < k → ¬ EndsWith words (pieces.take (j + 1)).flatten := by
  simp only [haltAt, scan_eq_some_iff, foldl_append, List.nil_append]

theorem haltAt_eq_none_iff {pieces : List (List α)} :
    haltAt words [] pieces = none ↔
      ∀ j, j < pieces.length → ¬ EndsWith words (pieces.take (j + 1)).flatten := by
  simp only [haltAt, scan_eq_none_iff, foldl_append, List.nil_append]

theorem haltAt_cons (words : List (List α)) (text piece : List α) (pieces : List (List α)) :
    haltAt words text (piece :: pieces) =
      if EndsWith words (text ++ piece) then some 0
      else (haltAt words (text ++ piece) pieces).map (· + 1) := rfl

@[simp]
theorem shown_nil (words : List (List α)) (text : List α) : shown words text [] = [] := rfl

theorem shown_cons (words : List (List α)) (text piece : List α) (pieces : List (List α)) :
    shown words text (piece :: pieces) =
      if EndsWith words (text ++ piece) then []
      else piece :: shown words (text ++ piece) pieces := by
  unfold shown
  rw [haltAt_cons]
  by_cases h : EndsWith words (text ++ piece)
  · rw [if_pos h, if_pos h]
    rfl
  · rw [if_neg h, if_neg h]
    cases haltAt words (text ++ piece) pieces <;> rfl

/-- Without words everything is shown. -/
theorem shown_no_words (text : List α) (pieces : List (List α)) : shown [] text pieces = pieces := by
  have hnone : ∀ text : List α, ¬ EndsWith [] text := fun text ⟨_, hmem, _⟩ => List.not_mem_nil hmem
  induction pieces generalizing text with
  | nil => rfl
  | cons piece pieces ih => rw [shown_cons, if_neg (hnone _), ih]

/-- A reader that halted does not see what follows. -/
theorem shown_append {text : List α} {pieces : List (List α)} (h : haltAt words text pieces ≠ none)
    (rest : List (List α)) : shown words text (pieces ++ rest) = shown words text pieces := by
  obtain ⟨k, hk⟩ := Option.ne_none_iff_exists'.mp h
  have hlt := (scan_eq_some_iff.mp hk).1
  have hk' : haltAt words text (pieces ++ rest) = some k := scan_append hk rest
  unfold shown
  rw [hk, hk']
  exact List.take_append_of_le_length (Nat.le_of_lt hlt)

/-- **A reader that halts** shows the text up to the first word iff that word is clean. -/
theorem withheld_of_halt {pieces : List (List α)} {k : ℕ} {stopped : Prop} (hstopped : stopped)
    (hhalt : haltAt words [] pieces = some k) :
    Withheld words pieces.flatten (pieces.take k).flatten stopped ↔ Clean words pieces := by
  obtain ⟨hk, hends, hbefore⟩ := haltAt_eq_some_iff.mp hhalt
  obtain ⟨i₀, hi₀, -⟩ := hends.occursAt_lt
  constructor
  · intro h
    obtain ⟨i, hi⟩ := exists_isLeast hi₀
    have hlen := congrArg List.length (h.cut i hi).1
    rw [List.length_take, Nat.min_eq_left (Nat.le_of_lt hi.1.lt)] at hlen
    exact Or.inr ⟨k, hk, hlen ▸ hi, hends⟩
  · rintro (hnone | ⟨k', hk', hleast, hends'⟩)
    · exact absurd hi₀ (hnone i₀)
    have hle : k ≤ k' := Nat.le_of_not_lt fun hlt => hbefore k' hlt hends'
    obtain rfl : k = k' := by
      by_contra hne
      obtain ⟨i, hi, hlt⟩ := hends.occursAt_lt
      have hmono := length_flatten_take_le pieces (show k + 1 ≤ k' by omega)
      exact absurd (hleast.2 hi) (by omega)
    refine ⟨fun i hi => ?_, fun i hi => ⟨?_, hstopped⟩⟩
    · have hlt := hi.lt
      have hocc : OccursAt words pieces.flatten i := by
        rw [flatten_take_append pieces k]
        exact hi.append
      exact absurd (hleast.2 hocc) (Nat.not_le_of_lt hlt)
    · rw [hi.unique hleast, take_length_flatten]

/-- **What a reader shows** has no word in it, and is the text up to the first word if there is one,
    iff the pieces are clean. -/
theorem withheld_iff_clean {pieces : List (List α)} {stopped : Prop}
    (hstopped : haltAt words [] pieces ≠ none → stopped) :
    Withheld words pieces.flatten (shown words [] pieces).flatten stopped ↔ Clean words pieces := by
  unfold shown
  rcases hhalt : haltAt words [] pieces with _ | k
  · have hnone := haltAt_eq_none_iff.mp hhalt
    constructor
    · exact fun h => Or.inl h.free
    · rintro (hfree | ⟨k, hk, -, hends⟩)
      · exact ⟨hfree, fun i hi => absurd hi.1 (hfree i)⟩
      · exact absurd hends (hnone k hk)
  · exact withheld_of_halt (hstopped (by rw [hhalt]; exact Option.some_ne_none k)) hhalt

end Reader

end Flour.Lib.StopWords
