/-
  File:      Flour/Lib/Segments.lean
  Subject:   Lists that are read in segments: a first symbol, and the longest run of symbols that it
             wants after it. Names nothing of the program.

  * `segments wants l` -- the segments of a list, where a first symbol `a` wants one symbol for each
    of the tests `wants a`, in order; `pending` -- the tests still open at the end of a list;
  * `Continues wants l m` -- `m` starts with a symbol that `l` still wants;
  * `segments_append` -- if it does not, the segments of `l ++ m` are those of `l` and those of `m`;
    `length_segments_append_lt` -- if it does, they are fewer, as long as a wanted symbol wants
    nothing itself (`Alone`);
  * **`unsplit_of_length`**, **`segments_flatten`** -- so a list of words is read word by word as it
    is read at once exactly if no word continues the ones before it.
-/
import Mathlib.Data.List.Basic
import Mathlib.Data.List.Induction

namespace Flour.Lib.Segments

variable {α : Type}

/-- The segments of the rest, where `cur` is the current one and `tests` are its open tests. -/
def segmentsFrom (wants : α → List (α → Bool)) (cur : List α) :
    List (α → Bool) → List α → List (List α)
  | _, [] => [cur]
  | [], b :: l => cur :: segmentsFrom wants [b] (wants b) l
  | p :: tests, b :: l =>
    if p b then segmentsFrom wants (cur ++ [b]) tests l
    else cur :: segmentsFrom wants [b] (wants b) l

def segments (wants : α → List (α → Bool)) : List α → List (List α)
  | [] => []
  | a :: l => segmentsFrom wants [a] (wants a) l

/-- The tests that are open after a list. -/
def pendingFrom (wants : α → List (α → Bool)) : List (α → Bool) → List α → List (α → Bool)
  | tests, [] => tests
  | [], b :: l => pendingFrom wants (wants b) l
  | p :: tests, b :: l => if p b then pendingFrom wants tests l else pendingFrom wants (wants b) l

def pending (wants : α → List (α → Bool)) (l : List α) : List (α → Bool) := pendingFrom wants [] l

/-- The first open test accepts the first symbol. -/
def accepts : List (α → Bool) → List α → Bool
  | p :: _, b :: _ => p b
  | _, _ => false

theorem accepts_append {tests : List (α → Bool)} {m : List α} (h : accepts tests m = true)
    (rest : List α) : accepts tests (m ++ rest) = true := by
  cases tests <;> cases m <;> first | exact h | cases h

theorem accepts_of_append {tests : List (α → Bool)} {b : α} {m rest : List α}
    (h : accepts tests (b :: m ++ rest) = true) : accepts tests (b :: m) = true := by
  cases tests <;> exact h

/-- A symbol that is wanted wants nothing itself. -/
def Alone (wants : α → List (α → Bool)) : Prop :=
  ∀ a, ∀ p ∈ wants a, ∀ b, p b = true → wants b = []

def Continues (wants : α → List (α → Bool)) (l m : List α) : Prop :=
  accepts (pending wants l) m = true

instance (wants : α → List (α → Bool)) (l m : List α) : Decidable (Continues wants l m) :=
  inferInstanceAs (Decidable (_ = true))

/-- No word continues those before it. -/
def Unsplit (wants : α → List (α → Bool)) (words : List (List α)) : Prop :=
  ∀ k, k < words.length → ¬ Continues wants (words.take k).flatten (words.drop k).flatten

instance (wants : α → List (α → Bool)) (words : List (List α)) : Decidable (Unsplit wants words) :=
  inferInstanceAs (Decidable (∀ k, k < words.length → ¬ _))

variable {wants : α → List (α → Bool)}

/-! ## 1. Two lists -/

theorem segmentsFrom_append (cur : List α) (tests : List (α → Bool)) (l m : List α)
    (h : accepts (pendingFrom wants tests l) m = false) :
    segmentsFrom wants cur tests (l ++ m) = segmentsFrom wants cur tests l ++ segments wants m := by
  induction l generalizing cur tests with
  | nil =>
    cases m with
    | nil => cases tests <;> rfl
    | cons b m =>
      cases tests with
      | nil => rfl
      | cons p tests =>
        have hp : p b = false := h
        simp [segmentsFrom, segments, hp]
  | cons b l ih =>
    cases tests with
    | nil => exact congrArg (cur :: ·) (ih [b] (wants b) h)
    | cons p tests =>
      rw [List.cons_append, segmentsFrom, segmentsFrom]
      rw [pendingFrom] at h
      by_cases hp : p b = true
      · rw [if_pos hp] at h ⊢
        rw [if_pos hp]
        exact ih _ _ h
      · rw [if_neg hp] at h ⊢
        rw [if_neg hp]
        exact congrArg (cur :: ·) (ih [b] (wants b) h)

/-- **A list that is not continued** is read on its own. -/
theorem segments_append {l m : List α} (h : ¬ Continues wants l m) :
    segments wants (l ++ m) = segments wants l ++ segments wants m := by
  cases l with
  | nil => rfl
  | cons a l => exact segmentsFrom_append [a] (wants a) l m (Bool.eq_false_iff.mpr h)

/-- Tests that were wanted by some symbol. -/
def Wanted (wants : α → List (α → Bool)) (tests : List (α → Bool)) : Prop :=
  ∀ p ∈ tests, ∃ a, p ∈ wants a

theorem wanted_wants (a : α) : Wanted wants (wants a) := fun _ hp => ⟨a, hp⟩

/-- Open tests make no more segments of a list than there are without them. -/
theorem length_segmentsFrom_le (halone : Alone wants) (m : List α) (cur cur' : List α)
    (tests : List (α → Bool)) (h : Wanted wants tests) :
    (segmentsFrom wants cur tests m).length ≤ (segmentsFrom wants cur' [] m).length := by
  induction m generalizing cur cur' tests with
  | nil => cases tests <;> exact Nat.le_refl _
  | cons b m ih =>
    cases tests with
    | nil => exact Nat.le_refl _
    | cons p tests =>
      show (if p b = true then segmentsFrom wants (cur ++ [b]) tests m
        else cur :: segmentsFrom wants [b] (wants b) m).length ≤
        (segmentsFrom wants [b] (wants b) m).length + 1
      by_cases hp : p b = true
      · obtain ⟨⟨a, ha⟩, htests⟩ := List.forall_mem_cons.mp h
        have hb : wants b = [] := halone a p ha b hp
        rw [if_pos hp, hb]
        exact Nat.le_succ_of_le (ih _ _ tests htests)
      · rw [if_neg hp]
        exact Nat.le_refl _

theorem length_segmentsFrom_append_lt (halone : Alone wants) (l m : List α) (cur : List α)
    (tests : List (α → Bool)) (hwanted : Wanted wants tests)
    (h : accepts (pendingFrom wants tests l) m = true) :
    (segmentsFrom wants cur tests (l ++ m)).length <
      (segmentsFrom wants cur tests l).length + (segments wants m).length := by
  induction l generalizing cur tests with
  | nil =>
    cases m with
    | nil => cases tests <;> cases h
    | cons b m =>
      cases tests with
      | nil => cases h
      | cons p tests =>
        have hp : p b = true := h
        obtain ⟨⟨a, ha⟩, htests⟩ := List.forall_mem_cons.mp hwanted
        have hb : wants b = [] := halone a p ha b hp
        have hle := length_segmentsFrom_le halone m (cur ++ [b]) [b] tests htests
        show (segmentsFrom wants cur (p :: tests) (b :: m)).length <
          1 + (segmentsFrom wants [b] (wants b) m).length
        rw [segmentsFrom, if_pos hp, hb]
        omega
  | cons b l ih =>
    cases tests with
    | nil =>
      have hlt := ih [b] (wants b) (wanted_wants b) h
      show (segmentsFrom wants [b] (wants b) (l ++ m)).length + 1 <
        (segmentsFrom wants [b] (wants b) l).length + 1 + _
      omega
    | cons p tests =>
      rw [List.cons_append, segmentsFrom, segmentsFrom]
      rw [pendingFrom] at h
      by_cases hp : p b = true
      · rw [if_pos hp] at h ⊢
        rw [if_pos hp]
        exact ih _ tests (List.forall_mem_cons.mp hwanted).2 h
      · rw [if_neg hp] at h ⊢
        rw [if_neg hp]
        have hlt := ih [b] (wants b) (wanted_wants b) h
        rw [List.length_cons, List.length_cons]
        omega

/-- **A list that is continued** is read in fewer segments. -/
theorem length_segments_append_lt (halone : Alone wants) {l m : List α} (h : Continues wants l m) :
    (segments wants (l ++ m)).length < (segments wants l).length + (segments wants m).length := by
  cases l with
  | nil => cases m <;> cases h
  | cons a l => exact length_segmentsFrom_append_lt halone l m [a] (wants a) (wanted_wants a) h

/-! ## 2. Lists of words -/

theorem length_segments_append_le (halone : Alone wants) (l m : List α) :
    (segments wants (l ++ m)).length ≤ (segments wants l).length + (segments wants m).length := by
  by_cases h : Continues wants l m
  · exact Nat.le_of_lt (length_segments_append_lt halone h)
  · exact Nat.le_of_eq (by rw [segments_append h, List.length_append])

/-- A last word is one more place to split at. -/
theorem unsplit_append_singleton {words : List (List α)} {word : List α} :
    Unsplit wants (words ++ [word]) ↔
      Unsplit wants words ∧ ¬ Continues wants words.flatten word := by
  have hinit : ∀ k, k < words.length → (words ++ [word]).take k = words.take k ∧
      (words ++ [word]).drop k = words.drop k ++ [word] := fun k hk =>
    ⟨List.take_append_of_le_length (Nat.le_of_lt hk), List.drop_append_of_le_length (Nat.le_of_lt hk)⟩
  constructor
  · intro h
    refine ⟨fun k hk hcont => h k (by rw [List.length_append]; omega) ?_, ?_⟩
    · obtain ⟨htake, hdrop⟩ := hinit k hk
      rw [htake, hdrop, List.flatten_append]
      exact accepts_append hcont _
    · have hlast := h words.length (by rw [List.length_append, List.length_singleton]; omega)
      rwa [List.take_left, List.drop_left, List.flatten_singleton] at hlast
  · rintro ⟨hwords, hlast⟩ k hk
    rcases Nat.lt_or_ge k words.length with hlt | hge
    · obtain ⟨htake, hdrop⟩ := hinit k hlt
      rw [htake, hdrop, List.flatten_append, List.flatten_singleton]
      rcases hrest : (words.drop k).flatten with _ | ⟨b, rest⟩
      · -- the words from `k` on are empty
        have hall : (words.take k).flatten = words.flatten := by
          rw [← List.append_nil (words.take k).flatten, ← hrest, ← List.flatten_append,
            List.take_append_drop]
        rw [hall]
        exact hlast
      · have hno := hwords k hlt
        rw [hrest] at hno
        exact fun hcont => hno (accepts_of_append hcont)
    · obtain rfl : k = words.length := by
        rw [List.length_append, List.length_singleton] at hk
        omega
      rw [List.take_left, List.drop_left, List.flatten_singleton]
      exact hlast

/-- **Words that do not continue each other** are read one by one. -/
theorem segments_flatten {words : List (List α)} (h : Unsplit wants words) :
    segments wants words.flatten = words.flatMap (segments wants) := by
  induction words using List.reverseRecOn with
  | nil => rfl
  | append_singleton words word ih =>
    obtain ⟨hwords, hlast⟩ := unsplit_append_singleton.mp h
    rw [List.flatten_append, List.flatMap_append, List.flatten_singleton, List.flatMap_singleton,
      segments_append hlast, ih hwords]

theorem length_segments_flatten_le (halone : Alone wants) (words : List (List α)) :
    (segments wants words.flatten).length ≤ (words.flatMap (segments wants)).length := by
  induction words using List.reverseRecOn with
  | nil => exact Nat.le_refl _
  | append_singleton words word ih =>
    rw [List.flatten_append, List.flatMap_append, List.flatten_singleton, List.flatMap_singleton,
      List.length_append]
    exact Nat.le_trans (length_segments_append_le halone _ _) (Nat.add_le_add_right ih _)

/-- **Words that are read in as many segments as their whole** do not continue each other. -/
theorem unsplit_of_length (halone : Alone wants) {words : List (List α)}
    (h : (words.flatMap (segments wants)).length = (segments wants words.flatten).length) :
    Unsplit wants words := by
  induction words using List.reverseRecOn with
  | nil => exact fun k hk => absurd hk (Nat.not_lt_zero k)
  | append_singleton words word ih =>
    rw [List.flatten_append, List.flatMap_append, List.flatten_singleton, List.flatMap_singleton,
      List.length_append] at h
    have hle := length_segments_flatten_le halone words
    have hlast : ¬ Continues wants words.flatten word := fun hcont => by
      have hlt := length_segments_append_lt halone hcont
      omega
    rw [segments_append hlast, List.length_append] at h
    exact unsplit_append_singleton.mpr ⟨ih (by omega), hlast⟩

end Flour.Lib.Segments
