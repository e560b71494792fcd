/-
  File:      Flour/Lib/Url.lean
  Subject:   URLs, as a client writes them and as they arrive. Names nothing of the program.

  * `removeDots` -- what becomes of the segments `.` and `..` of a path;
  * `Urls` -- a reader of URLs; `Urls.Lawful` -- it reads back an origin, segments of unreserved
    characters and escapes, and the text of a query;
  * `plainUrls` -- one for origins without a path, as an instance.
-/
import Flour.Lib.Percent
import Mathlib.Data.List.TakeWhile

namespace Flour.Lib.Url

open Percent

/-! ## 1. Parts -/

structure Target where
  origin : String
  path : List String
  query : String

def pathChar (c : Char) : Bool :=
  ('A' ≤ c && c ≤ 'Z') || ('a' ≤ c && c ≤ 'z') || ('0' ≤ c && c ≤ '9') || c ∈ ['-', '_', '.', '~']

/-- The characters of a value of a form, and those of a form. -/
def formChar (c : Char) : Bool := pathChar c || c ∈ ['*', '+']
def queryChar (c : Char) : Bool := formChar c || c ∈ ['=', '&']

/-- The segments that are read as dots though they are written with escapes. -/
def escapedDots : List String :=
  ["%2e", "%2E", ".%2e", ".%2E", "%2e.", "%2E.", "%2e%2e", "%2e%2E", "%2E%2e", "%2E%2E"]

theorem formChar_ascii {c : Char} (h : formChar c = true) : c.toNat < 128 := by
  simp only [formChar, pathChar, Bool.or_eq_true, Bool.and_eq_true, decide_eq_true_eq, Char.le_def,
    UInt32.le_iff_toNat_le, List.mem_cons, List.not_mem_nil, or_false] at h
  rcases h with (((⟨-, h⟩ | ⟨-, h⟩) | ⟨-, h⟩) | rfl | rfl | rfl | rfl) | rfl | rfl
  · exact Nat.lt_of_le_of_lt h (by decide)
  · exact Nat.lt_of_le_of_lt h (by decide)
  · exact Nat.lt_of_le_of_lt h (by decide)
  all_goals decide

structure SegmentText (s : String) : Prop where
  escaped : Escaped pathChar s.toList
  dots : s ∉ escapedDots

def QueryText (q : String) : Prop := Escaped queryChar q.toList

/-- The path of some segments; those in front of a segment `..` are in the accumulator. -/
def removeDots : List String → List String → List String
  | acc, [] => acc
  | acc, [s] => if s = ".." then acc.dropLast ++ [""] else if s = "." then acc ++ [""] else acc ++ [s]
  | acc, s :: t :: rest =>
    removeDots (if s = ".." then acc.dropLast else if s = "." then acc else acc ++ [s]) (t :: rest)

/-- A URL. -/
def urlText (origin : String) (segments : List String) (query : String) : String :=
  origin ++ String.join (segments.map ("/" ++ ·)) ++ if query = "" then "" else "?" ++ query

structure Urls where
  Origin : String → Prop
  split : String → Option Target

structure Urls.Lawful (u : Urls) : Prop where
  split {origin : String} {segments : List String} {query : String} (ho : u.Origin origin)
    (hne : segments ≠ []) (hs : ∀ s ∈ segments, SegmentText s) (hq : QueryText query) :
    u.split (urlText origin segments query) = some ⟨origin, removeDots [] segments, query⟩

/-- Without dots the path is the list of its segments. -/
theorem removeDots_eq {segments : List String} (h : ∀ s ∈ segments, s ≠ "." ∧ s ≠ "..") :
    ∀ acc, removeDots acc segments = acc ++ segments := by
  induction segments with
  | nil => exact fun acc => (List.append_nil acc).symm
  | cons s rest ih =>
    intro acc
    obtain ⟨hone, htwo⟩ := h s List.mem_cons_self
    cases rest with
    | nil => simp [removeDots, hone, htwo]
    | cons t rest =>
      rw [removeDots, if_neg htwo, if_neg hone, ih fun s hs => h s (List.mem_cons_of_mem _ hs)]
      simp

theorem escaped_of_all {allowed : Char → Bool} {l : List Char} (h : ∀ c ∈ l, allowed c = true) :
    Escaped allowed l := by
  induction l with
  | nil => exact .nil
  | cons c l ih =>
    exact .keep (h c List.mem_cons_self) (ih fun x hx => h x (List.mem_cons_of_mem _ hx))

theorem escaped_imp {allowed allowed' : Char → Bool} (h : ∀ c, allowed c = true → allowed' c = true)
    {l : List Char} (hl : Escaped allowed l) : Escaped allowed' l := by
  induction hl with
  | nil => exact .nil
  | keep hc _ ih => exact .keep (h _ hc) ih
  | escape hhi hlo _ ih => exact .escape hhi hlo ih

/-- A segment without escapes. -/
theorem segmentText_plain {s : String} (h : s.toList.all pathChar = true) : SegmentText s := by
  have hall := List.all_eq_true.mp h
  refine ⟨escaped_of_all hall, fun hmem => ?_⟩
  have hpercent : ∀ t ∈ escapedDots, '%' ∈ t.toList := by decide
  exact absurd (hall _ (hpercent s hmem)) (by decide)

/-! ## 2. An instance -/

/-- The segments of a path, from its text. -/
def segmentsOf (path : List Char) : List String := (path.splitOn '/').map String.ofList

def plainUrls : Urls where
  Origin o := ∃ host : List Char, o = "http://" ++ String.ofList host ∧ '/' ∉ host
  split url :=
    let rest := url.toList.drop "http://".toList.length
    let path := (rest.dropWhile (· ≠ '/')).drop 1
    some ⟨"http://" ++ String.ofList (rest.takeWhile (· ≠ '/')),
      removeDots [] (segmentsOf (path.takeWhile (· ≠ '?'))),
      String.ofList ((path.dropWhile (· ≠ '?')).drop 1)⟩

theorem segmentsOf_join {s : String} {rest : List String} (hs : '/' ∉ s.toList)
    (hrest : ∀ t ∈ rest, '/' ∉ t.toList) :
    segmentsOf (s.toList ++ rest.flatMap fun t => '/' :: t.toList) = s :: rest := by
  unfold segmentsOf
  induction rest generalizing s with
  | nil => simp [List.splitOn_eq_singleton hs]
  | cons t rest ih =>
    have ht := ih (hrest t List.mem_cons_self) fun t ht => hrest t (List.mem_cons_of_mem _ ht)
    rw [List.flatMap_cons, List.cons_append, List.splitOn_append_cons_self,
      List.splitOn_eq_singleton hs]
    simpa using ht

theorem SegmentText.notMem {s : String} (h : SegmentText s) : '/' ∉ s.toList ∧ '?' ∉ s.toList :=
  ⟨h.escaped.notMem (by decide) (by decide) (by decide),
    h.escaped.notMem (by decide) (by decide) (by decide)⟩

/-- The text of a path without its first slash. -/
def pathText (s : String) (rest : List String) : List Char :=
  s.toList ++ rest.flatMap fun t => '/' :: t.toList

theorem toList_urlText (origin s : String) (rest : List String) (query : String) :
    (urlText origin (s :: rest) query).toList =
      origin.toList ++ '/' :: (pathText s rest ++ if query = "" then [] else '?' :: query.toList) := by
  have hjoin : ∀ l : List String, (String.join (l.map ("/" ++ ·))).toList =
      l.flatMap fun t => '/' :: t.toList := fun l => by
    induction l with
    | nil => rfl
    | cons t l ih => simp [String.join_cons, ih]
  have hquery : (if query = "" then "" else "?" ++ query).toList =
      if query = "" then [] else '?' :: query.toList := by
    split_ifs <;> simp
  unfold urlText pathText
  rw [String.toList_append, String.toList_append, hjoin, hquery]
  simp

/-- Up to a character, and from it on. -/
theorem cut_append {c : Char} {l : List Char} (hl : c ∉ l) (rest : List Char) :
    (l ++ c :: rest).takeWhile (· ≠ c) = l ∧ (l ++ c :: rest).dropWhile (· ≠ c) = c :: rest := by
  have hall : ∀ x ∈ l, decide (x ≠ c) = true := fun x hx => decide_eq_true fun heq => hl (heq ▸ hx)
  rw [List.takeWhile_append_of_pos hall, List.dropWhile_append_of_pos hall]
  simp

theorem plainUrls_lawful : plainUrls.Lawful where
  split {origin segments query} ho hne hs hq := by
    obtain ⟨host, rfl, hhost⟩ := ho
    obtain ⟨s, rest, rfl⟩ := List.exists_cons_of_ne_nil hne
    obtain ⟨hslash, hmark⟩ := (hs s List.mem_cons_self).notMem
    have hrest : ∀ t ∈ rest, '/' ∉ t.toList ∧ '?' ∉ t.toList := fun t ht =>
      (hs t (List.mem_cons_of_mem _ ht)).notMem
    have hno : '?' ∉ pathText s rest := by
      unfold pathText
      simp only [List.mem_append, List.mem_flatMap, List.mem_cons, not_or, not_exists, not_and]
      exact ⟨hmark, fun t ht => ⟨by decide, (hrest t ht).2⟩⟩
    have hpath : segmentsOf (pathText s rest) = s :: rest :=
      segmentsOf_join hslash fun t ht => (hrest t ht).1
    have hdrop : ((urlText ("http://" ++ String.ofList host) (s :: rest) query).toList.drop
        "http://".toList.length) =
        host ++ '/' :: (pathText s rest ++ if query = "" then [] else '?' :: query.toList) := by
      rw [toList_urlText, String.toList_append, List.append_assoc, List.drop_left,
        String.toList_ofList]
    obtain ⟨htake, hdropWhile⟩ := cut_append hhost
      (pathText s rest ++ if query = "" then [] else '?' :: query.toList)
    unfold plainUrls
    dsimp only
    rw [hdrop, htake, hdropWhile, List.drop_succ_cons, List.drop_zero]
    by_cases hquery : query = ""
    · have hall : ∀ x ∈ pathText s rest, decide (x ≠ '?') = true := fun x hx =>
        decide_eq_true fun heq => hno (heq ▸ hx)
      rw [if_pos hquery, List.append_nil, List.takeWhile_eq_self_iff.mpr hall,
        List.dropWhile_eq_nil_iff.mpr hall, hpath, hquery]
      rfl
    · obtain ⟨htake', hdrop'⟩ := cut_append hno query.toList
      rw [if_neg hquery, htake', hdrop', hpath, List.drop_succ_cons, List.drop_zero,
        String.ofList_toList]

end Flour.Lib.Url
