/-
  File:      Flour/Lib/Paging.lean
  Subject:   Translation of positions through a table of pages. Names nothing of the program.

  * `translate pages size pos` -- the address of a position, in the page its number selects;
  * `translate_append`, `translate_append_right` -- with more pages, the earlier positions keep
    their addresses, and the later ones are those of the further pages;
  * **`translate_inj`** -- a position in a page that the table lists once shares its address with
    no other position; `nodup_translate` is the same for a range of positions;
  * **`flatMap_pages`** -- the addresses of the first positions, page by page, the last page as far as
    it is used.
-/
import Mathlib.Data.List.GetD
import Mathlib.Data.List.NodupEquivFin
import Mathlib.Data.List.Range
import Mathlib.Data.Nat.Notation

namespace Flour.Lib

/-- The address of a position. -/
def translate (pages : List ℕ) (size pos : ℕ) : ℕ := pages.getD (pos / size) 0 * size + pos % size

section Translate

variable {pages : List ℕ} {size pos pos' : ℕ}

theorem page_lt (h : pos < pages.length * size) : pos / size < pages.length :=
  Nat.div_lt_of_lt_mul (by rwa [Nat.mul_comm])

theorem translate_div (hs : 0 < size) (pages : List ℕ) (pos : ℕ) :
    translate pages size pos / size = pages.getD (pos / size) 0 := by
  unfold translate
  rw [Nat.mul_comm, Nat.mul_add_div hs, Nat.div_eq_of_lt (Nat.mod_lt _ hs), Nat.add_zero]

theorem translate_mod (pages : List ℕ) (pos : ℕ) : translate pages size pos % size = pos % size := by
  unfold translate
  rw [Nat.mul_comm, Nat.mul_add_mod, Nat.mod_mod]

/-- An address inside a page. -/
theorem page_div {j : ℕ} (hj : j < size) (p : ℕ) : (p * size + j) / size = p := by
  rw [Nat.mul_comm, Nat.mul_add_div (Nat.zero_lt_of_lt hj), Nat.div_eq_of_lt hj, Nat.add_zero]

theorem translate_page {j : ℕ} (hj : j < size) (pages : List ℕ) (b : ℕ) :
    translate pages size (b * size + j) = pages.getD b 0 * size + j := by
  rw [translate, page_div hj, Nat.mul_add_mod_of_lt hj]

/-- The positions of the first pages keep their addresses. -/
theorem translate_append (h : pos < pages.length * size) (pages' : List ℕ) :
    translate (pages ++ pages') size pos = translate pages size pos := by
  unfold translate
  rw [List.getD_append _ _ _ _ (page_lt h)]

/-- The positions after them are those of the further pages. -/
theorem translate_append_right (hs : 0 < size) (pages pages' : List ℕ) (j : ℕ) :
    translate (pages ++ pages') size (pages.length * size + j) = translate pages' size j := by
  unfold translate
  rw [Nat.mul_comm pages.length, Nat.mul_add_div hs, Nat.mul_add_mod,
    List.getD_append_right _ _ _ _ (Nat.le_add_right _ _), Nat.add_sub_cancel_left]

theorem getD_mem (h : pos < pages.length * size) : pages.getD (pos / size) 0 ∈ pages := by
  rw [List.getD_eq_getElem _ _ (page_lt h)]
  exact List.getElem_mem _

/-- Addresses are within the pages. -/
theorem translate_lt {n : ℕ} (hp : ∀ p ∈ pages, p < n) (h : pos < pages.length * size) :
    translate pages size pos < n * size := by
  have hs : 0 < size := by
    rcases Nat.eq_zero_or_pos size with rfl | hs
    · exact absurd h (Nat.not_lt_zero _)
    · exact hs
  unfold translate
  calc pages.getD (pos / size) 0 * size + pos % size
      < pages.getD (pos / size) 0 * size + size := Nat.add_lt_add_left (Nat.mod_lt _ hs) _
    _ = (pages.getD (pos / size) 0 + 1) * size := (Nat.succ_mul _ _).symm
    _ ≤ n * size := Nat.mul_le_mul_right size (hp _ (getD_mem h))

/-- The entry of a page that is listed once is at one place only. -/
theorem index_eq_of_count_one {i j p : ℕ} (hc : pages.count p = 1) (hi : pages[i]? = some p)
    (hj : pages[j]? = some p) : i = j := by
  by_contra hne
  obtain ⟨hil, hi⟩ := List.getElem?_eq_some_iff.mp hi
  obtain ⟨hjl, hj⟩ := List.getElem?_eq_some_iff.mp hj
  have hdup : pages.Duplicate p := by
    rw [List.duplicate_iff_exists_distinct_get]
    rcases Nat.lt_or_gt_of_ne hne with hlt | hlt
    · exact ⟨⟨i, hil⟩, ⟨j, hjl⟩, hlt, hi.symm, hj.symm⟩
    · exact ⟨⟨j, hjl⟩, ⟨i, hil⟩, hlt, hj.symm, hi.symm⟩
  have := List.duplicate_iff_two_le_count.mp hdup
  omega

/-- **Positions in a page of their own** have an address of their own. -/
theorem translate_inj (hpos : pos < pages.length * size) (hpos' : pos' < pages.length * size)
    (hc : pages.count (pages.getD (pos / size) 0) = 1)
    (h : translate pages size pos = translate pages size pos') : pos = pos' := by
  have hs : 0 < size := by
    rcases Nat.eq_zero_or_pos size with rfl | hs
    · exact absurd hpos (Nat.not_lt_zero _)
    · exact hs
  have hpage : pages.getD (pos / size) 0 = pages.getD (pos' / size) 0 := by
    rw [← translate_div hs, ← translate_div hs, h]
  have hi : pages[pos / size]? = some (pages.getD (pos / size) 0) := by
    rw [List.getD_eq_getElem _ _ (page_lt hpos)]
    exact List.getElem?_eq_getElem _
  have hj : pages[pos' / size]? = some (pages.getD (pos / size) 0) := by
    rw [hpage, List.getD_eq_getElem _ _ (page_lt hpos')]
    exact List.getElem?_eq_getElem _
  have hdiv := index_eq_of_count_one hc hi hj
  have hmod : pos % size = pos' % size := by
    rw [← translate_mod pages pos, h, translate_mod]
  rw [← Nat.div_add_mod pos size, hdiv, hmod, Nat.div_add_mod]

/-- A range of positions whose pages are listed once has distinct addresses. -/
theorem nodup_translate {start n : ℕ} (h : start + n ≤ pages.length * size)
    (hc : ∀ pos, start ≤ pos → pos < start + n → pages.count (pages.getD (pos / size) 0) = 1) :
    ((List.range' start n).map (translate pages size)).Nodup := by
  refine List.Nodup.map_on (fun x hx y hy hxy => ?_) List.nodup_range'
  rw [List.mem_range'_1] at hx hy
  exact translate_inj (by omega) (by omega) (hc x hx.1 hx.2) hxy

/-- A range in pages: the positions of each of the first `m` pages that are below `n`. -/
theorem flatMap_page_range (n size m : ℕ) :
    ((List.range m).flatMap fun b => List.range' (b * size) (min size (n - b * size))) =
      List.range (min n (m * size)) := by
  induction m with
  | zero => rw [Nat.zero_mul, Nat.min_zero]; rfl
  | succ m ih =>
    have hnext : min n (m * size) + min size (n - m * size) = min n ((m + 1) * size) := by
      rw [Nat.succ_mul]
      omega
    rw [List.range_succ, List.flatMap_append, ih, List.flatMap_singleton, ← hnext]
    by_cases hn : m * size ≤ n
    · rw [Nat.min_eq_right hn, List.range_eq_range', List.range_eq_range', ← List.range'_append_1,
        Nat.zero_add]
    · have hempty : n - m * size = 0 := by omega
      rw [hempty, Nat.min_zero, List.range'_zero, List.append_nil, Nat.add_zero]

/-- **The addresses of the first `n` positions**, page by page. -/
theorem flatMap_pages {α : Type} (f : ℕ → α) (pages : List ℕ) {n m : ℕ} (hn : n ≤ m * size) :
    ((List.range m).flatMap fun b =>
      (List.range (min size (n - b * size))).map fun j => f (pages.getD b 0 * size + j)) =
      (List.range n).map fun pos => f (translate pages size pos) := by
  rw [← Nat.min_eq_left hn, ← flatMap_page_range, List.map_flatMap, Nat.min_eq_left hn]
  refine List.flatMap_congr fun b _ => ?_
  rw [List.range'_eq_map_range, List.map_map]
  refine List.map_congr_left fun j hj => ?_
  have hj : j < size := Nat.lt_of_lt_of_le (List.mem_range.mp hj) (Nat.min_le_left _ _)
  rw [Function.comp_apply, translate_page hj]

end Translate

end Flour.Lib
