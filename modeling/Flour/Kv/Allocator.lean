/-
  File:      Flour/Kv/Allocator.lean
  Subject:   `BlockAllocator` of `src/models/common/paged.rs`: physical block ids with reference
             counts and a free list.

  * An operation that can panic (an index out of range, a count below zero) returns an `Option`:
    `none` is the panic.
  * `Tracks a owners` -- the invariant: the count of every id is the number of times it is owned,
    and the free list consists, without duplicates, of the ids nobody owns. `owners` is a multiset
    because one id can be owned several times.
  * `Tracks.allocate`, `Tracks.incref`, `Tracks.decref` -- what each operation does to it; none
    of them panics under it. `Tracks.refCounts_eq`, `Tracks.free_perm` -- the owners determine the
    counts and the free blocks.
-/
import Mathlib.Data.Finset.Card
import Mathlib.Data.Multiset.Count

namespace Flour.Kv

structure BlockAllocator where
  /-- The free ids, from the end of the vector: the head is popped next. -/
  free : List ℕ
  refCounts : List ℕ
  deriving DecidableEq, Repr

namespace BlockAllocator

/-- The vector is the reversed range, so the first `allocate` returns block 0. -/
def new (numBlocks : ℕ) : BlockAllocator :=
  { free := List.range numBlocks, refCounts := List.replicate numBlocks 0 }

/-- Pops a free id and gives it its first reference; the inner `none` is an exhausted pool. -/
def allocate (a : BlockAllocator) : Option (Option ℕ × BlockAllocator) :=
  match a.free with
  | [] => some (none, a)
  | id :: free =>
    if id < a.refCounts.length then
      some (some id, { free, refCounts := a.refCounts.set id 1 })
    else none

def incref (a : BlockAllocator) (id : ℕ) : Option BlockAllocator :=
  a.refCounts[id]?.map fun n => { a with refCounts := a.refCounts.set id (n + 1) }

/-- Drops one reference; the flag says whether the block was freed. -/
def decref (a : BlockAllocator) (id : ℕ) : Option (Bool × BlockAllocator) :=
  match a.refCounts[id]? with
  | some (n + 1) =>
    let refCounts := a.refCounts.set id n
    if n = 0 then some (true, { free := id :: a.free, refCounts })
    else some (false, { a with refCounts })
  | _ => none

def numFree (a : BlockAllocator) : ℕ := a.free.length

/-- The number of blocks, free or not. -/
def size (a : BlockAllocator) : ℕ := a.refCounts.length

/-! ## 1. Who owns what -/

/-- **The allocator tracks its owners.** -/
structure Tracks (a : BlockAllocator) (owners : Multiset ℕ) : Prop where
  count : ∀ id, id < a.size → a.refCounts[id]? = some (owners.count id)
  inRange : ∀ id ∈ owners, id < a.size
  nodup : a.free.Nodup
  free : ∀ id, id ∈ a.free ↔ id < a.size ∧ id ∉ owners

theorem tracks_new (numBlocks : ℕ) : (new numBlocks).Tracks 0 := by
  refine ⟨fun id hid => ?_, fun id hid => absurd hid (Multiset.notMem_zero id), List.nodup_range,
    fun id => ?_⟩
  · have hlt : id < numBlocks := by simpa [size, new] using hid
    simp [new, hlt]
  · simp [new, size]

theorem size_set (a : BlockAllocator) (free : List ℕ) (id n : ℕ) :
    size { free, refCounts := a.refCounts.set id n } = a.size := by
  simp [size]

section Tracks

variable {a : BlockAllocator} {owners : Multiset ℕ}

/-- **Allocating** the head of the free list: it was nobody's, and gets one owner. -/
theorem Tracks.allocate (h : a.Tracks owners) {id : ℕ} {free : List ℕ} (hf : a.free = id :: free) :
    ∃ a', a.allocate = some (some id, a') ∧ a'.Tracks (id ::ₘ owners) ∧ a'.free = free ∧
      a'.size = a.size ∧ id < a.size ∧ id ∉ owners := by
  obtain ⟨hid, hnew⟩ := (h.free id).mp (hf ▸ List.mem_cons_self)
  have hnd := h.nodup
  rw [hf, List.nodup_cons] at hnd
  refine ⟨{ free, refCounts := a.refCounts.set id 1 }, ?_, ?_, rfl, size_set a free id 1, hid, hnew⟩
  · unfold BlockAllocator.allocate
    rw [hf]
    exact if_pos hid
  · refine ⟨fun x hx => ?_, fun x hx => ?_, hnd.2, fun x => ?_⟩
    · rw [size_set] at hx
      by_cases hxi : x = id
      · subst hxi
        have hc : owners.count x = 0 := Multiset.count_eq_zero.mpr hnew
        simp [List.getElem?_set_self hx, hc]
      · rw [List.getElem?_set_ne (Ne.symm hxi), h.count x hx, Multiset.count_cons_of_ne hxi]
    · rw [size_set]
      rcases Multiset.mem_cons.mp hx with rfl | hx
      · exact hid
      · exact h.inRange x hx
    · have hmem := h.free x
      rw [hf, List.mem_cons] at hmem
      rw [size_set, Multiset.mem_cons]
      constructor
      · intro hx
        have hne : x ≠ id := fun he => hnd.1 (he ▸ hx)
        obtain ⟨hlt, hno⟩ := hmem.mp (Or.inr hx)
        exact ⟨hlt, fun ho => ho.elim hne hno⟩
      · rintro ⟨hlt, hno⟩
        exact (hmem.mpr ⟨hlt, fun ho => hno (Or.inr ho)⟩).resolve_left fun he => hno (Or.inl he)

/-- **A reference more** for an id that is owned. -/
theorem Tracks.incref (h : a.Tracks owners) {id : ℕ} (hid : id ∈ owners) :
    ∃ a', a.incref id = some a' ∧ a'.Tracks (id ::ₘ owners) ∧ a'.free = a.free ∧
      a'.size = a.size := by
  have hlt := h.inRange id hid
  refine ⟨{ a with refCounts := a.refCounts.set id (owners.count id + 1) }, ?_, ?_, rfl,
    size_set a a.free id _⟩
  · unfold BlockAllocator.incref
    rw [h.count id hlt]
    rfl
  · refine ⟨fun x hx => ?_, fun x hx => ?_, h.nodup, fun x => ?_⟩
    · rw [size_set] at hx
      by_cases hxi : x = id
      · subst hxi
        simp [List.getElem?_set_self hx]
      · rw [List.getElem?_set_ne (Ne.symm hxi), h.count x hx, Multiset.count_cons_of_ne hxi]
    · rw [size_set]
      rcases Multiset.mem_cons.mp hx with rfl | hx
      · exact hlt
      · exact h.inRange x hx
    · rw [size_set, h.free x, Multiset.mem_cons]
      constructor
      · rintro ⟨hx, hno⟩
        exact ⟨hx, fun ho => ho.elim (fun he => hno (he ▸ hid)) hno⟩
      · rintro ⟨hx, hno⟩
        exact ⟨hx, fun ho => hno (Or.inr ho)⟩

/-- **A reference less** for an id that is owned: it is freed with its last owner. -/
theorem Tracks.decref {id : ℕ} (h : a.Tracks (id ::ₘ owners)) :
    ∃ freed a', a.decref id = some (freed, a') ∧ a'.Tracks owners ∧ a'.size = a.size ∧
      a'.free = if id ∈ owners then a.free else id :: a.free := by
  have hlt := h.inRange id (Multiset.mem_cons_self id owners)
  have hcount : a.refCounts[id]? = some (owners.count id + 1) := by
    rw [h.count id hlt, Multiset.count_cons_self]
  have hcounts : ∀ x, x < a.size → (a.refCounts.set id (owners.count id))[x]? =
      some (owners.count x) := by
    intro x hx
    by_cases hxi : x = id
    · subst hxi
      exact List.getElem?_set_self hx
    · rw [List.getElem?_set_ne (Ne.symm hxi), h.count x hx, Multiset.count_cons_of_ne hxi]
  have hrange : ∀ x ∈ owners, x < a.size := fun x hx => h.inRange x (Multiset.mem_cons_of_mem hx)
  unfold BlockAllocator.decref
  rw [hcount]
  by_cases hno : owners.count id = 0
  · have hid : id ∉ owners := Multiset.count_eq_zero.mp hno
    refine ⟨true, { free := id :: a.free, refCounts := a.refCounts.set id (owners.count id) },
      by simp [hno], ?_, size_set a _ id _, by rw [if_neg hid]⟩
    refine ⟨fun x hx => ?_, fun x hx => ?_, ?_, fun x => ?_⟩
    · rw [size_set] at hx
      exact hcounts x hx
    · rw [size_set]
      exact hrange x hx
    · refine List.nodup_cons.mpr ⟨fun hx => ?_, h.nodup⟩
      exact ((h.free id).mp hx).2 (Multiset.mem_cons_self id owners)
    · rw [size_set, List.mem_cons, h.free x, Multiset.mem_cons]
      constructor
      · rintro (rfl | ⟨hx, hn⟩)
        · exact ⟨hlt, hid⟩
        · exact ⟨hx, fun ho => hn (Or.inr ho)⟩
      · rintro ⟨hx, hn⟩
        by_cases hxi : x = id
        · exact Or.inl hxi
        · exact Or.inr ⟨hx, fun ho => ho.elim hxi hn⟩
  · have hid : id ∈ owners := Multiset.count_ne_zero.mp hno
    refine ⟨false, { a with refCounts := a.refCounts.set id (owners.count id) },
      by simp [hno], ?_, size_set a _ id _, by rw [if_pos hid]⟩
    refine ⟨fun x hx => ?_, fun x hx => ?_, h.nodup, fun x => ?_⟩
    · rw [size_set] at hx
      exact hcounts x hx
    · rw [size_set]
      exact hrange x hx
    · rw [size_set, h.free x, Multiset.mem_cons]
      constructor
      · rintro ⟨hx, hn⟩
        exact ⟨hx, fun ho => hn (Or.inr ho)⟩
      · rintro ⟨hx, hn⟩
        exact ⟨hx, fun ho => hn (ho.elim (fun he => he ▸ hid) fun ho => ho)⟩

/-- **Every block is free or owned.** -/
theorem Tracks.numFree_add_owned (h : a.Tracks owners) :
    a.numFree + owners.toFinset.card = a.size := by
  have hfree : a.free.toFinset = Finset.range a.size \ owners.toFinset := by
    ext id
    rw [List.mem_toFinset, h.free id, Finset.mem_sdiff, Finset.mem_range, Multiset.mem_toFinset]
  have hsub : owners.toFinset ⊆ Finset.range a.size := fun id hid =>
    Finset.mem_range.mpr (h.inRange id (Multiset.mem_toFinset.mp hid))
  have hcard := Finset.card_sdiff_add_card_eq_card hsub
  rw [← hfree, List.toFinset_card_of_nodup h.nodup, Finset.card_range] at hcard
  exact hcard

/-- The owners determine the counts. -/
theorem Tracks.refCounts_eq {b : BlockAllocator} (h : a.Tracks owners) (hb : b.Tracks owners)
    (hs : b.size = a.size) : b.refCounts = a.refCounts := by
  refine List.ext_getElem? fun id => ?_
  by_cases hid : id < a.size
  · rw [h.count id hid, hb.count id (by rwa [hs])]
  · have hnone : b.refCounts[id]? = none := List.getElem?_eq_none (by
      have : b.refCounts.length = a.refCounts.length := hs
      unfold size at hid
      omega)
    rw [hnone, List.getElem?_eq_none (Nat.le_of_not_lt hid)]

/-- And they determine which blocks are free, if not their order. -/
theorem Tracks.free_perm {b : BlockAllocator} (h : a.Tracks owners) (hb : b.Tracks owners)
    (hs : b.size = a.size) : b.free.Perm a.free := by
  refine (List.perm_ext_iff_of_nodup hb.nodup h.nodup).mpr fun id => ?_
  rw [hb.free id, h.free id, hs]

end Tracks

end BlockAllocator

end Flour.Kv
