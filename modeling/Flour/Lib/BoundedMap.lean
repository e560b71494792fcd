/-
  File:      Flour/Lib/BoundedMap.lean
  Subject:   Maps whose values fit a capacity together. Names nothing of the program.

  * `BoundedMap size` -- a finite map with the bound as a field, so that an overfull one cannot be
    built; `put` accepts a value exactly when the map with it still fits;
  * `Call`, `Reply`, `call`, `boundedLts` -- sequences of calls with their replies;
  * `capacity_run`, **`get_eq_lastPut`** -- the capacity stays; after every run a key holds the value
    of the last accepted `put` to it that no `delete` of it followed.
-/
import Flour.Lib.FinmapSum
import Flour.Lib.Run

namespace Flour.Lib

variable {K V : Type} [DecidableEq K] {size : V → ℕ}

/-- The size of all values together. -/
def total (size : V → ℕ) (m : Finmap fun _ : K => V) : ℕ := sumBy (fun _ v => size v) m

theorem total_erase_le (m : Finmap fun _ : K => V) (k : K) : total size (m.erase k) ≤ total size m := by
  unfold total
  cases h : m.lookup k with
  | none => exact le_of_eq (sumBy_erase_of_none _ h)
  | some v =>
    rw [sumBy_of_lookup _ h]
    exact Nat.le_add_left _ _

/-- A map whose values have at most the size `capacity` together. -/
structure BoundedMap (K : Type) [DecidableEq K] {V : Type} (size : V → ℕ) where
  capacity : ℕ
  entries : Finmap fun _ : K => V
  fits : total size entries ≤ capacity

namespace BoundedMap

/-- What is called, and what is answered. -/
inductive Call (K V : Type) where
  | put (k : K) (v : V)
  | get (k : K)
  | delete (k : K)

inductive Reply (V : Type) where
  | accepted
  | refused
  | value (v : Option V)
  | deleted

def new (capacity : ℕ) : BoundedMap K size := ⟨capacity, ∅, Nat.zero_le _⟩

/-- The map with `v` at `k` still fits. -/
def HasRoom (m : BoundedMap K size) (k : K) (v : V) : Prop :=
  total size (m.entries.insert k v) ≤ m.capacity

instance (m : BoundedMap K size) (k : K) (v : V) : Decidable (m.HasRoom k v) :=
  inferInstanceAs (Decidable (_ ≤ _))

def put (m : BoundedMap K size) (k : K) (v : V) : Reply V × BoundedMap K size :=
  if h : m.HasRoom k v then (.accepted, ⟨m.capacity, m.entries.insert k v, h⟩) else (.refused, m)

def delete (m : BoundedMap K size) (k : K) : BoundedMap K size :=
  ⟨m.capacity, m.entries.erase k, (total_erase_le m.entries k).trans m.fits⟩

def call (m : BoundedMap K size) : Call K V → Reply V × BoundedMap K size
  | .put k v => m.put k v
  | .get k => (.value (m.entries.lookup k), m)
  | .delete k => (.deleted, m.delete k)

/-- Runs of calls on a new map. -/
def boundedLts (K : Type) [DecidableEq K] {V : Type} (size : V → ℕ) (capacity : ℕ) :
    Lts (BoundedMap K size) (Call K V × Reply V) where
  init m := m = new capacity
  step m e m' := m.call e.1 = (e.2, m')

/-- The value of the last accepted `put` to a key that no `delete` of it followed; events newest
    first. -/
def lastPut (k : K) : List (Call K V × Reply V) → Option V
  | [] => none
  | (.put k' v, .accepted) :: rest => if k' = k then some v else lastPut k rest
  | (.delete k', _) :: rest => if k' = k then none else lastPut k rest
  | _ :: rest => lastPut k rest

/-- What a `put` answers, and leaves. -/
theorem put_cases (m : BoundedMap K size) (k : K) (v : V) :
    m.HasRoom k v ∧ (m.put k v).1 = .accepted ∧ (m.put k v).2.entries = m.entries.insert k v ∨
      ¬ m.HasRoom k v ∧ m.put k v = (.refused, m) := by
  unfold put
  by_cases h : m.HasRoom k v
  · rw [dif_pos h]
    exact Or.inl ⟨h, rfl, rfl⟩
  · exact Or.inr ⟨h, dif_neg h⟩

/-- **One call** moves each key as `lastPut` says. -/
theorem lookup_call {m m' : BoundedMap K size} {c : Call K V} {r : Reply V} (h : m.call c = (r, m'))
    {tr : List (Call K V × Reply V)} (k : K) (hk : m.entries.lookup k = lastPut k tr) :
    m'.entries.lookup k = lastPut k ((c, r) :: tr) := by
  cases c with
  | put k' v =>
    have h : m.put k' v = (r, m') := h
    rcases m.put_cases k' v with ⟨_, hr, hm⟩ | ⟨_, hp⟩
    · rw [h] at hr hm
      obtain rfl : r = .accepted := hr
      have hm : m'.entries = m.entries.insert k' v := hm
      rw [hm]
      by_cases he : k' = k
      · rw [he, Finmap.lookup_insert]
        exact (if_pos rfl).symm
      · rw [Finmap.lookup_insert_of_ne _ (Ne.symm he), hk]
        exact (if_neg he).symm
    · rw [hp] at h
      cases h
      exact hk
  | get k' =>
    cases h
    exact hk
  | delete k' =>
    cases h
    show (m.entries.erase k').lookup k = if k' = k then none else lastPut k tr
    by_cases he : k' = k
    · rw [if_pos he, he, Finmap.lookup_erase]
    · rw [if_neg he, Finmap.lookup_erase_ne (Ne.symm he), hk]

/-- **A key holds its last accepted value**, whatever happened to the others. -/
theorem get_eq_lastPut {capacity : ℕ} {tr : List (Call K V × Reply V)} {m : BoundedMap K size}
    (h : (boundedLts K size capacity).Run tr m) (k : K) : m.entries.lookup k = lastPut k tr := by
  refine h.invariant (I := fun tr m => m.entries.lookup k = lastPut k tr) (fun m hm => ?_)
    fun tr m e m' _ hI hs => lookup_call hs k hI
  cases hm
  exact Finmap.lookup_empty k

/-- The capacity stays. -/
theorem capacity_run {capacity : ℕ} {tr : List (Call K V × Reply V)} {m : BoundedMap K size}
    (h : (boundedLts K size capacity).Run tr m) : m.capacity = capacity := by
  refine h.invariant (I := fun _ m => m.capacity = capacity) (fun m hm => by rw [hm]; rfl)
    fun tr m e m' _ hI hs => ?_
  obtain ⟨c, r⟩ := e
  cases c with
  | put k v =>
    have hs : m.put k v = (r, m') := hs
    unfold put at hs
    split at hs <;> (cases hs; exact hI)
  | get k =>
    cases hs
    exact hI
  | delete k =>
    cases hs
    exact hI

end BoundedMap

end Flour.Lib
