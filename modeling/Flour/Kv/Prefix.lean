/-
  File:      Flour/Kv/Prefix.lean
  Subject:   `PrefixRegistry` and the chained block hash of `src/models/common/prefix.rs`.

  * The hash function itself is a parameter: what it computes is the standard library's.
  * `chainHash` -- the hash a block gets, folded over its parent's; `chain_inj` -- where the hash
    does not collide on a set of prompts, equal chained hashes mean equal prefixes.
  * `blockIds` -- the blocks the registry refers to, as a multiset: one reference an entry.
-/
import Mathlib.Data.Finmap

namespace Flour.Kv

/-- `block_hash(parent, tokens)`. -/
abbrev BlockHash := UInt64 → List UInt32 → UInt64

/-- Parent hash of the first block. -/
def prefixHashSeed : UInt64 := 0

/-- The token ids of block `b`. -/
def chunk (bs : ℕ) (tokenIds : List UInt32) (b : ℕ) : List UInt32 := (tokenIds.drop (b * bs)).take bs

/-- Hash of the first `b` blocks: the parent of block `b`. -/
def chainHash (blockHash : BlockHash) (bs : ℕ) (tokenIds : List UInt32) : ℕ → UInt64
  | 0 => prefixHashSeed
  | b + 1 => blockHash (chainHash blockHash bs tokenIds b) (chunk bs tokenIds b)

/-- Chained hash to the tokens of a block and its physical id. -/
structure PrefixRegistry where
  entries : Finmap fun _ : UInt64 => List UInt32 × ℕ

namespace PrefixRegistry

def new : PrefixRegistry := { entries := ∅ }

/-- The block stored under a hash, when its tokens are the given ones. -/
def get (r : PrefixRegistry) (hash : UInt64) (tokens : List UInt32) : Option ℕ :=
  match r.entries.lookup hash with
  | some (stored, id) => if stored = tokens then some id else none
  | none => none

def contains (r : PrefixRegistry) (hash : UInt64) : Bool := (r.entries.lookup hash).isSome

def insert (r : PrefixRegistry) (hash : UInt64) (tokens : List UInt32) (id : ℕ) : PrefixRegistry :=
  { entries := r.entries.insert hash (tokens, id) }

/-- The block ids it holds. `drain_block_ids` returns them in an order of its own. -/
def blockIds (r : PrefixRegistry) : Multiset ℕ := r.entries.entries.map fun e => e.2.2

theorem get_eq_some {r : PrefixRegistry} {hash : UInt64} {tokens : List UInt32} {id : ℕ} :
    r.get hash tokens = some id ↔ r.entries.lookup hash = some (tokens, id) := by
  unfold get
  constructor
  · intro h
    split at h
    · split_ifs at h with ht
      cases h
      subst ht
      assumption
    · cases h
  · intro h
    rw [h]
    exact if_pos rfl

theorem contains_eq_false {r : PrefixRegistry} {hash : UInt64} :
    r.contains hash = false ↔ hash ∉ r.entries := by
  unfold contains
  rw [← Finmap.lookup_eq_none, Option.isSome_eq_false_iff, Option.isNone_iff_eq_none]

theorem blockIds_new : new.blockIds = 0 := rfl

/-- A new entry is one reference more. -/
theorem blockIds_insert {r : PrefixRegistry} {hash : UInt64} (h : r.contains hash = false)
    (tokens : List UInt32) (id : ℕ) : (r.insert hash tokens id).blockIds = id ::ₘ r.blockIds := by
  unfold blockIds insert
  rw [Finmap.entries_insert_of_notMem (contains_eq_false.mp h), Multiset.map_cons]

theorem mem_blockIds {r : PrefixRegistry} {id : ℕ} :
    id ∈ r.blockIds ↔ ∃ hash tokens, r.entries.lookup hash = some (tokens, id) := by
  unfold blockIds
  rw [Multiset.mem_map]
  constructor
  · rintro ⟨⟨hash, tokens, id'⟩, he, rfl⟩
    exact ⟨hash, tokens, Finmap.lookup_eq_some_iff.mpr he⟩
  · rintro ⟨hash, tokens, h⟩
    exact ⟨⟨hash, tokens, id⟩, Finmap.lookup_eq_some_iff.mp h, rfl⟩

theorem mem_blockIds_of_get {r : PrefixRegistry} {hash : UInt64} {tokens : List UInt32} {id : ℕ}
    (h : r.get hash tokens = some id) : id ∈ r.blockIds :=
  mem_blockIds.mpr ⟨hash, tokens, get_eq_some.mp h⟩

/-- The entries after an insertion. -/
theorem lookup_insert (r : PrefixRegistry) (hash : UInt64) (tokens : List UInt32) (id : ℕ)
    (hash' : UInt64) : (r.insert hash tokens id).entries.lookup hash' =
      if hash' = hash then some (tokens, id) else r.entries.lookup hash' := by
  unfold insert
  by_cases h : hash' = hash
  · subst h
    rw [if_pos rfl, Finmap.lookup_insert]
  · rw [if_neg h, Finmap.lookup_insert_of_ne _ h]

end PrefixRegistry

/-! ## 1. Chained hashes and prefixes -/

section Chain

variable {blockHash : BlockHash} {bs : ℕ}

theorem take_succ_mul (ids : List UInt32) (b : ℕ) :
    ids.take ((b + 1) * bs) = ids.take (b * bs) ++ chunk bs ids b := by
  rw [Nat.succ_mul, List.take_add]
  rfl

/-- The hash of a chain depends on the tokens it covers only. -/
theorem chainHash_congr {p q : List UInt32} {b : ℕ} (h : p.take (b * bs) = q.take (b * bs)) :
    chainHash blockHash bs p b = chainHash blockHash bs q b := by
  induction b with
  | zero => rfl
  | succ b ih =>
    have hle : b * bs ≤ (b + 1) * bs := Nat.mul_le_mul_right bs (Nat.le_succ b)
    have htake : p.take (b * bs) = q.take (b * bs) := by
      have := congrArg (List.take (b * bs)) h
      rwa [List.take_take, List.take_take, Nat.min_eq_left hle] at this
    have hchunk : chunk bs p b = chunk bs q b := by
      have := congrArg (List.drop (b * bs)) h
      rwa [List.drop_take, List.drop_take, Nat.succ_mul, Nat.add_sub_cancel_left] at this
    rw [chainHash, chainHash, ih htake, hchunk]

/-- `blockHash` does not collide on the pairs of parent and chunk that occur in the prompts. -/
def NoCollision (blockHash : BlockHash) (bs : ℕ) (prompts : List UInt32 → Prop) : Prop :=
  ∀ p q a b, prompts p → prompts q → a < p.length / bs → b < q.length / bs →
    chainHash blockHash bs p (a + 1) = chainHash blockHash bs q (b + 1) →
      chainHash blockHash bs p a = chainHash blockHash bs q b ∧ chunk bs p a = chunk bs q b

/-- The seed is the parent of first blocks only. -/
def NoSeed (blockHash : BlockHash) (bs : ℕ) (prompts : List UInt32 → Prop) : Prop :=
  ∀ p a, prompts p → a + 1 < p.length / bs → chainHash blockHash bs p (a + 1) ≠ prefixHashSeed

/-- Both can be checked on a list of prompts. -/
instance (l : List (List UInt32)) : Decidable (NoCollision blockHash bs (· ∈ l)) :=
  decidable_of_iff (∀ p ∈ l, ∀ q ∈ l, ∀ a, a < p.length / bs → ∀ b, b < q.length / bs →
    chainHash blockHash bs p (a + 1) = chainHash blockHash bs q (b + 1) →
      chainHash blockHash bs p a = chainHash blockHash bs q b ∧ chunk bs p a = chunk bs q b)
    ⟨fun h p q a b hp hq ha hb => h p hp q hq a ha b hb,
      fun h p hp q hq a ha b hb => h p q a b hp hq ha hb⟩

instance (l : List (List UInt32)) : Decidable (NoSeed blockHash bs (· ∈ l)) :=
  decidable_of_iff (∀ p ∈ l, ∀ a, a < p.length / bs → a + 1 < p.length / bs →
    chainHash blockHash bs p (a + 1) ≠ prefixHashSeed)
    ⟨fun h p a hp ha => h p hp a (Nat.lt_of_succ_lt ha) ha, fun h p hp a _ ha => h p a hp ha⟩

/-- **Equal chained hashes, equal prefixes.** -/
theorem chain_inj {prompts : List UInt32 → Prop} (hc : NoCollision blockHash bs prompts)
    (hs : NoSeed blockHash bs prompts) {p q : List UInt32} (hp : prompts p) (hq : prompts q)
    {a b : ℕ} (ha : a < p.length / bs) (hb : b < q.length / bs)
    (h : chainHash blockHash bs p (a + 1) = chainHash blockHash bs q (b + 1)) :
    a = b ∧ p.take ((a + 1) * bs) = q.take ((b + 1) * bs) := by
  induction a generalizing b with
  | zero =>
    obtain ⟨hparent, hchunk⟩ := hc p q 0 b hp hq ha hb h
    cases b with
    | zero => exact ⟨rfl, by rw [take_succ_mul, take_succ_mul, hchunk, Nat.zero_mul]; rfl⟩
    | succ b => exact absurd hparent.symm (hs q b hq hb)
  | succ a ih =>
    obtain ⟨hparent, hchunk⟩ := hc p q (a + 1) b hp hq ha hb h
    cases b with
    | zero => exact absurd hparent (hs p a hp ha)
    | succ b =>
      obtain ⟨rfl, htake⟩ := ih (Nat.lt_of_succ_lt ha) (Nat.lt_of_succ_lt hb) hparent
      exact ⟨rfl, by rw [take_succ_mul, take_succ_mul q, htake, hchunk]⟩

end Chain

end Flour.Kv
