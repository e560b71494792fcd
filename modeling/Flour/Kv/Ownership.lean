/-
  File:      Flour/Kv/Ownership.lean
  Subject:   Who owns the physical blocks: the live table and the prefix registry.

  * `Owned` -- the invariant: the allocator tracks the occurrences of each block in the table and
    in the registry, and the live length is within the capacity of the table.
  * One lemma for each operation says what it does to table, registry and allocator, whether it
    returns or fails, and that it does not panic: `wp_resetSequence`, `wp_matchPrefix`,
    `wp_registerBlocks`, `wp_reserve`, `wp_importBlocks`, `wp_clearPrefixCache`.
-/
import Flour.Kv.KvCache

namespace Flour.Kv

open Candle Flour.Lib Flour.Lib.Prog

namespace KvCache

variable {T : Type}

/-- Each occurrence in the table and each registry entry owns its block once. -/
def owners (c : KvCache T) : Multiset ℕ := (c.table.blocks : Multiset ℕ) + c.registry.blockIds

/-- **The ownership invariant.** -/
structure Owned (c : KvCache T) : Prop where
  tracks : c.allocator.Tracks c.owners
  blockSize : c.table.blockSize = blockSize
  len_le : c.table.len ≤ c.table.capacity
  layers : c.pool.vPools.length = c.pool.kPools.length

theorem coe_append_add (l l' : List ℕ) (s : Multiset ℕ) :
    ((l ++ l' : List ℕ) : Multiset ℕ) + s = (l' : Multiset ℕ) + ((l : Multiset ℕ) + s) := by
  rw [← Multiset.coe_add, add_comm (l : Multiset ℕ), add_assoc]

section Parts

variable {c : KvCache T} {owners : Multiset ℕ} {E : String → KvCache T → Prop}

/-! ## 1. One reference at a time -/

theorem wp_decref {id : ℕ} (h : c.allocator.Tracks (id ::ₘ owners)) :
    wp (decref id) (fun _ c' => ∃ a, c' = { c with allocator := a } ∧ a.Tracks owners ∧
      a.size = c.allocator.size) E c := by
  obtain ⟨freed, a, ha, ht, hs, _⟩ := h.decref
  unfold decref
  rw [wp_zoom, wp_of_eq_ok (by rw [ha]; rfl)]
  exact ⟨a, rfl, ht, hs⟩

theorem wp_incref {id : ℕ} (h : c.allocator.Tracks owners) (hid : id ∈ owners) :
    wp (incref id) (fun _ c' => ∃ a, c' = { c with allocator := a } ∧ a.Tracks (id ::ₘ owners) ∧
      a.size = c.allocator.size ∧ a.free = c.allocator.free) E c := by
  obtain ⟨a, ha, ht, hf, hs⟩ := h.incref hid
  unfold incref
  rw [wp_zoom, wp_of_eq_ok (by rw [ha]; rfl)]
  exact ⟨a, rfl, ht, hs, hf⟩

/-- Releasing the references of a list. -/
theorem wp_release {l : List ℕ} (h : c.allocator.Tracks ((l : Multiset ℕ) + owners)) :
    wp (forEach decref l) (fun _ c' => ∃ a, c' = { c with allocator := a } ∧ a.Tracks owners ∧
      a.size = c.allocator.size) E c := by
  have hloop := wp_forEach (f := decref) (E := E) (l := l) (s := c)
    (I := fun rest c' => ∃ a, c' = { c with allocator := a } ∧
      a.Tracks ((rest : Multiset ℕ) + owners) ∧ a.size = c.allocator.size)
    (fun id rest c' hI => ?_) ⟨c.allocator, rfl, h, rfl⟩
  · refine hloop.mono (fun _ _ hI => ?_) fun _ _ hE => hE
    simpa using hI
  · obtain ⟨a, rfl, ht, hs⟩ := hI
    rw [← Multiset.cons_coe, Multiset.cons_add] at ht
    refine (wp_decref ht).mono (fun _ c'' hd => ?_) fun _ _ hE => hE
    obtain ⟨a', rfl, ht', hs'⟩ := hd
    exact ⟨a', rfl, ht', hs'.trans hs⟩

/-- What a call that may take a block from the free list does. -/
theorem wp_takeBlock (h : c.allocator.Tracks owners) :
    wp takeBlock (fun r c' => match r with
      | none => c' = c ∧ c.allocator.numFree = 0
      | some id => ∃ a, c' = { c with allocator := a } ∧ a.Tracks (id ::ₘ owners) ∧
        a.size = c.allocator.size ∧ c.allocator.free = id :: a.free ∧ id ∉ owners) E c := by
  unfold takeBlock
  rw [wp_zoom]
  cases hf : c.allocator.free with
  | nil =>
    have ha : c.allocator.allocate = some (none, c.allocator) := by
      unfold BlockAllocator.allocate
      rw [hf]
    rw [wp_of_eq_ok (by rw [ha]; rfl)]
    exact ⟨rfl, by rw [BlockAllocator.numFree, hf]; rfl⟩
  | cons id free =>
    obtain ⟨a, ha, ht, hfree, hs, _, hno⟩ := h.allocate hf
    rw [wp_of_eq_ok (by rw [ha]; rfl)]
    exact ⟨a, rfl, ht, hs, by rw [hfree], hno⟩

end Parts

/-! ## 2. The sequence and the registry -/

section Sequence

variable {c : KvCache T} {E : String → KvCache T → Prop}

/-- The id at the head of the free list is nobody's. -/
theorem Owned.allocate_fresh (h : c.Owned) {id : ℕ} {a : BlockAllocator}
    (ha : c.allocator.allocate = some (some id, a)) :
    c.allocator.refCounts[id]? = some 0 ∧ id ∉ c.table.blocks ∧ id ∉ c.registry.blockIds := by
  cases hf : c.allocator.free with
  | nil =>
    unfold BlockAllocator.allocate at ha
    rw [hf] at ha
    cases ha
  | cons head free =>
    obtain ⟨a', ha', _, _, _, hid, hno⟩ := h.tracks.allocate hf
    rw [ha'] at ha
    cases ha
    refine ⟨by rw [h.tracks.count id hid, Multiset.count_eq_zero.mpr hno], ?_⟩
    rw [owners, Multiset.mem_add, not_or] at hno
    exact hno

/-- The state after a reset: the registry is the only owner left. -/
structure Reset (c c' : KvCache T) : Prop where
  pool : c'.pool = c.pool
  registry : c'.registry = c.registry
  blocks : c'.table.blocks = []
  len : c'.table.len = 0
  size : c'.allocator.size = c.allocator.size
  owned : c'.Owned

theorem Owned.of_tracks (h : c.Owned) {a : BlockAllocator} (ht : a.Tracks c.registry.blockIds) :
    ({ c with allocator := a, table := c.table.clear } : KvCache T).Owned :=
  ⟨by simpa [owners, BlockTable.clear] using ht, h.blockSize, Nat.zero_le _, h.layers⟩

/-- **A reset.** -/
theorem wp_resetSequence (h : c.Owned) : wp resetSequence (fun _ c' => Reset c c') E c := by
  unfold resetSequence
  rw [wp_bind, wp_get, wp_bind]
  refine (wp_release h.tracks).mono (fun _ c' hr => ?_) fun _ _ hE => hE
  obtain ⟨a, rfl, ht, hs⟩ := hr
  exact ⟨rfl, rfl, rfl, rfl, hs, h.of_tracks ht⟩

/-- **Dropping all prefixes** leaves the table the only owner. -/
theorem wp_clearPrefixCache (h : c.Owned) {drained : List ℕ}
    (hd : (drained : Multiset ℕ) = c.registry.blockIds) :
    wp (clearPrefixCache drained) (fun _ c' => c'.Owned ∧ c'.table = c.table ∧ c'.pool = c.pool ∧
      c'.registry = PrefixRegistry.new ∧ c'.allocator.size = c.allocator.size) E c := by
  unfold clearPrefixCache
  rw [wp_bind, wp_modify]
  have ht : c.allocator.Tracks ((drained : Multiset ℕ) + c.table.blocks) := by
    rw [hd, add_comm]
    exact h.tracks
  refine (wp_release (c := { c with registry := PrefixRegistry.new }) ht).mono
    (fun _ c' hr => ?_) fun _ _ hE => hE
  obtain ⟨a, rfl, ht, hs⟩ := hr
  refine ⟨⟨?_, h.blockSize, h.len_le, h.layers⟩, rfl, rfl, rfl, hs⟩
  rw [owners, PrefixRegistry.blockIds_new, add_zero]
  exact ht

/-- The state after blocks were appended to the table, with what owns them now. -/
structure Pushed (c c' : KvCache T) (ids : List ℕ) : Prop where
  pool : c'.pool = c.pool
  registry : c'.registry = c.registry
  blocks : c'.table.blocks = c.table.blocks ++ ids
  blockSize : c'.table.blockSize = c.table.blockSize
  tracks : c'.allocator.Tracks c'.owners
  size : c'.allocator.size = c.allocator.size

theorem Pushed.refl (h : c.allocator.Tracks c.owners) : Pushed c c [] :=
  ⟨rfl, rfl, (List.append_nil _).symm, rfl, h, rfl⟩

theorem Pushed.trans {c' c'' : KvCache T} {ids ids' : List ℕ} (h : Pushed c c' ids)
    (h' : Pushed c' c'' ids') : Pushed c c'' (ids ++ ids') :=
  ⟨h'.pool.trans h.pool, h'.registry.trans h.registry,
    by rw [h'.blocks, h.blocks, List.append_assoc], h'.blockSize.trans h.blockSize, h'.tracks,
    h'.size.trans h.size⟩

/-- One block more, for an allocator that has counted it. -/
theorem pushed_one {a : BlockAllocator} {id : ℕ} (ht : a.Tracks (id ::ₘ c.owners))
    (hs : a.size = c.allocator.size) :
    Pushed c { c with allocator := a, table := c.table.pushBlock id } [id] := by
  refine ⟨rfl, rfl, rfl, rfl, ?_, hs⟩
  rwa [owners, BlockTable.pushBlock, coe_append_add, Multiset.coe_singleton,
    Multiset.singleton_add]

/-- The blocks found for the blocks `b ..` of a prompt: each was registered under its chained hash
    with its own tokens. -/
def Found (blockHash : BlockHash) (r : PrefixRegistry) (bs : ℕ) (tokenIds : List UInt32) (b : ℕ)
    (ids : List ℕ) : Prop :=
  ∀ k id, ids[k]? = some id →
    r.get (chainHash blockHash bs tokenIds (b + k + 1)) (chunk bs tokenIds (b + k)) = some id

/-- **The matching loop** pushes the blocks it finds, one reference each. It stops at the first
    block it does not find. -/
theorem wp_matchBlocks {blockHash : BlockHash} {tokenIds : List UInt32} {n b matched : ℕ}
    (h : c.allocator.Tracks c.owners) :
    wp (matchBlocks blockHash tokenIds n b (chainHash blockHash c.table.blockSize tokenIds b) matched)
      (fun m c' => ∃ ids, Pushed c c' ids ∧ c'.table.len = c.table.len ∧ ids.length ≤ n ∧
        m = matched + ids.length * c.table.blockSize ∧
        Found blockHash c.registry c.table.blockSize tokenIds b ids ∧
        (ids.length < n → c.registry.get
          (chainHash blockHash c.table.blockSize tokenIds (b + ids.length + 1))
          (chunk c.table.blockSize tokenIds (b + ids.length)) = none)) E c := by
  induction n generalizing c b matched with
  | zero =>
    refine ⟨[], .refl h, rfl, le_refl 0, ?_, fun k id hk => ?_, fun hlt => absurd hlt (lt_irrefl 0)⟩
    · rw [List.length_nil, Nat.zero_mul, Nat.add_zero]
    · cases hk
  | succ n ih =>
    rw [matchBlocks, wp_bind, wp_get]
    dsimp only
    cases hg : c.registry.get (chainHash blockHash c.table.blockSize tokenIds (b + 1))
        (chunk c.table.blockSize tokenIds b) with
    | none =>
      rw [chainHash] at hg
      rw [hg]
      refine ⟨[], .refl h, rfl, Nat.zero_le _, ?_, fun k id hk => ?_, fun _ => hg⟩
      · rw [List.length_nil, Nat.zero_mul, Nat.add_zero]
      · cases hk
    | some id =>
      have hg' := hg
      rw [chainHash] at hg
      rw [hg]
      have hmem : id ∈ c.owners :=
        Multiset.mem_add.mpr (Or.inr (PrefixRegistry.mem_blockIds_of_get hg))
      rw [wp_bind]
      refine (wp_incref h hmem).mono (fun _ c' hi => ?_) fun _ _ hE => hE
      obtain ⟨a, rfl, ht, hs, _⟩ := hi
      have hone := pushed_one ht hs
      rw [wp_bind, onTable, wp_modify]
      refine (ih hone.tracks).mono (fun m c'' hm => ?_) fun _ _ hE => hE
      obtain ⟨ids, hpush, hlen, hle, hm, hfound, hstop⟩ := hm
      refine ⟨id :: ids, hone.trans hpush, hlen, Nat.succ_le_succ hle, ?_, ?_, fun hlt => ?_⟩
      · rw [hm, List.length_cons, Nat.succ_mul]
        show matched + c.table.blockSize + ids.length * c.table.blockSize = _
        omega
      · intro k id' hk
        cases k with
        | zero =>
          cases hk
          exact hg'
        | succ k =>
          have := hfound k id' hk
          rwa [Nat.add_right_comm b 1 k, Nat.add_assoc b k 1] at this
      · have := hstop (Nat.lt_of_succ_lt_succ hlt)
        rwa [Nat.add_right_comm b 1, Nat.add_assoc b _ 1] at this

/-- The state after a match that found the blocks `ids`. -/
structure Matched (blockHash : BlockHash) (tokenIds : List UInt32) (c : KvCache T) (m : ℕ)
    (c' : KvCache T) (ids : List ℕ) : Prop where
  pushed : Pushed c c' ids
  owned : c'.Owned
  tokens : m = ids.length * Kv.blockSize
  len : c'.table.len = c.table.len + m
  le : ids.length ≤ maxReusable Kv.blockSize tokenIds.length
  found : Found blockHash c.registry Kv.blockSize tokenIds 0 ids
  stop : ids.length < maxReusable Kv.blockSize tokenIds.length →
    c.registry.get (chainHash blockHash Kv.blockSize tokenIds (ids.length + 1))
      (chunk Kv.blockSize tokenIds ids.length) = none

/-- The registry holds all blocks of a prompt that a match may reuse. -/
def HoldsReusable (blockHash : BlockHash) (r : PrefixRegistry) (tokenIds : List UInt32) : Prop :=
  ∀ b, b < maxReusable Kv.blockSize tokenIds.length →
    r.get (chainHash blockHash Kv.blockSize tokenIds (b + 1)) (chunk Kv.blockSize tokenIds b) ≠ none

instance (blockHash : BlockHash) (r : PrefixRegistry) (tokenIds : List UInt32) :
    Decidable (HoldsReusable blockHash r tokenIds) :=
  inferInstanceAs (Decidable (∀ b, b < maxReusable Kv.blockSize tokenIds.length → _ ≠ none))

section Matched

variable {blockHash : BlockHash} {tokenIds : List UInt32} {m m' : ℕ} {c' d d' : KvCache T}
  {ids ids' : List ℕ}

/-- A block below the length of a match is held. -/
theorem Matched.held (h : Matched blockHash tokenIds c m c' ids) {b : ℕ} (hb : b < ids.length) :
    c.registry.get (chainHash blockHash Kv.blockSize tokenIds (b + 1))
      (chunk Kv.blockSize tokenIds b) ≠ none := by
  have hfound := h.found b _ (List.getElem?_eq_getElem hb)
  rw [Nat.zero_add] at hfound
  rw [hfound]
  exact Option.some_ne_none _

/-- A match takes everything it may reuse iff the registry holds it. -/
theorem Matched.full_iff (h : Matched blockHash tokenIds c m c' ids) :
    maxReusable Kv.blockSize tokenIds.length * Kv.blockSize ≤ m ↔
      HoldsReusable blockHash c.registry tokenIds := by
  rw [h.tokens, Nat.mul_le_mul_right_iff (by decide)]
  constructor
  · intro hle b hb
    exact h.held (Nat.lt_of_lt_of_le hb hle)
  · intro hall
    by_contra hlt
    have hlt := Nat.lt_of_not_le hlt
    exact hall _ hlt (h.stop hlt)

/-- The length of a match depends on the registry alone. -/
theorem Matched.unique (h : Matched blockHash tokenIds c m c' ids)
    (h' : Matched blockHash tokenIds d m' d' ids') (hreg : d.registry = c.registry) : m = m' := by
  rw [h.tokens, h'.tokens]
  congr 1
  rcases Nat.lt_trichotomy ids.length ids'.length with hlt | heq | hlt
  · exact absurd (hreg ▸ h.stop (Nat.lt_of_lt_of_le hlt h'.le)) (h'.held hlt)
  · exact heq
  · exact absurd (hreg ▸ h'.stop (Nat.lt_of_lt_of_le hlt h.le)) (h.held hlt)

end Matched

/-- **Matching a prefix.** -/
theorem wp_matchPrefix (h : c.Owned) (blockHash : BlockHash) (tokenIds : List UInt32) :
    wp (matchPrefix blockHash tokenIds)
      (fun m c' => ∃ ids, Matched blockHash tokenIds c m c' ids) E c := by
  unfold matchPrefix
  rw [wp_bind, wp_get, wp_bind]
  refine (wp_matchBlocks (b := 0) h.tracks).mono (fun m c' hm => ?_) fun _ _ hE => hE
  rw [h.blockSize] at hm
  obtain ⟨ids, hpush, hlen, hle, hm, hfound, hstop⟩ := hm
  rw [Nat.zero_add] at hm
  rw [Nat.zero_add] at hstop
  have hbs : c'.table.blockSize = Kv.blockSize := hpush.blockSize.trans h.blockSize
  rw [wp_bind, onTable, wp_modify, wp_pure]
  refine ⟨ids, ⟨hpush.pool, hpush.registry, hpush.blocks, hpush.blockSize, hpush.tracks, hpush.size⟩,
    ⟨hpush.tracks, hbs, ?_, ?_⟩, hm, ?_, hle, hfound, hstop⟩
  · have hcap := h.len_le
    show c'.table.len + m ≤ c'.table.blocks.length * c'.table.blockSize
    rw [BlockTable.capacity, h.blockSize] at hcap
    rw [hlen, hbs, hm, hpush.blocks, List.length_append, Nat.add_mul]
    omega
  · rw [hpush.pool]
    exact h.layers
  · show c'.table.len + m = _
    rw [hlen]

/-- The state after the `n` blocks from `b` on were registered. -/
structure Registered (blockHash : BlockHash) (bs : ℕ) (tokenIds : List UInt32) (b n : ℕ)
    (c c' : KvCache T) : Prop where
  pool : c'.pool = c.pool
  table : c'.table = c.table
  size : c'.allocator.size = c.allocator.size
  tracks : c'.allocator.Tracks c'.owners
  free : c'.allocator.free = c.allocator.free
  kept : ∀ h e, c.registry.entries.lookup h = some e → c'.registry.entries.lookup h = some e
  /-- A new entry is a block of the table under its chained hash, with its own tokens. -/
  entries : ∀ h tokens id, c'.registry.entries.lookup h = some (tokens, id) →
    c.registry.entries.lookup h = some (tokens, id) ∨
      ∃ k, k < n ∧ h = chainHash blockHash bs tokenIds (b + k + 1) ∧
        tokens = chunk bs tokenIds (b + k) ∧ c.table.blocks[b + k]? = some id
  covered : ∀ k, k < n → c'.registry.contains (chainHash blockHash bs tokenIds (b + k + 1)) = true

section Register

variable {blockHash : BlockHash} {tokenIds : List UInt32} {n b : ℕ} {parent h : UInt64}
  {Q : Unit → KvCache T → Prop}

/-- One block of the registering loop: its hash is taken, or the table has a block to record. -/
theorem wp_registerBlocks_succ (hh : blockHash parent (chunk c.table.blockSize tokenIds b) = h)
    (htaken : c.registry.contains h = true →
      wp (registerBlocks blockHash tokenIds n (b + 1) h) Q E c)
    (hnew : c.registry.contains h = false → ∃ id a, c.table.blocks[b]? = some id ∧
      c.allocator.incref id = some a ∧ wp (registerBlocks blockHash tokenIds n (b + 1) h) Q E
        ⟨c.pool, a, c.table, c.registry.insert h (chunk c.table.blockSize tokenIds b) id⟩) :
    wp (registerBlocks blockHash tokenIds (n + 1) b parent) Q E c := by
  subst hh
  rw [registerBlocks, wp_bind, wp_get]
  dsimp only
  split
  · exact htaken ‹_›
  · obtain ⟨id, a, hget, ha, hrest⟩ := hnew (Bool.eq_false_of_not_eq_true ‹_›)
    rw [hget, wp_bind, wp_ofOption_some, wp_bind, incref, wp_zoom, wp_of_eq_ok (by rw [ha]; rfl),
      wp_bind, wp_modify]
    exact hrest

/-- The same where the loop may panic: the table has no such block, or not a live one. -/
theorem wlp_registerBlocks_succ (hh : blockHash parent (chunk c.table.blockSize tokenIds b) = h)
    (htaken : c.registry.contains h = true →
      wlp (registerBlocks blockHash tokenIds n (b + 1) h) Q E c)
    (hnew : c.registry.contains h = false → ∀ id a, c.table.blocks[b]? = some id →
      c.allocator.incref id = some a → wlp (registerBlocks blockHash tokenIds n (b + 1) h) Q E
        ⟨c.pool, a, c.table, c.registry.insert h (chunk c.table.blockSize tokenIds b) id⟩) :
    wlp (registerBlocks blockHash tokenIds (n + 1) b parent) Q E c := by
  subst hh
  refine wlp_bind (Or.inr ?_)
  rw [wp_get]
  dsimp only
  split
  · exact htaken ‹_›
  refine wlp_bind ?_
  cases hget : c.table.blocks[b]? with
  | none => exact Or.inl rfl
  | some id =>
    refine Or.inr (wlp_bind (wlp_zoom ?_))
    cases ha : c.allocator.incref id with
    | none =>
      refine Or.inl ?_
      show (c.allocator.incref id).map _ = none
      rw [ha]
      rfl
    | some a =>
      refine Or.inr ((wp_of_eq_ok (by rw [ha]; rfl)).mpr (wlp_bind (Or.inr ?_)))
      exact hnew (Bool.eq_false_of_not_eq_true ‹_›) id a hget ha

end Register

section Registered

variable {blockHash : BlockHash} {bs n b : ℕ} {tokenIds : List UInt32} {c' : KvCache T}

/-- A block whose hash is taken comes before the rest. -/
theorem Registered.taken (hr : Registered blockHash bs tokenIds (b + 1) n c c')
    (hc : c.registry.contains (chainHash blockHash bs tokenIds (b + 1)) = true) :
    Registered blockHash bs tokenIds b (n + 1) c c' := by
  have hshift : ∀ k, b + 1 + k = b + (k + 1) := fun k => by omega
  refine ⟨hr.pool, hr.table, hr.size, hr.tracks, hr.free, hr.kept, fun h' toks id he => ?_,
    fun k hk => ?_⟩
  · refine (hr.entries h' toks id he).imp_right fun hnew => ?_
    obtain ⟨k, hk, h1, h2, h3⟩ := hnew
    rw [hshift] at h1 h2 h3
    exact ⟨k + 1, Nat.succ_lt_succ hk, h1, h2, h3⟩
  · cases k with
    | zero =>
      obtain ⟨e, he⟩ := Option.isSome_iff_exists.mp hc
      exact Option.isSome_iff_exists.mpr ⟨e, hr.kept _ _ he⟩
    | succ k =>
      have := hr.covered k (Nat.lt_of_succ_lt_succ hk)
      rwa [hshift] at this

/-- A block that is recorded comes before the rest. -/
theorem Registered.recorded {a : BlockAllocator} {id : ℕ}
    (hr : Registered blockHash bs tokenIds (b + 1) n ⟨c.pool, a, c.table, c.registry.insert
      (chainHash blockHash bs tokenIds (b + 1)) (chunk bs tokenIds b) id⟩ c')
    (hc : c.registry.contains (chainHash blockHash bs tokenIds (b + 1)) = false)
    (hget : c.table.blocks[b]? = some id) (hs : a.size = c.allocator.size)
    (hf : a.free = c.allocator.free) : Registered blockHash bs tokenIds b (n + 1) c c' := by
  have hshift : ∀ k, b + 1 + k = b + (k + 1) := fun k => by omega
  have hlook := PrefixRegistry.lookup_insert c.registry (chainHash blockHash bs tokenIds (b + 1))
    (chunk bs tokenIds b) id
  have hnone := Finmap.lookup_eq_none.mpr (PrefixRegistry.contains_eq_false.mp hc)
  refine ⟨hr.pool, hr.table, hr.size.trans hs, hr.tracks, hr.free.trans hf,
    fun h' e he => hr.kept h' e ?_, fun h' toks id' he => ?_, fun k hk => ?_⟩
  · rw [hlook, if_neg fun heq => by rw [heq, hnone] at he; cases he]
    exact he
  · rcases hr.entries h' toks id' he with hold | ⟨k, hk, h1, h2, h3⟩
    · rw [hlook] at hold
      split_ifs at hold with heq
      · cases hold
        exact Or.inr ⟨0, Nat.zero_lt_succ n, heq, rfl, hget⟩
      · exact Or.inl hold
    · rw [hshift] at h1 h2 h3
      exact Or.inr ⟨k + 1, Nat.succ_lt_succ hk, h1, h2, h3⟩
  · cases k with
    | zero =>
      refine Option.isSome_iff_exists.mpr ⟨_, hr.kept _ (chunk bs tokenIds b, id) ?_⟩
      rw [hlook]
      exact if_pos rfl
    | succ k =>
      have := hr.covered k (Nat.lt_of_succ_lt_succ hk)
      rwa [hshift] at this

end Registered

/-- The table and the registry are the owners again after a block was recorded. -/
theorem tracks_insert {a : BlockAllocator} {id : ℕ} {hash : UInt64} (ht : a.Tracks (id ::ₘ c.owners))
    (hc : c.registry.contains hash = false) (tokens : List UInt32) :
    a.Tracks (KvCache.owners ⟨c.pool, a, c.table, c.registry.insert hash tokens id⟩) := by
  show a.Tracks ((c.table.blocks : Multiset ℕ) + (c.registry.insert hash tokens id).blockIds)
  rw [PrefixRegistry.blockIds_insert hc, Multiset.add_cons]
  exact ht

/-- **The registering loop.** -/
theorem wp_registerBlocks (blockHash : BlockHash) (tokenIds : List UInt32) {n b : ℕ}
    (h : c.allocator.Tracks c.owners) (hn : b + n ≤ c.table.blocks.length) :
    wp (registerBlocks blockHash tokenIds n b (chainHash blockHash c.table.blockSize tokenIds b))
      (fun _ c' => Registered blockHash c.table.blockSize tokenIds b n c c') E c := by
  induction n generalizing c b with
  | zero =>
    exact ⟨rfl, rfl, rfl, h, rfl, fun _ _ he => he, fun _ _ _ he => Or.inl he,
      fun k hk => absurd hk (Nat.not_lt_zero k)⟩
  | succ n ih =>
    have hb : b < c.table.blocks.length := by omega
    have hle : b + 1 + n ≤ c.table.blocks.length := by omega
    refine wp_registerBlocks_succ rfl (fun hc => ?_) fun hc => ?_
    · exact (ih (b := b + 1) h hle).mono (fun _ c' hr => hr.taken hc) fun _ _ hE => hE
    · have hget : c.table.blocks[b]? = some c.table.blocks[b] := List.getElem?_eq_getElem hb
      obtain ⟨a, ha, ht, hf, hs⟩ := h.incref
        (Multiset.mem_add.mpr (Or.inl (Multiset.mem_coe.mpr (List.mem_of_getElem? hget))))
      refine ⟨_, a, hget, ha, ?_⟩
      exact (ih (c := ⟨c.pool, a, c.table, _⟩) (tracks_insert ht hc _) hle).mono
        (fun _ c' hr => hr.recorded hc hget hs hf) fun _ _ hE => hE

theorem Registered.owned {blockHash : BlockHash} {bs b n : ℕ} {tokenIds : List UInt32}
    {c' : KvCache T} (h : c.Owned) (hr : Registered blockHash bs tokenIds b n c c') : c'.Owned :=
  ⟨hr.tracks, by rw [hr.table, h.blockSize], by rw [hr.table]; exact h.len_le,
    by rw [hr.pool]; exact h.layers⟩

/-- **Registering a prompt** whose full blocks the table covers. -/
theorem wp_registerPrefix (h : c.Owned) {blockHash : BlockHash} {tokenIds : List UInt32}
    (hcov : tokenIds.length / Kv.blockSize ≤ c.table.blocks.length) :
    wp (registerPrefix blockHash tokenIds)
      (fun _ c' => Registered blockHash Kv.blockSize tokenIds 0
        (tokenIds.length / Kv.blockSize) c c') E c := by
  unfold registerPrefix
  rw [wp_bind, wp_get, ← h.blockSize]
  rw [← h.blockSize] at hcov
  exact wp_registerBlocks blockHash tokenIds (b := 0) h.tracks (by rwa [Nat.zero_add])

/-! ## 3. Reserving blocks -/

/-- The state after `ids` were taken from the free list and appended to the table: each of them
    has this one owner. -/
structure Grown (c c' : KvCache T) (ids : List ℕ) : Prop where
  pushed : Pushed c c' ids
  len : c'.table.len = c.table.len
  fresh : ∀ id ∈ ids, c'.owners.count id = 1
  taken : c.allocator.free = ids ++ c'.allocator.free

theorem Grown.refl (h : c.allocator.Tracks c.owners) : Grown c c [] :=
  ⟨.refl h, rfl, fun _ hid => absurd hid List.not_mem_nil, rfl⟩

theorem Grown.free {c' : KvCache T} {ids : List ℕ} (h : Grown c c' ids) :
    c'.allocator.numFree + ids.length = c.allocator.numFree := by
  rw [BlockAllocator.numFree, BlockAllocator.numFree, h.taken, List.length_append, Nat.add_comm]

theorem Pushed.owners_eq {c' : KvCache T} {ids : List ℕ} (h : Pushed c c' ids) :
    c'.owners = (ids : Multiset ℕ) + c.owners := by
  rw [owners, h.blocks, h.registry, coe_append_add]
  rfl

theorem Grown.owned {c' : KvCache T} {ids : List ℕ} (h : c.Owned) (hg : Grown c c' ids) :
    c'.Owned := by
  refine ⟨hg.pushed.tracks, hg.pushed.blockSize.trans h.blockSize, ?_, ?_⟩
  · have hcap := h.len_le
    unfold BlockTable.capacity at hcap ⊢
    rw [hg.len, hg.pushed.blockSize, hg.pushed.blocks, List.length_append, Nat.add_mul]
    omega
  · rw [hg.pushed.pool]
    exact h.layers

/-- A block nobody owned, in front of others that were taken after it. -/
theorem Grown.cons {c' : KvCache T} {a : BlockAllocator} {id : ℕ} {ids : List ℕ}
    (ht : a.Tracks (id ::ₘ c.owners)) (hs : a.size = c.allocator.size)
    (hfree : c.allocator.free = id :: a.free) (hno : id ∉ c.owners)
    (h : Grown { c with allocator := a, table := c.table.pushBlock id } c' ids) :
    Grown c c' (id :: ids) := by
  have hone := pushed_one ht hs
  have hpush := hone.trans h.pushed
  refine ⟨hpush, h.len, List.forall_mem_cons.mpr ⟨?_, h.fresh⟩, ?_⟩
  · -- `id` is not taken again: it was owned by then
    by_cases hid : id ∈ ids
    · exact h.fresh id hid
    · rw [h.pushed.owners_eq, hone.owners_eq, Multiset.count_add, Multiset.count_add,
        Multiset.count_eq_zero.mpr hno, Multiset.coe_count, Multiset.coe_count,
        List.count_eq_zero.mpr hid, List.count_singleton_self]
  · rw [hfree]
    exact congrArg (id :: ·) h.taken

end Sequence

/-! ## 4. Importing a bundle -/

section Import

variable [Candle T] {c c₀ : KvCache T} {ids : List ℕ}

/-- An import that has taken the blocks `ids`, into the sequence `c₀` that was just reset. -/
structure Importing (c₀ : KvCache T) (ids : List ℕ) (c : KvCache T) : Prop where
  layout : c₀.pool.SameLayout c.pool
  registry : c.registry = c₀.registry
  blockSize : c.table.blockSize = c₀.table.blockSize
  len : c.table.len = c₀.table.len
  size : c.allocator.size = c₀.allocator.size
  tracks : c.allocator.Tracks ((ids : Multiset ℕ) + c₀.registry.blockIds)
  fresh : ∀ id ∈ ids, id ∉ c₀.registry.blockIds
  nodup : ids.Nodup
  free : c.allocator.numFree + ids.length = c₀.allocator.numFree

omit [Candle T] in
theorem Importing.start (h₀ : c₀.Owned) (hb : c₀.table.blocks = []) : Importing c₀ [] c₀ := by
  refine ⟨.refl _, rfl, rfl, rfl, rfl, ?_, fun _ hid => absurd hid List.not_mem_nil,
    List.nodup_nil, rfl⟩
  have ht := h₀.tracks
  rwa [owners, hb] at ht

omit [Candle T] in
theorem Importing.take (h : Importing c₀ ids c) {a : BlockAllocator} {id : ℕ}
    (ht : a.Tracks (id ::ₘ ((ids : Multiset ℕ) + c₀.registry.blockIds)))
    (hs : a.size = c.allocator.size) (hf : c.allocator.free = id :: a.free)
    (hno : id ∉ (ids : Multiset ℕ) + c₀.registry.blockIds) :
    Importing c₀ (ids ++ [id]) { c with allocator := a } := by
  rw [Multiset.mem_add, not_or] at hno
  refine ⟨h.layout, h.registry, h.blockSize, h.len, hs.trans h.size, ?_, fun x hx => ?_, ?_, ?_⟩
  · rw [coe_append_add, Multiset.coe_singleton, Multiset.singleton_add]
    exact ht
  · rcases List.mem_append.mp hx with hx | hx
    · exact h.fresh x hx
    · rw [List.mem_singleton.mp hx]
      exact hno.2
  · refine List.nodup_append'.mpr ⟨h.nodup, List.nodup_singleton id, ?_⟩
    rw [List.disjoint_singleton]
    exact fun hmem => hno.1 (Multiset.mem_coe.mpr hmem)
  · have hfree := h.free
    rw [BlockAllocator.numFree, hf, List.length_cons] at hfree
    rw [List.length_append, List.length_singleton]
    show a.free.length + (ids.length + 1) = _
    omega

/-- Writing the layers of a block touches the pool only. -/
theorem wp_importLayers (h : Importing c₀ ids c)
    (hlayers : c₀.pool.vPools.length = c₀.pool.kPools.length) (id : ℕ)
    {layers : List (KvLayerBlock T × ℕ)} (hl : ∀ e ∈ layers, e.2 < c₀.pool.kPools.length) :
    wp (forEach (fun e => onPool (Prog.of fun p => p.writeBlock e.2 id e.1.k e.1.v)) layers)
      (fun _ c' => Importing c₀ ids c' ∧ c'.table = c.table)
      (fun _ c' => Importing c₀ ids c') c := by
  have hloop := wp_forEach (s := c) (l := layers)
    (f := fun e => onPool (Prog.of fun p => p.writeBlock e.2 id e.1.k e.1.v))
    (E := fun _ c' => Importing c₀ ids c')
    (I := fun rest c' => (Importing c₀ ids c' ∧ c'.table = c.table) ∧
      ∀ e ∈ rest, e.2 < c₀.pool.kPools.length)
    (fun e rest c' hI => ?_) ⟨⟨h, rfl⟩, hl⟩
  · exact hloop.mono (fun _ _ hI => hI.1) fun _ _ hE => hE
  · obtain ⟨⟨hi, ht⟩, hrest⟩ := hI
    obtain ⟨he, hrest⟩ := List.forall_mem_cons.mp hrest
    rw [← hi.layout.kLen] at he
    obtain ⟨r, p', hw, hsame⟩ := PagedKvPool.writeBlock_total
      (by rw [hi.layout.vLen, hi.layout.kLen, hlayers]) he id e.1.k e.1.v
    have hi' : Importing c₀ ids { c' with pool := p' } := { hi with layout := hi.layout.trans hsame }
    rw [onPool, wp_zoom]
    cases r with
    | error e' =>
      rw [wp_of_eq_error hw]
      exact hi'
    | ok u =>
      rw [wp_of_eq_ok hw]
      exact ⟨⟨hi', ht⟩, hrest⟩

/-- One block of an import. -/
theorem wp_importBlock (h : Importing c₀ ids c) (hb : c.table.blocks = ids)
    (hlayers : c₀.pool.vPools.length = c₀.pool.kPools.length) (block : KvBundleBlock T) :
    wp (importBlock c₀.pool.kPools.length block)
      (fun _ s => Importing c₀ s.1 s.2 ∧ s.2.table.blocks = s.1 ∧ s.1.length = ids.length + 1)
      (fun _ s => Importing c₀ s.1 s.2) (ids, c) := by
  unfold importBlock
  by_cases hlen : block.layers.length = c₀.pool.kPools.length
  · rw [if_neg (not_not.mpr hlen), wp_bind, wp_zoom]
    refine (wp_takeBlock h.tracks).mono (fun r c₁ hr => ?_) fun _ _ hE => hE
    cases r with
    | none =>
      obtain ⟨rfl, _⟩ := hr
      exact h
    | some id =>
      obtain ⟨a, rfl, ht, hs, hf, hno⟩ := hr
      have h₁ := h.take ht hs hf hno
      dsimp only
      rw [wp_bind, wp_modify, wp_bind, wp_zoom]
      refine (wp_importLayers h₁ hlayers id fun e he => ?_).mono (fun _ c₂ hc => ?_) fun _ _ hE => hE
      · have := List.snd_lt_of_mem_zipIdx he
        rwa [Nat.add_zero, hlen] at this
      · obtain ⟨h₂, htab⟩ := hc
        rw [wp_zoom, onTable, wp_modify]
        refine ⟨⟨h₂.layout, h₂.registry, h₂.blockSize, h₂.len, h₂.size, h₂.tracks, h₂.fresh, h₂.nodup,
          h₂.free⟩, ?_, ?_⟩
        · show c₂.table.blocks ++ [id] = ids ++ [id]
          rw [htab]
          show c.table.blocks ++ [id] = _
          rw [hb]
        · show (ids ++ [id]).length = _
          rw [List.length_append, List.length_singleton]
  · rw [if_pos hlen, wp_fail]
    exact h

/-- The state after an import that returned. -/
structure Imported (blockHash : BlockHash) (header : KvBundleMeta) (c₀ c : KvCache T)
    (ids : List ℕ) : Prop where
  layout : c₀.pool.SameLayout c.pool
  owned : c.Owned
  blocks : c.table.blocks = ids
  len : c.table.len = header.tokenCount
  length : ids.length = header.tokenCount / Kv.blockSize
  fresh : ∀ id ∈ ids, id ∉ c₀.registry.blockIds
  nodup : ids.Nodup
  size : c.allocator.size = c₀.allocator.size
  free : c.allocator.numFree + ids.length = c₀.allocator.numFree
  /-- What the registry held and holds, and that it covers the imported blocks. -/
  registered : ∃ c₁, c₁.registry = c₀.registry ∧ c₁.table = c.table ∧
    Registered blockHash Kv.blockSize header.tokenIds 0 (header.tokenCount / Kv.blockSize) c₁ c

/-- The state after a failure that gave everything back. -/
structure RolledBack (c₀ c : KvCache T) : Prop where
  layout : c₀.pool.SameLayout c.pool
  owned : c.Owned
  registry : c.registry = c₀.registry
  blocks : c.table.blocks = []
  len : c.table.len = 0
  size : c.allocator.size = c₀.allocator.size

omit [Candle T] in
/-- Giving the blocks of a failed import back. -/
theorem Importing.rolledBack (h₀ : c₀.Owned) (h : Importing c₀ ids c)
    {a : BlockAllocator} (ht : a.Tracks c₀.registry.blockIds) (hs : a.size = c.allocator.size) :
    RolledBack c₀ { c with allocator := a, table := c.table.clear } := by
  have hreg : a.Tracks c.registry.blockIds := h.registry ▸ ht
  refine ⟨h.layout, ⟨by simpa [owners, BlockTable.clear] using hreg, h.blockSize.trans h₀.blockSize,
    Nat.zero_le _, ?_⟩, h.registry, rfl, rfl, hs.trans h.size⟩
  show c.pool.vPools.length = c.pool.kPools.length
  rw [h.layout.vLen, h.layout.kLen, h₀.layers]

/-- The state in which an import has written its blocks, and registers them next. -/
structure Loaded (header : KvBundleMeta) (c₀ c : KvCache T) (ids : List ℕ) : Prop where
  layout : c₀.pool.SameLayout c.pool
  owned : c.Owned
  registry : c.registry = c₀.registry
  blocks : c.table.blocks = ids
  len : c.table.len = header.tokenCount
  length : ids.length = header.tokenCount / Kv.blockSize
  fresh : ∀ id ∈ ids, id ∉ c₀.registry.blockIds
  nodup : ids.Nodup
  size : c.allocator.size = c₀.allocator.size
  free : c.allocator.numFree + ids.length = c₀.allocator.numFree

omit [Candle T] in
/-- All blocks are written and the length is set. -/
theorem Importing.loaded (h₀ : c₀.Owned) (hlen : c₀.table.len = 0) (h : Importing c₀ ids c)
    (htab : c.table.blocks = ids) {header : KvBundleMeta}
    (hl : ids.length = header.tokenCount / Kv.blockSize)
    (hal : header.tokenCount % Kv.blockSize = 0) :
    Loaded header c₀ { c with table := c.table.advance header.tokenCount } ids := by
  have hbs : c.table.blockSize = Kv.blockSize := h.blockSize.trans h₀.blockSize
  have hadv : c.table.len + header.tokenCount = header.tokenCount := by
    rw [h.len, hlen, Nat.zero_add]
  refine ⟨h.layout, ⟨?_, hbs, ?_, by rw [h.layout.vLen, h.layout.kLen, h₀.layers]⟩, h.registry, htab,
    hadv, hl, h.fresh, h.nodup, h.size, h.free⟩
  · have := h.tracks
    rwa [← htab, ← h.registry] at this
  · show c.table.len + header.tokenCount ≤ c.table.blocks.length * c.table.blockSize
    rw [hadv, htab, hl, hbs, Nat.div_mul_cancel (Nat.dvd_of_mod_eq_zero hal)]

/-- **Importing the blocks of a checked bundle** into the sequence that was just reset, up to their
    registration. -/
theorem wp_importBlocks_loaded (h₀ : c₀.Owned) (hb : c₀.table.blocks = [])
    (hlen : c₀.table.len = 0) (blockHash : BlockHash) {bundle : KvBundle T}
    (hnum : bundle.blocks.length = bundle.header.tokenCount / Kv.blockSize)
    (hal : bundle.header.tokenCount % Kv.blockSize = 0)
    (hlayers : bundle.header.numLayers = c₀.pool.kPools.length) {Q : KvCache T → Prop}
    (hreg : ∀ c ids, Loaded bundle.header c₀ c ids →
      wp (registerBlocks blockHash bundle.header.tokenIds
        (bundle.header.tokenCount / Kv.blockSize) 0 prefixHashSeed) (fun _ c => Q c)
        (fun _ c => RolledBack c₀ c) c) :
    wp (importBlocks blockHash bundle) (fun m c => m = bundle.header.tokenCount ∧ Q c)
      (fun _ c => RolledBack c₀ c) c₀ := by
  have hstart : Importing c₀ [] c₀ := .start h₀ hb
  unfold importBlocks
  rw [wp_bind, wp_get]
  dsimp only
  rw [h₀.blockSize, hlayers]
  by_cases hfree : c₀.allocator.numFree < bundle.header.tokenCount / Kv.blockSize
  · rw [if_pos hfree, wp_fail]
    exact ⟨.refl _, h₀, rfl, hb, hlen, rfl⟩
  rw [if_neg hfree, wp_bind, wp_attempt]
  have hloop := wp_forEach (s := (([] : List ℕ), c₀)) (l := bundle.blocks)
    (f := importBlock c₀.pool.kPools.length) (E := fun _ s => Importing c₀ s.1 s.2)
    (I := fun rest s => Importing c₀ s.1 s.2 ∧ s.2.table.blocks = s.1 ∧
      s.1.length + rest.length = bundle.blocks.length)
    (fun block rest s hI => ?_) ⟨hstart, hb, by rw [List.length_nil, Nat.zero_add]⟩
  · refine hloop.mono (fun _ s hI => ?_) fun e s hI => ?_
    · -- every block was written: the registry takes its references
      obtain ⟨hi, htab, hl⟩ := hI
      rw [List.length_nil, Nat.add_zero, hnum] at hl
      dsimp only
      rw [wp_bind, onTable, wp_modify, wp_bind]
      exact (hreg _ _ (hi.loaded h₀ hlen htab hl hal)).mono (fun _ _ hQ => ⟨rfl, hQ⟩) fun _ _ hE => hE
    · -- a block failed: what was taken is released
      dsimp only
      rw [wp_bind]
      refine (wp_release hI.tracks).mono (fun _ c' hr => ?_) fun _ _ hE => hE
      obtain ⟨a, rfl, ht, hs⟩ := hr
      rw [wp_bind, onTable, wp_modify, wp_fail]
      exact hI.rolledBack h₀ ht hs
  · obtain ⟨hi, htab, hl⟩ := hI
    refine (wp_importBlock hi htab h₀.layers block).mono (fun _ s' hs => ?_) fun _ _ hE => hE
    rw [List.length_cons] at hl
    exact ⟨hs.1, hs.2.1, by omega⟩

omit [Candle T] in
/-- Registering what was loaded. -/
theorem Loaded.imported {header : KvBundleMeta} {c' : KvCache T} (h : Loaded header c₀ c ids)
    {blockHash : BlockHash}
    (hr : Registered blockHash Kv.blockSize header.tokenIds 0 (header.tokenCount / Kv.blockSize)
      c c') : Imported blockHash header c₀ c' ids := by
  refine ⟨by rw [hr.pool]; exact h.layout, hr.owned h.owned, by rw [hr.table]; exact h.blocks,
    by rw [hr.table]; exact h.len, h.length, h.fresh, h.nodup, hr.size.trans h.size, ?_,
    c, h.registry, hr.table.symm, hr⟩
  rw [BlockAllocator.numFree, hr.free]
  exact h.free

omit [Candle T] in
theorem Loaded.wp_registerBlocks {header : KvBundleMeta} (h : Loaded header c₀ c ids)
    (blockHash : BlockHash) {E : String → KvCache T → Prop} :
    wp (registerBlocks blockHash header.tokenIds (header.tokenCount / Kv.blockSize) 0
      prefixHashSeed)
      (fun _ c' => Registered blockHash Kv.blockSize header.tokenIds 0
        (header.tokenCount / Kv.blockSize) c c') E c := by
  have hreg := KvCache.wp_registerBlocks (E := E) blockHash header.tokenIds
    (n := header.tokenCount / Kv.blockSize) (b := 0) h.owned.tracks (by
      rw [h.blocks, h.length, Nat.zero_add])
  rwa [h.owned.blockSize] at hreg

/-- **Importing the blocks of a checked bundle** into the sequence that was just reset. -/
theorem wp_importBlocks (h₀ : c₀.Owned) (hb : c₀.table.blocks = []) (hlen : c₀.table.len = 0)
    (blockHash : BlockHash) {bundle : KvBundle T}
    (hnum : bundle.blocks.length = bundle.header.tokenCount / Kv.blockSize)
    (hal : bundle.header.tokenCount % Kv.blockSize = 0)
    (hlayers : bundle.header.numLayers = c₀.pool.kPools.length) :
    wp (importBlocks blockHash bundle)
      (fun m c => m = bundle.header.tokenCount ∧ ∃ ids, Imported blockHash bundle.header c₀ c ids)
      (fun _ c => RolledBack c₀ c) c₀ :=
  wp_importBlocks_loaded h₀ hb hlen blockHash hnum hal hlayers fun _ ids hl =>
    (hl.wp_registerBlocks blockHash).mono (fun _ _ hr => ⟨ids, hl.imported hr⟩) fun _ _ hE => hE

/-- The bundles that pass the checks of an import. -/
structure Accepts (c : KvCache T) (bundle : KvBundle T) (prompt : List UInt32) : Prop where
  blockSize : bundle.header.blockSize = c.table.blockSize
  numLayers : bundle.header.numLayers = c.pool.numLayers
  numKvHeads : bundle.header.numKvHeads = c.pool.kvHeads
  headDim : bundle.header.headDim = c.pool.headDim
  dtype : c.pool.dtype = some bundle.header.dtype.toCandle
  tokenCount : bundle.header.tokenCount ≠ 0
  aligned : bundle.header.tokenCount % c.table.blockSize = 0
  tokenIds : bundle.header.tokenIds.length = bundle.header.tokenCount
  le : bundle.header.tokenCount ≤ prompt.length
  isPrefix : prompt.take bundle.header.tokenCount = bundle.header.tokenIds
  blocks : bundle.blocks.length = bundle.header.tokenCount / c.table.blockSize

/-- **The checks of an import** pass exactly for these bundles, and change nothing. Without layers
    the pool has no element type to compare with. -/
theorem wp_checkBundle (hl : c.pool.numLayers ≠ 0) (bundle : KvBundle T) (prompt : List UInt32) :
    wp (checkBundle bundle prompt) (fun _ c' => c' = c ∧ c.Accepts bundle prompt)
      (fun _ c' => c' = c ∧ ¬ c.Accepts bundle prompt) c := by
  obtain ⟨dt, hdt⟩ := Option.ne_none_iff_exists'.mp (mt PagedKvPool.dtype_eq_none_iff.mp hl)
  unfold checkBundle
  rw [wp_bind, wp_get]
  refine wp_guard (fun h => ⟨rfl, fun ha => h ha.blockSize⟩) fun h1 => ?_
  refine wp_guard (fun h => ⟨rfl, fun ha => h ha.numLayers⟩) fun h2 => ?_
  refine wp_guard (fun h => ⟨rfl, fun ha => h ha.numKvHeads⟩) fun h3 => ?_
  refine wp_guard (fun h => ⟨rfl, fun ha => h ha.headDim⟩) fun h4 => ?_
  rw [hdt, wp_bind, wp_ofOption_some]
  refine wp_guard (fun h => ⟨rfl, fun ha => h (BundleDType.fromCandle_eq_some.mpr
    (Option.some.inj (hdt.symm.trans ha.dtype)))⟩) fun h5 => ?_
  refine wp_guard (fun h => ⟨rfl, fun ha => h.elim ha.tokenCount fun h => h ha.aligned⟩) fun h6 => ?_
  refine wp_guard (fun h => ⟨rfl, fun ha => h ha.tokenIds⟩) fun h7 => ?_
  refine wp_guard (fun h => ⟨rfl, fun ha => h.elim (fun h => absurd ha.le (Nat.not_le_of_lt h))
    fun h => h ha.isPrefix⟩) fun h8 => ?_
  refine wp_guard (fun h => ⟨rfl, fun ha => h ha.blocks⟩) fun h9 => ?_
  rw [not_or, not_not] at h6 h8
  refine ⟨rfl, ⟨not_not.mp h1, not_not.mp h2, not_not.mp h3, not_not.mp h4, ?_, h6.1, h6.2,
    not_not.mp h7, Nat.le_of_not_lt h8.1, h8.2, not_not.mp h9⟩⟩
  rw [hdt, BundleDType.fromCandle_eq_some.mp (not_not.mp h5)]

/-- Without layers the pool has no element type, and no bundle is accepted. -/
theorem not_accepts_without_layers (hl : c.pool.numLayers = 0) (bundle : KvBundle T)
    (prompt : List UInt32) : ¬ c.Accepts bundle prompt := by
  intro ha
  have hdt := ha.dtype
  rw [PagedKvPool.dtype_eq_none_iff.mpr hl] at hdt
  cases hdt

/-- The checks, also without layers: then they fail before the element type, or panic there. -/
theorem wlp_checkBundle (bundle : KvBundle T) (prompt : List UInt32) :
    wlp (checkBundle bundle prompt) (fun _ c' => c' = c ∧ c.Accepts bundle prompt)
      (fun _ c' => c' = c ∧ ¬ c.Accepts bundle prompt) c := by
  by_cases hl : c.pool.numLayers = 0
  · have hno := not_accepts_without_layers hl bundle prompt
    have hdt := PagedKvPool.dtype_eq_none_iff.mpr hl
    refine wlp_bind (Or.inr ?_)
    rw [wp_get]
    refine wlp_guard (fun _ => ⟨rfl, hno⟩) fun _ => wlp_guard (fun _ => ⟨rfl, hno⟩) fun _ =>
      wlp_guard (fun _ => ⟨rfl, hno⟩) fun _ => wlp_guard (fun _ => ⟨rfl, hno⟩) fun _ => ?_
    rw [hdt]
    exact Or.inl rfl
  · exact Or.inr (wp_checkBundle hl bundle prompt)

/-- The checks read the pool and the block size alone. -/
theorem wp_checkBundle_congr {c' : KvCache T} (hpool : c'.pool = c.pool)
    (hbs : c'.table.blockSize = c.table.blockSize) (bundle : KvBundle T) (prompt : List UInt32)
    {p q : Prop} :
    wp (checkBundle bundle prompt) (fun _ _ => p) (fun _ _ => q) c' ↔
      wp (checkBundle bundle prompt) (fun _ _ => p) (fun _ _ => q) c := by
  unfold checkBundle
  rw [wp_bind, wp_get, wp_bind, wp_get, hpool, hbs]
  refine wp_guard_congr Iff.rfl (wp_guard_congr Iff.rfl (wp_guard_congr Iff.rfl
    (wp_guard_congr Iff.rfl ?_)))
  rw [wp_bind, wp_bind]
  cases c.pool.dtype with
  | none => exact Iff.rfl
  | some dt =>
    rw [wp_ofOption_some, wp_ofOption_some]
    exact wp_guard_congr Iff.rfl (wp_guard_congr Iff.rfl (wp_guard_congr Iff.rfl
      (wp_guard_congr Iff.rfl (wp_guard_congr Iff.rfl Iff.rfl))))

/-- **An import** is accepted and done, or changes nothing but the pool and the live sequence. -/
theorem wp_importPrefixBundle (h : c.Owned) (hl : c.pool.numLayers ≠ 0) (blockHash : BlockHash)
    (bundle : KvBundle T) (prompt : List UInt32) :
    wp (importPrefixBundle blockHash bundle prompt)
      (fun m c' => m = bundle.header.tokenCount ∧ c.Accepts bundle prompt ∧
        ∃ c₀ ids, Reset c c₀ ∧ Imported blockHash bundle.header c₀ c' ids)
      (fun _ c' => c' = c ∧ ¬ c.Accepts bundle prompt ∨
        c.Accepts bundle prompt ∧ ∃ c₀, Reset c c₀ ∧ RolledBack c₀ c') c := by
  unfold importPrefixBundle
  rw [wp_bind]
  refine (wp_checkBundle hl bundle prompt).mono (fun _ c' hc => ?_) fun _ c' hc => Or.inl hc
  obtain ⟨rfl, ha⟩ := hc
  rw [wp_bind]
  refine (wp_resetSequence h).mono (fun _ c₀ hr => ?_) fun _ _ hE => hE
  have hnum := ha.blocks
  have hal := ha.aligned
  rw [h.blockSize] at hnum hal
  refine (wp_importBlocks hr.owned hr.blocks hr.len blockHash hnum hal ?_).mono (fun m c'' hi => ?_)
    fun _ c'' hi => Or.inr ⟨ha, c₀, hr, hi⟩
  · rw [ha.numLayers, hr.pool]
    rfl
  · obtain ⟨hm, ids, hi⟩ := hi
    exact ⟨hm, ha, c₀, ids, hr, hi⟩

end Import

/-! ## 5. Rows -/

section Rows

variable [Candle T] {c : KvCache T} {layer : ℕ}

/-- The state after rows were written. -/
structure Wrote (c c' : KvCache T) : Prop where
  layout : c.pool.SameLayout c'.pool
  allocator : c'.allocator = c.allocator
  table : c'.table = c.table
  registry : c'.registry = c.registry

omit [Candle T] in
theorem Wrote.owned {c' : KvCache T} (h : c.Owned) (hw : Wrote c c') : c'.Owned := by
  refine ⟨?_, by rw [hw.table, h.blockSize], by rw [hw.table]; exact h.len_le, ?_⟩
  · rw [owners, hw.table, hw.registry, hw.allocator]
    exact h.tracks
  · rw [hw.layout.vLen, hw.layout.kLen, h.layers]

/-- **Writing** the rows of the last positions reads the table within its capacity. -/
theorem wp_writeCurrent_total (h : c.Owned) (hl : layer < c.pool.numLayers) {k v : T} {n : ℕ}
    (hd : (dims k)[2]? = some n) (hn : n ≤ c.table.len) :
    wp (writeCurrent layer k v) (fun _ c' => Wrote c c') (fun _ c' => Wrote c c') c := by
  have hslots := BlockTable.slots_eq (c.table.len - n) h.len_le
  generalize List.map _ _ = slots at hslots
  obtain ⟨r, p', hw, hsame⟩ := PagedKvPool.write_total h.layers hl slots k v
  unfold writeCurrent
  rw [wp_bind, wp_get, hd, wp_bind, wp_ofOption_some, if_neg (Nat.not_lt_of_le hn), hslots, wp_bind,
    wp_ofOption_some, onPool, wp_zoom]
  cases r with
  | error e =>
    rw [wp_of_eq_error hw]
    exact ⟨hsame, rfl, rfl, rfl⟩
  | ok u =>
    rw [wp_of_eq_ok hw]
    exact ⟨hsame, rfl, rfl, rfl⟩

/-- Whatever is written, only the pool changes; and more rows than are live are not written. -/
theorem wlp_writeCurrent (layer : ℕ) (k v : T) :
    wlp (writeCurrent layer k v)
      (fun _ c' => Wrote c c' ∧ ∃ n, (dims k)[2]? = some n ∧ n ≤ c.table.len)
      (fun _ c' => Wrote c c' ∧ ∃ n, (dims k)[2]? = some n ∧ n ≤ c.table.len) c := by
  refine wlp_bind (Or.inr ?_)
  rw [wp_get]
  cases (dims k)[2]? with
  | none => exact Or.inl rfl
  | some n =>
    refine wlp_bind (Or.inr ?_)
    rw [wp_ofOption_some]
    split
    · exact Or.inl rfl
    have hn : ∃ n', some n = some n' ∧ n' ≤ c.table.len := ⟨n, rfl, by omega⟩
    cases c.table.slots (c.table.len - n) c.table.len with
    | none => exact Or.inl rfl
    | some slots =>
      refine wlp_bind (Or.inr ?_)
      rw [wp_ofOption_some]
      refine wlp_zoom ?_
      cases hw : c.pool.write layer slots k v with
      | none => exact Or.inl hw
      | some r =>
        obtain ⟨r, p'⟩ := r
        have hsame := PagedKvPool.write_layout hw
        cases r with
        | error e => exact Or.inr ((wp_of_eq_error hw).mpr ⟨⟨hsame, rfl, rfl, rfl⟩, hn⟩)
        | ok u => exact Or.inr ((wp_of_eq_ok hw).mpr ⟨⟨hsame, rfl, rfl, rfl⟩, hn⟩)

theorem wlp_gatherFrom (layer : ℕ) (bs : List ℕ) :
    wlp (gatherFrom layer bs) (fun _ c' => c' = c) (fun _ c' => c' = c) c := by
  induction bs with
  | nil => exact Or.inr rfl
  | cons b rest ih =>
    refine wlp_bind (Or.inr ?_)
    rw [wp_get]
    dsimp only
    cases c.table.slot (b * c.table.blockSize) with
    | none => exact Or.inl rfl
    | some start =>
      refine wlp_bind (Or.inr ?_)
      rw [wp_ofOption_some]
      refine wlp_bind (wlp_zoom ?_)
      generalize hn : min c.table.blockSize (c.table.len - b * c.table.blockSize) = n
      cases hv : c.pool.blockView layer start n with
      | none =>
        refine Or.inl ?_
        show Option.map _ (c.pool.blockView layer start n) = none
        rw [hv]
        rfl
      | some r =>
        cases r with
        | error e => exact Or.inr ((wp_of_eq_error (by rw [hv]; rfl)).mpr rfl)
        | ok view =>
          refine Or.inr ((wp_of_eq_ok (by rw [hv]; rfl)).mpr (wlp_bind ?_))
          exact ih.mono (fun _ _ hc => Or.inr hc) fun _ _ hc => hc

theorem wlp_gatherBlocks (layer : ℕ) :
    wlp (gatherBlocks layer) (fun _ c' => c' = c) (fun _ c' => c' = c) c :=
  wlp_bind (Or.inr (wlp_gatherFrom layer _))

theorem wp_gatherFrom_total (h : c.Owned) (hl : layer < c.pool.numLayers) {bs : List ℕ}
    (hb : ∀ b ∈ bs, b * c.table.blockSize < c.table.len) :
    wp (gatherFrom layer bs) (fun _ c' => c' = c) (fun _ c' => c' = c) c := by
  induction bs with
  | nil => rfl
  | cons b rest ih =>
    obtain ⟨hlt, hrest⟩ := List.forall_mem_cons.mp hb
    have hs := BlockTable.slot_eq (Nat.lt_of_lt_of_le hlt h.len_le)
    obtain ⟨r, hv⟩ := PagedKvPool.blockView_total h.layers hl
      (translate c.table.blocks c.table.blockSize (b * c.table.blockSize))
      (min c.table.blockSize (c.table.len - b * c.table.blockSize))
    rw [gatherFrom, wp_bind, wp_get]
    dsimp only
    rw [hs, wp_bind, wp_ofOption_some, wp_bind, onPool, wp_zoom]
    cases r with
    | error e => exact (wp_of_eq_error (by rw [hv]; rfl)).mpr rfl
    | ok view =>
      refine (wp_of_eq_ok (by rw [hv]; rfl)).mpr ?_
      rw [wp_bind]
      exact (ih hrest).mono (fun _ _ hc => hc) fun _ _ hc => hc

/-- **Reading** the live rows changes nothing. -/
theorem wp_gatherBlocks_total (h : c.Owned) (hl : layer < c.pool.numLayers) :
    wp (gatherBlocks layer) (fun _ c' => c' = c) (fun _ c' => c' = c) c := by
  unfold gatherBlocks
  rw [wp_bind, wp_get]
  refine wp_gatherFrom_total h hl fun b hb => (lt_divCeil_iff ?_).mp (List.mem_range.mp hb)
  rw [h.blockSize]
  exact Nat.zero_lt_succ 15

end Rows

end KvCache

namespace Cache

variable {T : Type} {E : String → KvCache T → Prop}

theorem capacity_lt_iff {t : BlockTable} (h : t.blockSize = blockSize) (stop : ℕ) :
    t.capacity < stop ↔ t.blocks.length < divCeil stop blockSize := by
  rw [lt_divCeil_iff (by decide), BlockTable.capacity, h]

/-- **The reserving loop** takes exactly the blocks that are missing, and fails exactly when the
    free list holds fewer. -/
theorem wp_reserve {stop fuel : ℕ} {c : KvCache T} (h : c.allocator.Tracks c.owners)
    (hbs : c.table.blockSize = blockSize) (hfuel : stop - c.table.capacity < fuel) :
    wp (reserve stop fuel)
      (fun _ c' => ∃ ids, KvCache.Grown c c' ids ∧ stop ≤ c'.table.capacity ∧
        ids.length = divCeil stop blockSize - c.table.blocks.length)
      (fun e c' => ∃ ids, KvCache.Grown c c' ids ∧ e = "out of kv blocks" ∧
        c.allocator.numFree < divCeil stop blockSize - c.table.blocks.length) c := by
  induction fuel generalizing c with
  | zero => exact absurd hfuel (Nat.not_lt_zero _)
  | succ fuel ih =>
    have hlt := capacity_lt_iff hbs stop
    rw [reserve, wp_bind, wp_get]
    by_cases hcap : c.table.capacity < stop
    · rw [if_pos hcap, wp_bind, KvCache.allocate, wp_bind]
      refine (KvCache.wp_takeBlock h).mono (fun r c₁ hr => ?_) fun _ _ hE => hE
      cases r with
      | none =>
        obtain ⟨rfl, hfree⟩ := hr
        refine ⟨[], .refl h, rfl, ?_⟩
        have := hlt.mp hcap
        omega
      | some id =>
        obtain ⟨a, rfl, ht, hs, hfree, hno⟩ := hr
        have hone := KvCache.pushed_one ht hs
        show wp (reserve stop fuel) _ _ { c with allocator := a, table := c.table.pushBlock id }
        have hlen : (c.table.pushBlock id).blocks.length = c.table.blocks.length + 1 := by
          simp [BlockTable.pushBlock]
        refine (ih hone.tracks hbs ?_).mono (fun _ c' hg => ?_) fun _ c' hg => ?_
        · show stop - (c.table.pushBlock id).blocks.length * c.table.blockSize < fuel
          unfold BlockTable.capacity at hfuel hcap
          rw [hlen, hbs]
          rw [hbs] at hfuel hcap
          unfold blockSize at *
          omega
        · obtain ⟨ids, hg, hstop, hids⟩ := hg
          refine ⟨id :: ids, .cons ht hs hfree hno hg, hstop, ?_⟩
          have := hlt.mp hcap
          rw [hlen] at hids
          rw [List.length_cons, hids]
          omega
        · obtain ⟨ids, hg, he, hids⟩ := hg
          refine ⟨id :: ids, .cons ht hs hfree hno hg, he, ?_⟩
          have := hlt.mp hcap
          rw [hlen] at hids
          have hids : a.free.length < divCeil stop blockSize - (c.table.blocks.length + 1) := hids
          rw [BlockAllocator.numFree, hfree, List.length_cons]
          omega
    · rw [if_neg hcap]
      refine ⟨[], .refl h, Nat.le_of_not_lt hcap, ?_⟩
      rw [hlt] at hcap
      show 0 = _
      omega

/-- The state after slots for `n` more tokens were reserved. -/
structure Reserved (n : ℕ) (c c' : Cache T) (ids : List ℕ) : Prop where
  pushed : KvCache.Pushed c.kvs c'.kvs ids
  owned : c'.kvs.Owned
  maxSeqLen : c'.maxSeqLen = c.maxSeqLen
  len : c'.kvs.table.len = c.kvs.table.len + n
  fresh : ∀ id ∈ ids, c'.kvs.owners.count id = 1
  blocks : ids.length = divCeil (c.kvs.table.len + n) blockSize - c.kvs.table.blocks.length
  taken : c.kvs.allocator.free = ids ++ c'.kvs.allocator.free

/-- The blocks a reservation lacks. -/
def missing (c : Cache T) (n : ℕ) : ℕ :=
  divCeil (c.kvs.table.len + n) blockSize - c.kvs.table.blocks.length

/-- **Reserving slots** succeeds exactly when the tokens fit and the missing blocks are free. When
    it fails, the sequence has the length it had, and perhaps some blocks more. -/
theorem wp_allocateKv {c : Cache T} (h : c.kvs.Owned) (n : ℕ) :
    wp (allocateKv n)
      (fun _ c' => (∃ ids, Reserved n c c' ids) ∧ c.kvs.table.len + n ≤ c.maxSeqLen ∧
        c.missing n ≤ c.kvs.allocator.numFree)
      (fun e c' => (∃ ids, KvCache.Grown c.kvs c'.kvs ids) ∧ c'.kvs.Owned ∧
        c'.maxSeqLen = c.maxSeqLen ∧
        (c.maxSeqLen < c.kvs.table.len + n ∨
          e = "out of kv blocks" ∧ c.kvs.allocator.numFree < c.missing n)) c := by
  unfold allocateKv
  rw [wp_bind, wp_get]
  dsimp only
  by_cases hmax : c.maxSeqLen < c.kvs.table.len + n
  · rw [if_pos hmax, wp_fail]
    exact ⟨⟨[], .refl h.tracks⟩, h, rfl, Or.inl hmax⟩
  · rw [if_neg hmax, wp_bind, onKvs, wp_zoom]
    refine (wp_reserve h.tracks h.blockSize (by omega)).mono (fun _ kvs hg => ?_) fun e kvs hg => ?_
    · obtain ⟨ids, hg, hstop, hids⟩ := hg
      have hfree := hg.free
      rw [onKvs, wp_zoom, KvCache.onTable, wp_modify]
      refine ⟨⟨ids, ⟨hg.pushed.pool, hg.pushed.registry, hg.pushed.blocks, hg.pushed.blockSize,
        hg.pushed.tracks, hg.pushed.size⟩, ⟨hg.pushed.tracks, (hg.owned h).blockSize, ?_,
        (hg.owned h).layers⟩, rfl, ?_, hg.fresh, hids, hg.taken⟩, Nat.le_of_not_lt hmax, ?_⟩
      · show kvs.table.len + n ≤ kvs.table.capacity
        rwa [hg.len]
      · show kvs.table.len + n = _
        rw [hg.len]
      · unfold missing
        omega
    · obtain ⟨ids, hg, he, hids⟩ := hg
      exact ⟨⟨ids, hg⟩, hg.owned h, rfl, Or.inr ⟨he, hids⟩⟩

/-! ## 6. The operations of the whole cache -/

section Whole

variable {c : Cache T} {α : Type}

theorem onKvs_eq_some {x : Prog (KvCache T) α} {r : Except String α} {c' : Cache T} :
    onKvs x c = some (r, c') ↔ ∃ kvs, x c.kvs = some (r, kvs) ∧ { c with kvs } = c' := zoom_eq_some

theorem wp_onKvs {x : Prog (KvCache T) α} {Q : α → Cache T → Prop} {E : String → Cache T → Prop} :
    wp (onKvs x) Q E c ↔
      wp x (fun a kvs => Q a { c with kvs }) (fun e kvs => E e { c with kvs }) c.kvs :=
  wp_zoom _ _ x

theorem wlp_onKvs {x : Prog (KvCache T) α} {Q : α → Cache T → Prop} {E : String → Cache T → Prop}
    (h : wlp x (fun a kvs => Q a { c with kvs }) (fun e kvs => E e { c with kvs }) c.kvs) :
    wlp (onKvs x) Q E c := wlp_zoom h

variable {E : String → Cache T → Prop}

theorem wp_resetSequence (h : c.kvs.Owned) :
    wp resetSequence (fun _ c' => KvCache.Reset c.kvs c'.kvs ∧ c'.maxSeqLen = c.maxSeqLen) E c :=
  wp_onKvs.mpr ((KvCache.wp_resetSequence h).mono (fun _ _ hr => ⟨hr, rfl⟩) fun _ _ hE => hE)

theorem wp_matchPrefix (h : c.kvs.Owned) (blockHash : BlockHash) (tokenIds : List UInt32) :
    wp (matchPrefix blockHash tokenIds) (fun m c' =>
      (∃ ids, KvCache.Matched blockHash tokenIds c.kvs m c'.kvs ids) ∧ c'.maxSeqLen = c.maxSeqLen)
      E c :=
  wp_onKvs.mpr ((KvCache.wp_matchPrefix h blockHash tokenIds).mono (fun _ _ hm => ⟨hm, rfl⟩)
    fun _ _ hE => hE)

theorem wp_registerPrefix (h : c.kvs.Owned) (blockHash : BlockHash) {tokenIds : List UInt32}
    (hcov : tokenIds.length / blockSize ≤ c.kvs.table.blocks.length) :
    wp (registerPrefix blockHash tokenIds) (fun _ c' =>
      KvCache.Registered blockHash blockSize tokenIds 0 (tokenIds.length / blockSize) c.kvs c'.kvs ∧
        c'.maxSeqLen = c.maxSeqLen) E c :=
  wp_onKvs.mpr ((KvCache.wp_registerPrefix h hcov).mono (fun _ _ hr => ⟨hr, rfl⟩) fun _ _ hE => hE)

variable [Candle T]

theorem wlp_writeKv (layer : ℕ) (k v : T) :
    wlp (writeKv layer k v)
      (fun _ c' => KvCache.Wrote c.kvs c'.kvs ∧ ∃ n, (dims k)[2]? = some n ∧ n ≤ c.kvs.table.len)
      (fun _ c' => KvCache.Wrote c.kvs c'.kvs ∧ ∃ n, (dims k)[2]? = some n ∧ n ≤ c.kvs.table.len) c :=
  wlp_onKvs (KvCache.wlp_writeCurrent layer k v)

theorem wlp_kvBlocks (layer : ℕ) :
    wlp (kvBlocks layer) (fun _ c' => c' = c) (fun _ c' => c' = c) c :=
  wlp_onKvs ((KvCache.wlp_gatherBlocks layer).mono (fun _ _ he => by rw [he])
    fun _ _ he => by rw [he])

end Whole

end Cache

end Flour.Kv
