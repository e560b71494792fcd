/-
  File:      Flour/Kv/Sealed.lean
  Subject:   Cached blocks under the calls that requests make.

  There is no copy-on-write. What keeps a cached block as it is, is where a request may write:

  * `Phase`, `Calls`, `driverLts` -- the calls of `prefill` and `generate` in their order, each of
    which may fail, with the prefix cache cleared at any time;
  * `Phase.frontier` -- the block of the table from which on a phase may write; `Orderly` -- the
    blocks from there on have no other owner; `Sealed` -- a block that was cached and is referenced
    since is not among them;
  * `Follows`, one lemma for each call, `follows_step` -- a call keeps all this, and the rows of a
    sealed block, unless the runs of a write go astray into it (`Misses`);
  * **`cached_blocks_sealed`** -- so writes target private blocks, and a cached block keeps its rows
    until its last reference is dropped, in every run whose writes miss it.
-/
import Flour.Kv.Contents
import Flour.Kv.Footprint

namespace Flour.Kv

open Candle Flour.Lib Flour.Lib.Prog

/-! ## 1. The calls of a request -/

/-- How far a request is: it ended or failed, its sequence was reset, a prefix of its prompt is live,
    or slots are reserved for a pass over `n` tokens. -/
inductive Phase where
  | idle
  | fresh
  | ready
  | pass (n : ℕ)

/-- The cache between two calls. -/
structure Driver (T : Type) where
  cache : Cache T
  phase : Phase

/-- The block of the table from which on a phase may write. -/
def Phase.frontier (t : BlockTable) : Phase → ℕ
  | idle => t.blocks.length
  | fresh => t.blocks.length
  | ready => t.len / blockSize
  | pass n => (t.len - n) / blockSize

/-- The phase after a call: one that fails ends its request. -/
def Phase.after {α : Type} (next : Phase) : Except String α → Phase
  | .ok _ => next
  | .error _ => idle

/-- No run of a write of the last `n` rows goes into block `id`: one that starts at a slot equal to
    its index `i` covers the slots from `i` to `n`. -/
def Misses (t : BlockTable) (n id : ℕ) : Prop :=
  ∀ i, i < n → (lastSlots t n)[i]? = some i → ∀ s, s < n → i ≤ s → s / blockSize ≠ id

instance (t : BlockTable) (n id : ℕ) : Decidable (Misses t n id) :=
  inferInstanceAs (Decidable (∀ i, i < n → (lastSlots t n)[i]? = some i →
    ∀ s, s < n → i ≤ s → s / blockSize ≠ id))

section Defs

variable {T : Type} [Candle T]

/-- The calls that a request makes in a phase, and its phase when the call returned. It imports what
    was decoded, and the K and V tensors have the rows of its pass. -/
inductive Calls (cfg : Config) (dtype : DType) (c : Cache T) : Phase → Op T → Phase → Prop
  | reset (phase : Phase) : Calls cfg dtype c phase .resetSequence .fresh
  | clear (phase : Phase) {drained : List ℕ} (h : (drained : Multiset ℕ) = c.kvs.registry.blockIds) :
      Calls cfg dtype c phase (.clearPrefixCache drained) phase
  | matchPrefix (prompt : List UInt32) : Calls cfg dtype c .fresh (.matchPrefix prompt) .ready
  | importBundle {bundle : KvBundle T} (hv : bundle.Valid) (prompt : List UInt32) :
      Calls cfg dtype c .ready (.importPrefixBundle bundle prompt) .ready
  | firstPass (n : ℕ) : Calls cfg dtype c .ready (.allocateKv n) (.pass n)
  | nextPass (m n : ℕ) : Calls cfg dtype c (.pass m) (.allocateKv n) (.pass n)
  | write {n layer : ℕ} (hl : layer < cfg.numHiddenLayers) {k v : T} (hs : OfShape cfg dtype n k v) :
      Calls cfg dtype c (.pass n) (.writeKv layer k v) (.pass n)
  | read {layer : ℕ} (hl : layer < cfg.numHiddenLayers) (n : ℕ) :
      Calls cfg dtype c (.pass n) (.kvBlocks layer) (.pass n)
  | register (n : ℕ) {prompt : List UInt32} (h : prompt.length ≤ c.kvs.table.len) :
      Calls cfg dtype c (.pass n) (.registerPrefix prompt) .ready

/-- Requests on a new cache. A request may stop after any call; the next one begins with a reset. -/
def driverLts (cfg : Config) (dtype : DType) (blockHash : BlockHash) : Lts (Driver T) (Op T) where
  init s := Cache.new cfg dtype = .ok s.cache ∧ s.phase = .idle
  step s op s' := ∃ next r, Calls cfg dtype s.cache s.phase op next ∧
    op.run blockHash s.cache = some (r, s'.cache) ∧ s'.phase = next.after r

namespace Op

/-- A call does not drop the last reference to a block. A reset drops those of the table, also the
    reset of an import that passed its checks; a clear drops those of the registry. -/
def keepsRef (c : KvCache T) (id : ℕ) : Op T → Prop
  | resetSequence => id ∈ c.registry.blockIds
  | importPrefixBundle bundle prompt => c.Accepts bundle prompt → id ∈ c.registry.blockIds
  | clearPrefixCache _ => id ∈ c.table.blocks
  | _ => True

/-- A call is no write whose runs go astray into a block. -/
def misses (s : Driver T) (id : ℕ) : Op T → Prop
  | writeKv .. => ∀ n, s.phase = .pass n → Misses s.cache.kvs.table n id
  | _ => True

end Op

/-- What slots to write to should be: slots of blocks that have one reference, which is the only
    one in the table; and no slot twice. -/
structure Targets (cfg : Config) (c : KvCache T) (slots : List ℕ) : Prop where
  nodup : slots.Nodup
  lt : ∀ s ∈ slots, s < numSlots cfg
  refCount : ∀ s ∈ slots, c.allocator.refCounts[s / blockSize]? = some 1
  notCached : ∀ s ∈ slots, s / blockSize ∉ c.registry.blockIds
  once : ∀ s ∈ slots, c.table.blocks.count (s / blockSize) = 1

/-- A block has the rows that it had. -/
def KeepsRows (id : ℕ) (p p' : PagedKvPool T) : Prop :=
  ∀ layer j, j < blockSize → p'.kv layer (id * blockSize + j) = p.kv layer (id * blockSize + j)

end Defs

/-! ## 2. The invariant -/

section Invariant

variable {T : Type} [Candle T] {cfg : Config} {dtype : DType} {s s' : Driver T} {c c' : Cache T}
  {phase : Phase} {id : ℕ}

/-- **The invariant**: from the frontier on, the blocks of the table have no other owner. -/
structure Orderly (cfg : Config) (dtype : DType) (s : Driver T) : Prop where
  formed : Formed cfg dtype s.cache
  priv : Private s.cache.kvs (s.phase.frontier s.cache.kvs.table)
  fresh : s.phase = .fresh → s.cache.kvs.table.blocks = [] ∧ s.cache.kvs.table.len = 0
  pass : ∀ n, s.phase = .pass n → n ≤ s.cache.kvs.table.len ∧ n ≤ cfg.maxSeqLen

omit [Candle T] in
/-- **A sealed block** is referenced, and lies before the frontier. -/
structure Sealed (s : Driver T) (id : ℕ) : Prop where
  owned : id ∈ s.cache.kvs.owners
  before : ∀ i, s.cache.kvs.table.blocks[i]? = some id → i < s.phase.frontier s.cache.kvs.table

/-- A cached block is sealed. -/
theorem Orderly.sealed (h : Orderly cfg dtype s) (hid : id ∈ s.cache.kvs.registry.blockIds) :
    Sealed s id :=
  ⟨Multiset.mem_add.mpr (Or.inr hid), fun _ hi =>
    Nat.lt_of_not_le fun hle => (h.priv.once hle hi).2 hid⟩

/-- Between requests nothing may be written. -/
theorem Orderly.of_idle (h : Formed cfg dtype c) : Orderly cfg dtype ⟨c, .idle⟩ := by
  refine ⟨h, fun i id hi hb => ?_, nofun, nofun⟩
  rw [List.getElem?_eq_none hi] at hb
  cases hb

omit [Candle T] in
theorem Sealed.of_idle (h : id ∈ c.kvs.owners) : Sealed ⟨c, .idle⟩ id :=
  ⟨h, fun _ hi => (List.getElem?_eq_some_iff.mp hi).1⟩

theorem Orderly.len_le (h : Orderly cfg dtype s) :
    s.cache.kvs.table.len ≤ s.cache.kvs.table.blocks.length * blockSize := by
  have hcap := h.formed.owned.len_le
  rwa [BlockTable.capacity, h.formed.owned.blockSize] at hcap

omit [Candle T] in
/-- The slots of a sealed block are not among those of the last rows. -/
theorem Sealed.notMem {n j : ℕ} (h : Sealed ⟨c, .pass n⟩ id)
    (hlen : c.kvs.table.len ≤ c.kvs.table.blocks.length * blockSize) (hn : n ≤ c.kvs.table.len)
    (hj : j < blockSize) : id * blockSize + j ∉ lastSlots c.kvs.table n := by
  intro hmem
  obtain ⟨i, hle, hi⟩ := block_of_lastSlots hlen hn hj hmem
  exact absurd hle (Nat.not_le_of_lt (h.before i hi))

/-- **The slots of a write** are private ones. -/
theorem Orderly.targets {n : ℕ} (h : Orderly cfg dtype ⟨c, .pass n⟩) :
    Targets cfg c.kvs (lastSlots c.kvs.table n) := by
  have hn := (h.pass n rfl).1
  have hlen := h.len_le
  have hpriv : Private c.kvs ((c.kvs.table.len - n) / blockSize) := h.priv
  dsimp only at hn hlen
  have hslot : ∀ s ∈ lastSlots c.kvs.table n, ∃ pos, pos < c.kvs.table.len ∧
      s = rowSlot c.kvs.table pos ∧ (c.kvs.table.len - n) / blockSize ≤ pos / blockSize := by
    intro s hs
    obtain ⟨pos, hpos, rfl⟩ := List.mem_map.mp hs
    rw [List.mem_range'_1] at hpos
    exact ⟨pos, by omega, rfl, Nat.div_le_div_right hpos.1⟩
  have hpage : ∀ s ∈ lastSlots c.kvs.table n,
      c.kvs.table.blocks.count (s / blockSize) = 1 ∧ s / blockSize ∉ c.kvs.registry.blockIds := by
    intro s hs
    obtain ⟨pos, hpos, rfl, hle⟩ := hslot s hs
    rw [rowSlot, translate_div (by decide)]
    exact hpriv.page hle (by omega)
  refine ⟨hpriv.nodup_lastSlots hn hlen, fun s hs => ?_, fun s hs => ?_, fun s hs => (hpage s hs).2,
    fun s hs => (hpage s hs).1⟩
  · obtain ⟨pos, hpos, rfl, -⟩ := hslot s hs
    exact h.formed.rowSlot_lt (Nat.lt_of_lt_of_le hpos h.formed.owned.len_le)
  · obtain ⟨honce, hno⟩ := hpage s hs
    have hmem : s / blockSize ∈ c.kvs.table.blocks := List.count_pos_iff.mp (by omega)
    have ht := h.formed.owned.tracks
    rw [ht.count _ (ht.inRange _ (Multiset.mem_add.mpr (Or.inl (Multiset.mem_coe.mpr hmem)))),
      KvCache.owners, Multiset.count_add, Multiset.coe_count, honce, Multiset.count_eq_zero.mpr hno]

end Invariant

/-! ## 3. One call -/

section Call

variable {T : Type} [Candle T] {cfg : Config} {dtype : DType} {c c' : Cache T} {phase next : Phase}
  {op : Op T}

/-- What a call does: it keeps the invariant, what is sealed, and its rows. -/
structure Follows (cfg : Config) (dtype : DType) (s : Driver T) (op : Op T) (s' : Driver T) : Prop where
  orderly : Orderly cfg dtype s'
  sealed : ∀ id, Sealed s id → op.keepsRef s.cache.kvs id → Sealed s' id
  rows : ∀ id, Sealed s id → op.keepsRef s.cache.kvs id → op.misses s id →
    KeepsRows id s.cache.kvs.pool s'.cache.kvs.pool

theorem KeepsRows.of_eq {p p' : PagedKvPool T} (h : p' = p) (id : ℕ) : KeepsRows id p p' := by
  intro layer j _
  rw [h]

/-- A call that leaves the table alone, and the phase. -/
theorem Follows.of_table (h : Orderly cfg dtype ⟨c, phase⟩) (hf : Formed cfg dtype c')
    (htable : c'.kvs.table = c.kvs.table) (hpriv : Private c'.kvs (phase.frontier c.kvs.table))
    (howners : ∀ id, Sealed ⟨c, phase⟩ id → op.keepsRef c.kvs id → id ∈ c'.kvs.owners)
    (hrows : ∀ id, Sealed ⟨c, phase⟩ id → op.misses ⟨c, phase⟩ id →
      KeepsRows id c.kvs.pool c'.kvs.pool) : Follows cfg dtype ⟨c, phase⟩ op ⟨c', phase⟩ := by
  refine ⟨⟨hf, ?_, ?_, ?_⟩, fun id hid hk => ⟨howners id hid hk, ?_⟩, fun id hid _ => hrows id hid⟩
  all_goals
    dsimp only
    rw [htable]
  · exact hpriv
  · exact h.fresh
  · exact h.pass
  · exact hid.before

/-- A call that leaves the references alone, too. -/
theorem Follows.of_same (h : Orderly cfg dtype ⟨c, phase⟩) (hf : Formed cfg dtype c')
    (htable : c'.kvs.table = c.kvs.table) (hreg : c'.kvs.registry = c.kvs.registry)
    (hrows : ∀ id, Sealed ⟨c, phase⟩ id → op.misses ⟨c, phase⟩ id →
      KeepsRows id c.kvs.pool c'.kvs.pool) : Follows cfg dtype ⟨c, phase⟩ op ⟨c', phase⟩ := by
  have howners : c'.kvs.owners = c.kvs.owners := by rw [KvCache.owners, htable, hreg, KvCache.owners]
  refine .of_table h hf htable (fun i id hi hb => ?_) (fun id hid _ => ?_) hrows
  · rw [htable] at hb
    rw [howners]
    exact h.priv i id hi hb
  · rw [howners]
    exact hid.owned

/-- A call that fails, and leaves the references of before, or more. -/
theorem Follows.failed (hf : Formed cfg dtype c')
    (howners : ∀ id, Sealed ⟨c, phase⟩ id → op.keepsRef c.kvs id → id ∈ c'.kvs.owners)
    (hrows : ∀ id, Sealed ⟨c, phase⟩ id → op.keepsRef c.kvs id → KeepsRows id c.kvs.pool c'.kvs.pool) :
    Follows cfg dtype ⟨c, phase⟩ op ⟨c', .idle⟩ :=
  ⟨.of_idle hf, fun id hid hk => .of_idle (howners id hid hk), fun id hid hk _ => hrows id hid hk⟩

/-- A call that leaves a prefix of whole blocks. -/
theorem Follows.full (hf : Formed cfg dtype c')
    (hfull : c'.kvs.table.len = c'.kvs.table.blocks.length * blockSize)
    (howners : ∀ id, Sealed ⟨c, phase⟩ id → op.keepsRef c.kvs id → id ∈ c'.kvs.owners)
    (hrows : ∀ id, Sealed ⟨c, phase⟩ id → op.keepsRef c.kvs id → KeepsRows id c.kvs.pool c'.kvs.pool) :
    Follows cfg dtype ⟨c, phase⟩ op ⟨c', .ready⟩ := by
  have hfrontier : Phase.ready.frontier c'.kvs.table = c'.kvs.table.blocks.length := by
    rw [Phase.frontier, hfull, Nat.mul_div_cancel _ (by decide)]
  have hpriv := (Orderly.of_idle hf).priv
  refine ⟨⟨hf, ?_, nofun, nofun⟩, fun id hid hk => ⟨howners id hid hk, ?_⟩,
    fun id hid hk _ => hrows id hid hk⟩
  all_goals
    dsimp only
    rw [hfrontier]
  · exact hpriv
  · exact fun i hi => (List.getElem?_eq_some_iff.mp hi).1

theorem Follows.reset (hf : Formed cfg dtype c') (hr : KvCache.Reset c.kvs c'.kvs) :
    Follows cfg dtype ⟨c, phase⟩ .resetSequence ⟨c', .fresh⟩ := by
  have hempty : ∀ {i id : ℕ}, c'.kvs.table.blocks[i]? ≠ some id := by simp [hr.blocks]
  refine ⟨⟨hf, fun i id _ hb => absurd hb hempty, fun _ => ⟨hr.blocks, hr.len⟩, nofun⟩,
    fun id _ hk => ⟨Multiset.mem_add.mpr (Or.inr ?_), fun i hi => absurd hi hempty⟩,
    fun id _ _ _ => .of_eq hr.pool id⟩
  dsimp only
  rw [hr.registry]
  exact hk

theorem Follows.clear {drained : List ℕ} (h : Orderly cfg dtype ⟨c, phase⟩) (hf : Formed cfg dtype c')
    (htable : c'.kvs.table = c.kvs.table) (hreg : c'.kvs.registry = PrefixRegistry.new)
    (hpool : c'.kvs.pool = c.kvs.pool) :
    Follows cfg dtype ⟨c, phase⟩ (.clearPrefixCache drained) ⟨c', phase⟩ := by
  have howners : c'.kvs.owners = (c.kvs.table.blocks : Multiset ℕ) := by
    rw [KvCache.owners, htable, hreg, PrefixRegistry.blockIds_new, add_zero]
  refine .of_table h hf htable (fun i id hi hb => ?_) (fun id _ hk => ?_) fun id _ _ => .of_eq hpool id
  · rw [htable] at hb
    rw [howners, Multiset.coe_count]
    exact (h.priv.once hi hb).1
  · rw [howners]
    exact hk

theorem Follows.matched {blockHash : BlockHash} {prompt : List UInt32} {m : ℕ} {ids : List ℕ}
    (h : Orderly cfg dtype ⟨c, .fresh⟩) (hf : Formed cfg dtype c')
    (hm : KvCache.Matched blockHash prompt c.kvs m c'.kvs ids) :
    Follows cfg dtype ⟨c, .fresh⟩ (.matchPrefix prompt) ⟨c', .ready⟩ := by
  obtain ⟨hblocks, hlen⟩ := h.fresh rfl
  refine .full hf ?_ (fun id hid _ => ?_) fun id _ _ => .of_eq hm.pushed.pool id
  · dsimp only at hblocks hlen
    rw [hm.len, hlen, hm.pushed.blocks, hblocks, List.nil_append, Nat.zero_add, hm.tokens]
  · rw [hm.pushed.owners_eq]
    exact Multiset.mem_add.mpr (Or.inr hid.owned)

/-- **A reservation**: the blocks it takes had no owner. -/
theorem Follows.reserved {n : ℕ} {taken : List ℕ} (h : Orderly cfg dtype ⟨c, phase⟩)
    (hphase : phase.frontier c.kvs.table ≤ c.kvs.table.len / blockSize) (hf : Formed cfg dtype c')
    (hr : Cache.Reserved n c c' taken) (hmax : c.kvs.table.len + n ≤ c.maxSeqLen) :
    Follows cfg dtype ⟨c, phase⟩ (.allocateKv n) ⟨c', .pass n⟩ := by
  have hfrontier : (Phase.pass n).frontier c'.kvs.table = c.kvs.table.len / blockSize := by
    rw [Phase.frontier, hr.len, Nat.add_sub_cancel]
  have hpriv : Private c.kvs (phase.frontier c.kvs.table) := h.priv
  have hmaxSeqLen := h.formed.maxSeqLen
  refine ⟨⟨hf, ?_, nofun, fun m hm => ?_⟩, fun id hid _ => ⟨?_, fun i hi => ?_⟩,
    fun id _ _ _ => .of_eq hr.pushed.pool id⟩
  · dsimp only
    rw [hfrontier]
    exact (hpriv.of_le hphase).reserved hr
  · cases hm
    dsimp only at hmaxSeqLen ⊢
    rw [hr.len]
    omega
  · dsimp only
    rw [hr.pushed.owners_eq]
    exact Multiset.mem_add.mpr (Or.inr hid.owned)
  · dsimp only at hi ⊢
    rw [hfrontier]
    rw [hr.pushed.blocks] at hi
    by_cases hlt : i < c.kvs.table.blocks.length
    · rw [List.getElem?_append_left hlt] at hi
      exact Nat.lt_of_lt_of_le (hid.before i hi) hphase
    · rw [List.getElem?_append_right (Nat.le_of_not_lt hlt)] at hi
      have hmem := List.mem_of_getElem? hi
      have hone := hr.fresh id hmem
      have hold := Multiset.one_le_count_iff_mem.mpr hid.owned
      have hnew := List.count_pos_iff.mpr hmem
      rw [hr.pushed.owners_eq, Multiset.count_add, Multiset.coe_count] at hone
      dsimp only at hold
      omega

/-- A reservation, in whichever way it ends. -/
theorem Follows.allocated {blockHash : BlockHash} {n : ℕ} {r : Except String Unit}
    (h : Orderly cfg dtype ⟨c, phase⟩)
    (hphase : phase.frontier c.kvs.table ≤ c.kvs.table.len / blockSize) (hf : Formed cfg dtype c')
    (hrun : (Op.allocateKv n).run blockHash c = some (r, c')) :
    Follows cfg dtype ⟨c, phase⟩ (.allocateKv n)
      ⟨c', (Phase.pass n).after r⟩ := by
  have halloc := Cache.wp_allocateKv h.formed.owned n
  cases r with
  | ok u =>
    obtain ⟨⟨taken, hr⟩, hmax, -⟩ := halloc.of_ok hrun
    exact .reserved h hphase hf hr hmax
  | error e =>
    obtain ⟨⟨taken, hg⟩, -⟩ := halloc.of_error hrun
    refine .failed hf (fun id hid _ => ?_) fun id _ _ => .of_eq hg.pushed.pool id
    rw [hg.pushed.owners_eq]
    exact Multiset.mem_add.mpr (Or.inr hid.owned)

omit [Candle T] in
theorem blockIds_mono {blockHash : BlockHash} {prompt : List UInt32} {n id : ℕ} {c c' : KvCache T}
    (hr : KvCache.Registered blockHash blockSize prompt 0 n c c') (hid : id ∈ c.registry.blockIds) :
    id ∈ c'.registry.blockIds := by
  obtain ⟨hash, tokens, he⟩ := PrefixRegistry.mem_blockIds.mp hid
  exact PrefixRegistry.mem_blockIds.mpr ⟨hash, tokens, hr.kept _ _ he⟩

/-- **Registering** shares blocks before the new frontier only. -/
theorem Follows.registered {blockHash : BlockHash} {prompt : List UInt32} {n : ℕ}
    (h : Orderly cfg dtype ⟨c, .pass n⟩) (hle : prompt.length ≤ c.kvs.table.len)
    (hf : Formed cfg dtype c') (hr : KvCache.Registered blockHash blockSize prompt 0
      (prompt.length / blockSize) c.kvs c'.kvs) :
    Follows cfg dtype ⟨c, .pass n⟩ (.registerPrefix prompt) ⟨c', .ready⟩ := by
  have hle' : (Phase.pass n).frontier c.kvs.table ≤ c.kvs.table.len / blockSize :=
    Nat.div_le_div_right (Nat.sub_le _ _)
  have hpriv : Private c.kvs ((Phase.pass n).frontier c.kvs.table) := h.priv
  have hfrontier : Phase.ready.frontier c'.kvs.table = c.kvs.table.len / blockSize := by
    rw [Phase.frontier, hr.table]
  refine ⟨⟨hf, ?_, nofun, nofun⟩, fun id hid _ => ⟨?_, fun i hi => ?_⟩,
    fun id _ _ _ => .of_eq hr.pool id⟩
  · dsimp only
    rw [hfrontier]
    exact (hpriv.of_le hle').registered hr (Nat.div_le_div_right hle)
  · have howned := hid.owned
    dsimp only at howned ⊢
    rw [KvCache.owners, Multiset.mem_add] at howned ⊢
    rw [hr.table]
    exact howned.imp_right (blockIds_mono hr)
  · dsimp only at hi ⊢
    rw [hr.table] at hi
    rw [hfrontier]
    exact Nat.lt_of_lt_of_le (hid.before i hi) hle'

variable [LawfulCandle T] {blockHash : BlockHash}

/-- **An import** of what was decoded, in whichever way it ends. -/
theorem Follows.imported (h : Orderly cfg dtype ⟨c, .ready⟩) (hf : Formed cfg dtype c')
    {bundle : KvBundle T} (hv : bundle.Valid) {prompt : List UInt32} {r : Except String ℕ}
    (hrun : KvCache.importPrefixBundle blockHash bundle prompt c.kvs = some (r, c'.kvs)) :
    Follows cfg dtype ⟨c, .ready⟩ (.importPrefixBundle bundle prompt)
      ⟨c', Phase.ready.after r⟩ := by
  have hfc : Formed cfg dtype c := h.formed
  have hrows : ∀ id, Sealed ⟨c, .ready⟩ id → (Op.importPrefixBundle bundle prompt).keepsRef c.kvs id →
      KeepsRows id c.kvs.pool c'.kvs.pool := fun id hid hk layer j hj =>
    import_keeps_cached hfc hv hrun (hfc.owned.tracks.inRange id hid.owned) hk layer hj
  by_cases hl : c.kvs.pool.numLayers = 0
  · -- without layers no check passes
    have hno := KvCache.not_accepts_without_layers hl bundle prompt
    have himport : wlp (KvCache.importPrefixBundle blockHash bundle prompt) (fun _ _ => False)
        (fun _ kvs => kvs = c.kvs) c.kvs :=
      wlp_bind ((KvCache.wlp_checkBundle bundle prompt).mono (fun _ _ ha => absurd ha.2 hno)
        fun _ _ he => he.1)
    cases r with
    | ok n => exact (himport.of_ok hrun).elim
    | error e =>
      refine .failed hf (fun id hid _ => ?_) hrows
      rw [himport.of_error hrun]
      exact hid.owned
  have himport := KvCache.wp_importPrefixBundle hfc.owned hl blockHash bundle prompt
  cases r with
  | ok n =>
    obtain ⟨-, hacc, c₀, ids, hr, hi⟩ := himport.of_ok hrun
    refine .full hf ?_ (fun id _ hk => ?_) hrows
    · have hcap := hi.owned.len_le
      have hle := Nat.div_mul_le_self bundle.header.tokenCount blockSize
      rw [BlockTable.capacity, hi.owned.blockSize] at hcap
      rw [← hi.length, ← hi.blocks, ← hi.len] at hle
      exact le_antisymm hcap hle
    · obtain ⟨c₁, hreg, -, hregistered⟩ := hi.registered
      refine Multiset.mem_add.mpr (Or.inr (blockIds_mono hregistered ?_))
      rw [hreg, hr.registry]
      exact hk hacc
  | error e =>
    refine .failed hf (fun id hid hk => ?_) hrows
    rcases himport.of_error hrun with ⟨hsame, -⟩ | ⟨hacc, c₀, hr, hback⟩
    · rw [hsame]
      exact hid.owned
    · refine Multiset.mem_add.mpr (Or.inr ?_)
      rw [hback.registry, hr.registry]
      exact hk hacc

omit [LawfulCandle T] in
/-- **A write** whose runs miss a sealed block. -/
theorem Follows.wrote {n layer : ℕ} {k v : T} {src : ℕ → Row × Row}
    (h : Orderly cfg dtype ⟨c, .pass n⟩) (hw : WroteRows cfg dtype layer n src c c') :
    Follows cfg dtype ⟨c, .pass n⟩ (.writeKv layer k v) ⟨c', .pass n⟩ := by
  refine .of_same h hw.formed hw.wrote.table hw.wrote.registry fun id hid hmiss l j hj => ?_
  have hslot := h.formed.slot_lt (h.formed.owned.tracks.inRange id hid.owned) hj
  rw [hw.kv l _ hslot]
  split_ifs with hl
  · have hlen : (lastSlots c.kvs.table n).length = n := by
      rw [lastSlots, List.length_map, List.length_range']
    rw [hl]
    refine writeRows_of_notMem _ _ (hid.notMem h.len_le (h.pass n rfl).1 hj) fun i hi hget hin => ?_
    rw [hlen] at hi hin
    rw [Nat.zero_add] at hget hin
    exact hmiss n rfl i hi hget _ (Nat.zero_add n ▸ hin.2) hin.1 (page_div hj id)
  · rfl

omit [LawfulCandle T] in
/-- A write whose runs do not miss a block puts a row there. -/
theorem WroteRows.astray {n layer id : ℕ} {src : ℕ → Row × Row}
    (hw : WroteRows cfg dtype layer n src c c') (hid : id < c.kvs.allocator.size)
    (hf : Formed cfg dtype c) (hmiss : ¬ Misses c.kvs.table n id) : ∃ j, j < blockSize ∧
      c'.kvs.pool.kv layer (id * blockSize + j) = src (id * blockSize + j) := by
  have hlen : (lastSlots c.kvs.table n).length = n := by
    rw [lastSlots, List.length_map, List.length_range']
  unfold Misses at hmiss
  push Not at hmiss
  obtain ⟨i, -, hget, s, hs, his, hid'⟩ := hmiss
  have hj : s % blockSize < blockSize := Nat.mod_lt _ (by decide)
  have heq : id * blockSize + s % blockSize = s := by
    rw [← hid', Nat.mul_comm, Nat.div_add_mod]
  refine ⟨s % blockSize, hj, ?_⟩
  have hslot := hf.slot_lt hid hj
  rw [heq] at hslot ⊢
  rw [hw.kv layer s hslot, if_pos rfl]
  exact writeRows_of_run _ _ (by rw [hget, Nat.zero_add]) (by omega) (by omega)

omit [LawfulCandle T] in
/-- A call of the driver is an operation of the cache. -/
theorem Calls.allowed (hf : Formed cfg dtype c) (hpass : ∀ n, phase = .pass n → n ≤ c.kvs.table.len)
    (hc : Calls cfg dtype c phase op next) : op.allowed c := by
  have hlayers : c.kvs.pool.numLayers = cfg.numHiddenLayers := hf.pool.kLen
  cases hc with
  | clear _ h => exact h
  | write hl hs => exact ⟨hl.trans_eq hlayers.symm, _, by rw [hs.kDims]; rfl, hpass _ rfl⟩
  | read hl n => exact hl.trans_eq hlayers.symm
  | register n h => exact covers hf.owned h
  | _ => trivial

/-- **One step.** -/
theorem follows_step {s s' : Driver T} (h : Orderly cfg dtype s)
    (hs : (driverLts cfg dtype blockHash).step s op s') : Follows cfg dtype s op s' := by
  obtain ⟨c, phase⟩ := s
  obtain ⟨c', phase'⟩ := s'
  obtain ⟨next, r, hcall, hrun, hphase⟩ := hs
  dsimp only at hcall hrun hphase
  subst hphase
  have hfc : Formed cfg dtype c := h.formed
  have howned := hfc.owned
  have hf : Formed cfg dtype c' :=
    hfc.step ⟨hcall.allowed hfc fun n hn => (h.pass n hn).1, r, hrun⟩
  cases hcall with
  | reset =>
    have hreset := Cache.wp_resetSequence howned (E := fun _ _ => False)
    cases r with
    | ok u => exact .reset hf (hreset.of_ok hrun).1
    | error e => exact (hreset.of_error hrun).elim
  | clear _ hd =>
    obtain ⟨kvs, hkvs, rfl⟩ := Cache.onKvs_eq_some.mp hrun
    have hclear := KvCache.wp_clearPrefixCache howned hd (E := fun _ _ => False)
    cases r with
    | ok u =>
      obtain ⟨-, htable, hpool, hreg, -⟩ := hclear.of_ok hkvs
      exact .clear h hf htable hreg hpool
    | error e => exact (hclear.of_error hkvs).elim
  | matchPrefix prompt =>
    obtain ⟨m, hmatch, rfl⟩ := discard_eq_some.mp hrun
    have hmatched := Cache.wp_matchPrefix howned blockHash prompt (E := fun _ _ => False)
    cases m with
    | ok m =>
      obtain ⟨⟨ids, hm⟩, -⟩ := hmatched.of_ok hmatch
      exact .matched h hf hm
    | error e => exact (hmatched.of_error hmatch).elim
  | importBundle hv prompt =>
    obtain ⟨m, himport, rfl⟩ := discard_eq_some.mp hrun
    obtain ⟨kvs, hkvs, rfl⟩ := Cache.onKvs_eq_some.mp himport
    cases m with
    | ok m => exact .imported h hf hv hkvs
    | error e => exact .imported h hf hv hkvs
  | firstPass n => exact .allocated h le_rfl hf hrun
  | nextPass m n => exact .allocated h (Nat.div_le_div_right (Nat.sub_le _ _)) hf hrun
  | write hl hs =>
    obtain ⟨hn, hmax⟩ := h.pass _ rfl
    have hwrote := wp_writeKv_rows hfc hl hs hn hmax
    cases r with
    | ok u => exact .wrote h (hwrote.of_ok hrun)
    | error e => exact (hwrote.of_error hrun).elim
  | read hl n =>
    obtain ⟨b, hread, rfl⟩ := discard_eq_some.mp hrun
    have hsame : c' = c := (Cache.wlp_kvBlocks _).of_end (I := (· = c)) hread
    subst hsame
    cases b with
    | ok b => exact .of_same h hf rfl rfl fun id _ _ => .of_eq rfl id
    | error e => exact .failed hf (fun id hid _ => hid.owned) fun id _ _ => .of_eq rfl id
  | register n hle =>
    have hregister := Cache.wp_registerPrefix howned blockHash (covers howned hle)
      (E := fun _ _ => False)
    cases r with
    | ok u => exact .registered h hle hf (hregister.of_ok hrun).1
    | error e => exact (hregister.of_error hrun).elim

end Call

/-! ## 4. Every run -/

section Run

variable {T : Type} [Candle T] [LawfulCandle T] {cfg : Config} {dtype : DType}
  {blockHash : BlockHash} {s s' : Driver T} {ops : List (Op T)} {id : ℕ}

/-- **The invariant on every run.** -/
theorem orderly_run (hr : (driverLts cfg dtype blockHash).Run ops s) : Orderly cfg dtype s := by
  refine hr.invariant (I := fun _ s => Orderly cfg dtype s) (fun s h => ?_)
    fun _ _ _ _ _ h hs => (follows_step h hs).orderly
  obtain ⟨c, phase⟩ := s
  obtain ⟨hnew, hidle⟩ := h
  cases hidle
  exact .of_idle (formed_new hnew)

/-- The calls that keep a reference to a block, and do not write to it by a run gone astray. -/
def Sparing (id : ℕ) (s : Driver T) (op : Op T) : Prop :=
  op.keepsRef s.cache.kvs id ∧ op.misses s id

/-- **A sealed block** stays sealed, and has the rows it had, as long as it is spared. -/
theorem sealed_steps (h : Orderly cfg dtype s) (hid : Sealed s id)
    (hr : ((driverLts cfg dtype blockHash).restrict (Sparing id)).Steps s ops s') :
    Orderly cfg dtype s' ∧ Sealed s' id ∧ KeepsRows id s.cache.kvs.pool s'.cache.kvs.pool := by
  refine hr.invariant (I := fun _ s' => Orderly cfg dtype s' ∧ Sealed s' id ∧
    KeepsRows id s.cache.kvs.pool s'.cache.kvs.pool) ⟨h, hid, .of_eq rfl id⟩
    fun _ s₁ op s₂ _ hI hs => ?_
  obtain ⟨h₁, hid₁, hsame⟩ := hI
  obtain ⟨hs, hkeeps, hmisses⟩ := hs
  have hf := follows_step h₁ hs
  refine ⟨hf.orderly, hf.sealed id hid₁ hkeeps, fun layer j hj => ?_⟩
  rw [hf.rows id hid₁ hkeeps hmisses layer j hj, hsame layer j hj]

/-- **Writes target private blocks, and cached blocks are sealed.** In every state that requests
    reach, by any order of their calls, with failures and clears of the prefix cache anywhere: a
    write goes to different slots of the pool, all in blocks of one reference, which the registry
    does not have and the table has once. And a cached block has the rows it has, until its last
    reference is dropped, if no run of a write goes astray into it. -/
theorem cached_blocks_sealed (hr : (driverLts cfg dtype blockHash).Run ops s) :
    (∀ layer k v next, Calls cfg dtype s.cache s.phase (.writeKv layer k v) next →
      ∃ seqLen slots, (dims k)[2]? = some seqLen ∧ seqLen ≤ s.cache.kvs.table.len ∧
        s.cache.kvs.table.slots (s.cache.kvs.table.len - seqLen) s.cache.kvs.table.len = some slots ∧
        Targets cfg s.cache.kvs slots) ∧
    ∀ id ∈ s.cache.kvs.registry.blockIds, ∀ ops' s',
      ((driverLts cfg dtype blockHash).restrict (Sparing id)).Steps s ops' s' →
        KeepsRows id s.cache.kvs.pool s'.cache.kvs.pool := by
  have h := orderly_run hr
  refine ⟨fun layer k v next hcall => ?_, fun id hid ops' s' hsteps =>
    (sealed_steps h (h.sealed hid) hsteps).2.2⟩
  obtain ⟨c, phase⟩ := s
  cases hcall with
  | write hl hs =>
    rename_i n
    have hn := (h.pass n rfl).1
    have hslots := h.formed.slots (c.kvs.table.len - n) h.formed.owned.len_le
    dsimp only at hn hslots
    rw [Nat.sub_sub_self hn] at hslots
    exact ⟨n, _, by rw [hs.kDims]; rfl, hn, hslots, h.targets⟩

end Run

/-! ## 5. A cached block that is overwritten -/

section Play

variable {T : Type} [Candle T] {cfg : Config} {dtype : DType} {blockHash : BlockHash}

/-- A list of calls returns, and `Q` holds then. -/
def Plays (blockHash : BlockHash) (Q : Cache T → Prop) : List (Op T) → Cache T → Prop
  | [], c => Q c
  | op :: ops, c => wp (op.run blockHash) (fun _ => Plays blockHash Q ops) (fun _ _ => False) c

instance decidablePlays (Q : Cache T → Prop) [DecidablePred Q] :
    ∀ ops c, Decidable (Plays blockHash Q ops c)
  | [], c => inferInstanceAs (Decidable (Q c))
  | op :: ops, c =>
    have := decidablePlays Q ops
    inferInstanceAs (Decidable (wp (op.run blockHash) (fun _ => Plays blockHash Q ops)
      (fun _ _ => False) c))

variable {Q : Cache T → Prop} {C : Driver T → Op T → Prop} {s₀ : Driver T} {c : Cache T}
  {phase next : Phase} {op : Op T} {ops tr : List (Op T)}

/-- The first of these calls is a step of the driver. -/
theorem Plays.step (h : Plays blockHash Q (op :: ops) c) (hcall : Calls cfg dtype c phase op next) :
    ∃ c', (driverLts cfg dtype blockHash).step ⟨c, phase⟩ op ⟨c', next⟩ ∧
      Plays blockHash Q ops c' := by
  obtain ⟨r, c', hrun, hrest⟩ := wp.returns h
  exact ⟨c', ⟨next, .ok r, hcall, hrun, rfl⟩, hrest⟩

theorem Plays.run (h : Plays blockHash Q (op :: ops) c)
    (hr : (driverLts cfg dtype blockHash).Run tr ⟨c, phase⟩)
    (hcall : Calls cfg dtype c phase op next) :
    ∃ c', (driverLts cfg dtype blockHash).Run (op :: tr) ⟨c', next⟩ ∧ Plays blockHash Q ops c' :=
  let ⟨c', hs, hrest⟩ := h.step hcall
  ⟨c', .step hr hs, hrest⟩

theorem Plays.steps (h : Plays blockHash Q (op :: ops) c)
    (hr : ((driverLts cfg dtype blockHash).restrict C).Steps s₀ tr ⟨c, phase⟩)
    (hcall : Calls cfg dtype c phase op next) (hC : C ⟨c, phase⟩ op) :
    ∃ c', ((driverLts cfg dtype blockHash).restrict C).Steps s₀ (op :: tr) ⟨c', next⟩ ∧
      Plays blockHash Q ops c' :=
  let ⟨c', hs, hrest⟩ := h.step hcall
  ⟨c', .step hr ⟨hs, hC⟩, hrest⟩

end Play

/-- A cache of four blocks. -/
def fourBlockConfig : Config :=
  { numHiddenLayers := 1, numKeyValueHeads := 1, headDim := 1, maxSeqLen := 64 }

/-- `n` tokens from `start` on. -/
def tokensFrom (start n : ℕ) : List UInt32 := (List.range' start n).map UInt32.ofNat

/-- `n` rows, each with the value `x`. -/
def denseRows (n x : ℕ) : Dense := ⟨[1, 1, n, 1], .f32, true, fun _ => x⟩

theorem denseRows_shape (n x : ℕ) : OfShape fourBlockConfig .f32 n (denseRows n x) (denseRows n x) :=
  ⟨rfl, rfl, rfl, rfl⟩

/-- The calls of a prefill that matches nothing, up to the pass of its one layer. -/
def passOf (start n x : ℕ) : List (Op Dense) :=
  [.resetSequence, .matchPrefix (tokensFrom start n), .allocateKv n,
    .writeKv 0 (denseRows n x) (denseRows n x)]

set_option synthInstance.maxSize 512 in
/-- A prompt of 17 tokens, then one that matches nothing of it: the block of the first one is
    cached, and the second one writes to others. -/
theorem cached_blocks_sealed_disjoint : ∃ (s s' : Driver Dense) (ops ops' : List (Op Dense)),
    (driverLts fourBlockConfig .f32 sampleHash).Run ops s ∧ s.cache.kvs.registry.blockIds = {0} ∧
    ((driverLts fourBlockConfig .f32 sampleHash).restrict (Sparing 0)).Steps s ops' s' ∧
    s'.cache.kvs.table.blocks = [1, 2] ∧ KeepsRows 0 s.cache.kvs.pool s'.cache.kvs.pool := by
  have hplays : wp (ofExcept (Cache.new fourBlockConfig .f32) : Prog Unit (Cache Dense)) (fun fresh _ =>
      Plays sampleHash (fun c => (tokensFrom 0 17).length ≤ c.kvs.table.len ∧
        Plays sampleHash (fun c => c.kvs.registry.blockIds = {0} ∧
          Plays sampleHash (fun c => (c.kvs.registry.blockIds = {0} ∧ Misses c.kvs.table 17 0) ∧
            Plays sampleHash (fun c => c.kvs.table.blocks = [1, 2])
              [.writeKv 0 (denseRows 17 3) (denseRows 17 3)] c)
            [.resetSequence, .matchPrefix (tokensFrom 100 17), .allocateKv 17] c)
          [.registerPrefix (tokensFrom 0 17)] c)
        (passOf 0 17 2) fresh) (fun _ _ => False) () := by
    decide +kernel
  obtain ⟨c₀, _, hnew, h₀⟩ := hplays.returns
  have r₀ : (driverLts fourBlockConfig .f32 sampleHash).Run [] ⟨c₀, .idle⟩ :=
    .start ⟨(ofExcept_eq_ok.mp hnew).1, rfl⟩
  obtain ⟨c₁, r₁, h₁⟩ := h₀.run r₀ (.reset _)
  obtain ⟨c₂, r₂, h₂⟩ := h₁.run r₁ (.matchPrefix _)
  obtain ⟨c₃, r₃, h₃⟩ := h₂.run r₂ (.firstPass 17)
  obtain ⟨c₄, r₄, hlen, h₄⟩ := h₃.run r₃ (.write (by decide) (denseRows_shape 17 2))
  obtain ⟨c₅, r₅, hids, h₅⟩ := h₄.run r₄ (.register 17 hlen)
  have hin : 0 ∈ c₅.kvs.registry.blockIds := by
    rw [hids]
    exact Multiset.mem_singleton_self 0
  obtain ⟨c₆, r₆, h₆⟩ := h₅.steps (C := Sparing 0) .refl (.reset _) ⟨hin, trivial⟩
  obtain ⟨c₇, r₇, h₇⟩ := h₆.steps r₆ (.matchPrefix _) ⟨trivial, trivial⟩
  obtain ⟨c₈, r₈, ⟨-, hmiss⟩, h₈⟩ := h₇.steps r₇ (.firstPass 17) ⟨trivial, trivial⟩
  obtain ⟨c₉, r₉, htable⟩ := h₈.steps r₈ (.write (by decide) (denseRows_shape 17 3))
    ⟨trivial, fun n hn => by cases hn; exact hmiss⟩
  exact ⟨_, _, _, _, r₅, hids, r₉, htable, (cached_blocks_sealed r₅).2 0 hin _ _ r₉⟩

set_option synthInstance.maxSize 512 in
/-- **A cached block that is overwritten.** A prompt of 15 tokens and two more leave the free blocks
    1, 0, 2, 3; a prompt of 17 tokens takes 1 and 0, and block 1 is cached; one of 48 tokens takes 0,
    2 and 3. The first of its slots is 0, so all its rows go to the slots from 0 to 47: also to those
    of block 1, which the registry refers to all the time. -/
theorem cached_block_overwritten : ∃ (s s' : Driver Dense) (ops ops' : List (Op Dense)),
    (driverLts fourBlockConfig .f32 sampleHash).Run ops s ∧ s.cache.kvs.registry.blockIds = {1} ∧
    ((driverLts fourBlockConfig .f32 sampleHash).restrict fun s op => op.keepsRef s.cache.kvs 1).Steps
      s ops' s' ∧ ¬ KeepsRows 1 s.cache.kvs.pool s'.cache.kvs.pool := by
  have hplays : wp (ofExcept (Cache.new fourBlockConfig .f32) : Prog Unit (Cache Dense)) (fun fresh _ =>
      Plays sampleHash (fun c => (tokensFrom 0 15).length ≤ c.kvs.table.len ∧
        Plays sampleHash (fun c => (tokensFrom 100 17).length ≤ c.kvs.table.len ∧
          Plays sampleHash (fun c₁ => c₁.kvs.registry.blockIds = {1} ∧
            Plays sampleHash (fun c => c.kvs.pool.kv 0 16 ≠ c₁.kvs.pool.kv 0 16) (passOf 200 48 3) c₁)
            [.registerPrefix (tokensFrom 100 17)] c)
          (.registerPrefix (tokensFrom 0 15) :: .allocateKv 1 :: .writeKv 0 (denseRows 1 1)
            (denseRows 1 1) :: .allocateKv 1 :: .writeKv 0 (denseRows 1 1) (denseRows 1 1) ::
            passOf 100 17 2) c)
        (passOf 0 15 1) fresh) (fun _ _ => False) () := by
    decide +kernel
  obtain ⟨c₀, _, hnew, h₀⟩ := hplays.returns
  have r₀ : (driverLts fourBlockConfig .f32 sampleHash).Run [] ⟨c₀, .idle⟩ :=
    .start ⟨(ofExcept_eq_ok.mp hnew).1, rfl⟩
  obtain ⟨c₁, r₁, h₁⟩ := h₀.run r₀ (.reset _)
  obtain ⟨c₂, r₂, h₂⟩ := h₁.run r₁ (.matchPrefix _)
  obtain ⟨c₃, r₃, h₃⟩ := h₂.run r₂ (.firstPass 15)
  obtain ⟨c₄, r₄, hlen, h₄⟩ := h₃.run r₃ (.write (by decide) (denseRows_shape 15 1))
  obtain ⟨c₅, r₅, h₅⟩ := h₄.run r₄ (.register 15 hlen)
  obtain ⟨c₆, r₆, h₆⟩ := h₅.run r₅ (.firstPass 1)
  obtain ⟨c₇, r₇, h₇⟩ := h₆.run r₆ (.write (by decide) (denseRows_shape 1 1))
  obtain ⟨c₈, r₈, h₈⟩ := h₇.run r₇ (.nextPass 1 1)
  obtain ⟨c₉, r₉, h₉⟩ := h₈.run r₈ (.write (by decide) (denseRows_shape 1 1))
  obtain ⟨d₁, q₁, g₁⟩ := h₉.run r₉ (.reset _)
  obtain ⟨d₂, q₂, g₂⟩ := g₁.run q₁ (.matchPrefix _)
  obtain ⟨d₃, q₃, g₃⟩ := g₂.run q₂ (.firstPass 17)
  obtain ⟨d₄, q₄, hlen', g₄⟩ := g₃.run q₃ (.write (by decide) (denseRows_shape 17 2))
  obtain ⟨d₅, q₅, hids, g₅⟩ := g₄.run q₄ (.register 17 hlen')
  have hin : 1 ∈ d₅.kvs.registry.blockIds := by
    rw [hids]
    exact Multiset.mem_singleton_self 1
  obtain ⟨d₆, q₆, g₆⟩ := g₅.steps (C := fun s op => op.keepsRef s.cache.kvs 1) .refl (.reset _) hin
  obtain ⟨d₇, q₇, g₇⟩ := g₆.steps q₆ (.matchPrefix _) trivial
  obtain ⟨d₈, q₈, g₈⟩ := g₇.steps q₇ (.firstPass 48) trivial
  obtain ⟨d₉, q₉, hrow⟩ := g₈.steps q₈ (.write (by decide) (denseRows_shape 48 3)) trivial
  exact ⟨_, _, _, _, q₅, hids, q₉, fun hsame => hrow (hsame 0 0 (by decide))⟩

end Flour.Kv
