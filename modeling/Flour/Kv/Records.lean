/-
  File:      Flour/Kv/Records.lean
  Subject:   What the prefix registry means: an account of the prompts registered and the bundles
             imported since it was last cleared, in which the first to claim a chained hash keeps it.

  * `Registration`, `Record`, `recordedUnder` -- the account: the record under a hash is that of the
    oldest registration with a block of that chained hash; it names the prefix the block ends.
  * `wlp_registerBlocks_records` -- what a call of `register_prefix` adds to the registry, for any
    hash.
  * `historyLts`, **`accounts_run`** -- after every history of operations the registry is the
    account of its registrations, whatever collides.
  * `resetAndMatch_placed`, `Accounts.get` -- a match places what the account answers.
-/
import Flour.Kv.Admission

namespace Flour.Kv

open Candle Flour.Lib Flour.Lib.Prog

/-! ## 1. Records -/

/-- Tokens whose full blocks were registered, and the table they were registered from. -/
structure Registration where
  tokens : List UInt32
  blocks : List ℕ
  deriving DecidableEq

/-- An entry of the registry: the prefix whose last block it is, and the physical block. -/
structure Record where
  tokens : List UInt32
  block : ℕ
  deriving DecidableEq

/-- The tokens of the last block of a prefix. -/
def lastChunk (tokens : List UInt32) : List UInt32 := tokens.drop (tokens.length - blockSize)

/-- What the registry stores of a record. -/
def Record.entry (r : Record) : List UInt32 × ℕ := (lastChunk r.tokens, r.block)

/-- The first of the `n` blocks from `b` on that has the chained hash `h`. -/
def firstBlock (blockHash : BlockHash) (reg : Registration) (h : UInt64) : ℕ → ℕ → Option Record
  | 0, _ => none
  | n + 1, b =>
    if chainHash blockHash blockSize reg.tokens (b + 1) = h then
      reg.blocks[b]?.map fun id => { tokens := reg.tokens.take ((b + 1) * blockSize), block := id }
    else firstBlock blockHash reg h n (b + 1)

/-- The record a registration makes under a hash that has none yet. -/
def Registration.record (blockHash : BlockHash) (reg : Registration) (h : UInt64) :
    Option Record :=
  firstBlock blockHash reg h (reg.tokens.length / blockSize) 0

/-- The record under a hash, after the registrations listed newest first. -/
def recordedUnder (blockHash : BlockHash) : List Registration → UInt64 → Option Record
  | [], _ => none
  | reg :: older, h => (recordedUnder blockHash older h).or (reg.record blockHash h)

section Records

variable {blockHash : BlockHash} {reg : Registration} {regs : List Registration} {h : UInt64}

/-- A full block is the last block of the prefix it ends. -/
theorem lastChunk_take {tokens : List UInt32} {b : ℕ} (hb : b < tokens.length / blockSize) :
    lastChunk (tokens.take ((b + 1) * blockSize)) = chunk blockSize tokens b := by
  have hle : (b + 1) * blockSize ≤ tokens.length :=
    le_trans (Nat.mul_le_mul_right _ hb) (Nat.div_mul_le_self _ _)
  rw [lastChunk, List.length_take, Nat.min_eq_left hle, List.drop_take, chunk, Nat.succ_mul,
    Nat.add_sub_cancel, Nat.add_sub_cancel_left]

theorem firstBlock_eq_some {n b : ℕ} {r : Record} (hr : firstBlock blockHash reg h n b = some r) :
    ∃ k, b ≤ k ∧ k < b + n ∧ chainHash blockHash blockSize reg.tokens (k + 1) = h ∧
      reg.blocks[k]? = some r.block ∧ r.tokens = reg.tokens.take ((k + 1) * blockSize) := by
  induction n generalizing b with
  | zero => cases hr
  | succ n ih =>
    rw [firstBlock] at hr
    split_ifs at hr with hh
    · obtain ⟨id, hid, rfl⟩ := Option.map_eq_some_iff.mp hr
      exact ⟨b, le_refl b, by omega, hh, hid, rfl⟩
    · obtain ⟨k, hle, hlt, hrest⟩ := ih hr
      exact ⟨k, by omega, by omega, hrest⟩

/-- A hash that no block has makes no record. -/
theorem firstBlock_eq_none {n b : ℕ}
    (hno : ∀ k, b ≤ k → k < b + n → chainHash blockHash blockSize reg.tokens (k + 1) ≠ h) :
    firstBlock blockHash reg h n b = none := by
  induction n generalizing b with
  | zero => rfl
  | succ n ih =>
    rw [firstBlock, if_neg (hno b (le_refl b) (by omega))]
    exact ih fun k hle hlt => hno k (by omega) (by omega)

/-- **Where a record comes from**: a block of a registration, under its chained hash. -/
theorem recordedUnder_eq_some {r : Record} (hr : recordedUnder blockHash regs h = some r) :
    ∃ reg ∈ regs, ∃ k, k < reg.tokens.length / blockSize ∧
      chainHash blockHash blockSize reg.tokens (k + 1) = h ∧
      reg.blocks[k]? = some r.block ∧ r.tokens = reg.tokens.take ((k + 1) * blockSize) := by
  induction regs with
  | nil => cases hr
  | cons reg older ih =>
    rcases Option.or_eq_some_iff.mp hr with hold | ⟨_, hnew⟩
    · obtain ⟨reg', hmem, hrest⟩ := ih hold
      exact ⟨reg', List.mem_cons_of_mem _ hmem, hrest⟩
    · obtain ⟨k, _, hlt, hrest⟩ := firstBlock_eq_some hnew
      exact ⟨reg, List.mem_cons_self, k, by rwa [Nat.zero_add] at hlt, hrest⟩

/-- The hash of a record's prefix is the hash it is recorded under, and the prefix ends a block. -/
theorem recordedUnder_chain {r : Record} (hr : recordedUnder blockHash regs h = some r) :
    ∃ k, r.tokens.length = (k + 1) * blockSize ∧
      chainHash blockHash blockSize r.tokens (k + 1) = h := by
  obtain ⟨reg, _, k, hk, hh, _, htok⟩ := recordedUnder_eq_some hr
  have hle : (k + 1) * blockSize ≤ reg.tokens.length :=
    le_trans (Nat.mul_le_mul_right _ hk) (Nat.div_mul_le_self _ _)
  refine ⟨k, by rw [htok, List.length_take, Nat.min_eq_left hle], ?_⟩
  rw [← hh]
  refine chainHash_congr ?_
  rw [htok, List.take_take, Nat.min_self]

end Records

/-! ## 2. What registering adds -/

section Register

variable {T : Type} {blockHash : BlockHash}

/-- The state after the `n` blocks of `reg` from `b` on were registered. -/
structure Recorded (blockHash : BlockHash) (reg : Registration) (n b : ℕ) (c c' : KvCache T) :
    Prop where
  pool : c'.pool = c.pool
  table : c'.table = c.table
  size : c'.allocator.size = c.allocator.size
  tracks : c'.allocator.Tracks c'.owners
  lookup : ∀ h, c'.registry.entries.lookup h =
    (c.registry.entries.lookup h).or ((firstBlock blockHash reg h n b).map Record.entry)
  covered : ∀ k, b ≤ k → k < b + n →
    c'.registry.entries.lookup (chainHash blockHash blockSize reg.tokens (k + 1)) ≠ none

/-- **Registering**, for any hash and any table: where it does not panic, each block is recorded
    under its chained hash, unless something is recorded there already. -/
theorem wlp_registerBlocks_records (reg : Registration) {c : KvCache T}
    (h : c.allocator.Tracks c.owners) (hbs : c.table.blockSize = blockSize)
    (hreg : reg.blocks = c.table.blocks)
    {n b : ℕ} (hn : b + n ≤ reg.tokens.length / blockSize) :
    wlp (KvCache.registerBlocks blockHash reg.tokens n b
      (chainHash blockHash blockSize reg.tokens b))
      (fun _ c' => Recorded blockHash reg n b c c') (fun _ _ => False) c := by
  induction n generalizing c b with
  | zero =>
    refine Or.inr ⟨rfl, rfl, rfl, h, fun h' => ?_, fun k hle hlt => absurd hlt (by omega)⟩
    rw [firstBlock, Option.map_none, Option.or_none]
  | succ n ih =>
    have hh : blockHash (chainHash blockHash blockSize reg.tokens b)
        (chunk c.table.blockSize reg.tokens b) =
        chainHash blockHash blockSize reg.tokens (b + 1) := by
      rw [hbs]
      rfl
    refine KvCache.wlp_registerBlocks_succ hh (fun hc => ?_) fun hc id a hget ha => ?_
    · -- the hash is taken: nothing is recorded for this block
      refine (ih (b := b + 1) h hbs hreg (by omega)).mono (fun _ c' hr => ?_) fun _ _ hE => hE
      obtain ⟨e, he⟩ := Option.isSome_iff_exists.mp hc
      refine ⟨hr.pool, hr.table, hr.size, hr.tracks, fun h' => ?_, fun k hle hlt => ?_⟩
      · rw [hr.lookup, firstBlock]
        split_ifs with hh
        · rw [← hh, he, Option.some_or, Option.some_or]
        · rfl
      · rcases Nat.eq_or_lt_of_le hle with rfl | hlt'
        · rw [hr.lookup, he, Option.some_or]
          exact Option.some_ne_none _
        · exact hr.covered k hlt' (by omega)
    · obtain ⟨a', ha', ht, -, hs⟩ := h.incref
        (Multiset.mem_add.mpr (Or.inl (Multiset.mem_coe.mpr (List.mem_of_getElem? hget))))
      obtain rfl := Option.some.inj (ha.symm.trans ha')
      have hlook := PrefixRegistry.lookup_insert c.registry
        (chainHash blockHash blockSize reg.tokens (b + 1)) (chunk blockSize reg.tokens b) id
      have hnone := Finmap.lookup_eq_none.mpr (PrefixRegistry.contains_eq_false.mp hc)
      rw [hbs]
      refine (ih (c := ⟨c.pool, a, c.table, _⟩) (b := b + 1) (KvCache.tracks_insert ht hc _) hbs hreg
        (by omega)).mono (fun _ c' hr => ?_) fun _ _ hE => hE
      refine ⟨hr.pool, hr.table, hr.size.trans hs, hr.tracks, fun h' => ?_, fun k hle hlt => ?_⟩
      · rw [hr.lookup, firstBlock, hlook, hreg, hget]
        by_cases hh : h' = chainHash blockHash blockSize reg.tokens (b + 1)
        · subst hh
          rw [if_pos rfl, if_pos rfl, hnone, Option.some_or, Option.none_or, Option.map_some,
            Option.map_some, Record.entry, lastChunk_take (by omega)]
        · rw [if_neg hh, if_neg fun heq => hh heq.symm]
      · rcases Nat.eq_or_lt_of_le hle with rfl | hlt'
        · rw [hr.lookup, hlook, if_pos rfl, Option.some_or]
          exact Option.some_ne_none _
        · exact hr.covered k hlt' (by omega)

end Register

/-! ## 3. Histories of operations -/

section History

variable {T : Type} [Candle T] {blockHash : BlockHash}

/-- An operation that ended: its reply, and the cache after it. -/
structure Ended (T : Type) where
  op : Op T
  reply : Except String Unit
  after : Cache T

/-- Every order and number of operations on a new cache, returning or failing. -/
def historyLts (T : Type) [Candle T] (blockHash : BlockHash) : Lts (Cache T) (Ended T) where
  init c := ∃ cfg dtype, KvCache.new cfg dtype = .ok c.kvs
  step c e c' := (∀ drained, e.op = .clearPrefixCache drained →
      (drained : Multiset ℕ) = c.kvs.registry.blockIds) ∧
    e.op.run blockHash c = some (e.reply, c') ∧ e.after = c'

/-- What an operation registers: a prompt, or an imported bundle. -/
def Ended.registers : Ended T → Option Registration
  | ⟨.registerPrefix tokenIds, .ok _, c⟩ => some ⟨tokenIds, c.kvs.table.blocks⟩
  | ⟨.importPrefixBundle bundle _, .ok _, c⟩ => some ⟨bundle.header.tokenIds, c.kvs.table.blocks⟩
  | _ => none

/-- The registrations after an operation. -/
def Ended.account (e : Ended T) (regs : List Registration) : List Registration :=
  match e.op with
  | .clearPrefixCache _ => []
  | _ => e.registers.toList ++ regs

/-- The registrations since the last `clear_prefix_cache`, newest first. -/
def registrations : List (Ended T) → List Registration
  | [] => []
  | e :: older => e.account (registrations older)

/-- **The registry is the account** of some registrations. -/
structure Accounts (blockHash : BlockHash) (regs : List Registration) (c : KvCache T) : Prop where
  owned : c.Owned
  lookup : ∀ h, c.registry.entries.lookup h = (recordedUnder blockHash regs h).map Record.entry
  covered : ∀ reg ∈ regs, ∀ b, b < reg.tokens.length / blockSize →
    recordedUnder blockHash regs (chainHash blockHash blockSize reg.tokens (b + 1)) ≠ none

section Step

variable {regs : List Registration}

omit [Candle T]

/-- Operations that leave the registry alone. -/
theorem Accounts.of_registry_eq {c c' : KvCache T} (h : Accounts blockHash regs c)
    (ho : c'.Owned) (hr : c'.registry = c.registry) : Accounts blockHash regs c' :=
  ⟨ho, by rw [hr]; exact h.lookup, h.covered⟩

/-- **A registration is added to the account.** -/
theorem Accounts.recorded {c c' : KvCache T} (h : Accounts blockHash regs c) {reg : Registration}
    (ho : c'.Owned)
    (hl : ∀ h', c'.registry.entries.lookup h' = (c.registry.entries.lookup h').or
      ((firstBlock blockHash reg h' (reg.tokens.length / blockSize) 0).map Record.entry))
    (hcov : ∀ k, 0 ≤ k → k < 0 + reg.tokens.length / blockSize →
      c'.registry.entries.lookup (chainHash blockHash blockSize reg.tokens (k + 1)) ≠ none) :
    Accounts blockHash (reg :: regs) c' := by
  have hlook : ∀ h', c'.registry.entries.lookup h' =
      (recordedUnder blockHash (reg :: regs) h').map Record.entry := by
    intro h'
    rw [hl, h.lookup]
    show _ = ((recordedUnder blockHash regs h').or (firstBlock blockHash reg h' _ 0)).map _
    cases recordedUnder blockHash regs h' <;> rfl
  refine ⟨ho, hlook, fun reg' hmem b hb => ?_⟩
  rcases List.mem_cons.mp hmem with rfl | hmem
  · have hc := hcov b (Nat.zero_le b) (by omega)
    rw [hlook] at hc
    exact fun hnone => hc (by rw [hnone]; rfl)
  · intro hnone
    exact h.covered reg' hmem b hb (Option.or_eq_none_iff.mp hnone).1

theorem accounts_new {cfg : Config} {dtype : DType} [Candle T] {c : KvCache T}
    (h : KvCache.new cfg dtype = .ok c) : Accounts blockHash [] c := by
  refine ⟨owned_new h, fun h' => ?_, fun _ hmem => absurd hmem List.not_mem_nil⟩
  obtain ⟨pool, _, hc⟩ := Flour.Lib.bind_eq_ok.mp h
  cases hc
  rfl

theorem Recorded.owned {reg : Registration} {n b : ℕ} {c c' : KvCache T} (h : c.Owned)
    (hr : Recorded blockHash reg n b c c') : c'.Owned :=
  ⟨hr.tracks, by rw [hr.table, h.blockSize], by rw [hr.table]; exact h.len_le,
    by rw [hr.pool]; exact h.layers⟩

end Step

/-- An import that returns records its tokens, one that fails records nothing. -/
theorem wlp_importPrefixBundle_records {c : KvCache T} (h : c.Owned) (bundle : KvBundle T)
    (prompt : List UInt32) :
    wlp (KvCache.importPrefixBundle blockHash bundle prompt)
      (fun _ c' => c'.Owned ∧ ∃ c₁, c₁.registry = c.registry ∧
        Recorded blockHash ⟨bundle.header.tokenIds, c'.table.blocks⟩
          (bundle.header.tokenIds.length / blockSize) 0 c₁ c')
      (fun _ c' => c'.Owned ∧ c'.registry = c.registry) c := by
  refine wlp_bind ((KvCache.wlp_checkBundle bundle prompt).mono (fun _ c' hc => ?_)
    fun _ c' hc => by rw [hc.1]; exact ⟨h, rfl⟩)
  obtain ⟨rfl, ha⟩ := hc
  refine Or.inr ?_
  rw [wp_bind]
  refine (KvCache.wp_resetSequence h).mono (fun _ c₀ hr => ?_) fun _ _ hE => hE
  have hnum := ha.blocks
  have hal := ha.aligned
  rw [h.blockSize] at hnum hal
  have hlayers : bundle.header.numLayers = c₀.pool.kPools.length := by
    rw [ha.numLayers, hr.pool]
    rfl
  refine (KvCache.wp_importBlocks_loaded hr.owned hr.blocks hr.len blockHash hnum hal hlayers
    (fun c₁ ids hl => ?_)).mono (fun _ c' hQ => hQ.2) fun _ c' hE => ⟨hE.owned, ?_⟩
  · have hlen : bundle.header.tokenIds.length / blockSize = bundle.header.tokenCount / blockSize := by
      rw [ha.tokenIds]
    have hrec : wlp (KvCache.registerBlocks blockHash bundle.header.tokenIds
          (bundle.header.tokenCount / blockSize) 0 prefixHashSeed)
        (fun _ c' => Recorded blockHash ⟨bundle.header.tokenIds, c₁.table.blocks⟩
          (bundle.header.tokenCount / blockSize) 0 c₁ c') (fun _ _ => False) c₁ :=
      wlp_registerBlocks_records ⟨bundle.header.tokenIds, c₁.table.blocks⟩ hl.owned.tracks
        hl.owned.blockSize rfl (by rw [Nat.zero_add, hlen])
    refine ((hl.wp_registerBlocks blockHash).and_wlp hrec).mono (fun _ c' hr' => ?_)
      fun _ _ hE => hE.1
    refine ⟨hr'.2.owned hl.owned, c₁, hl.registry.trans hr.registry, ?_⟩
    rw [hr'.2.table, hlen]
    exact hr'.2
  · rw [hE.registry, hr.registry]

section Ops

variable {regs : List Registration} {c : Cache T} (h : Accounts blockHash regs c.kvs)

include h

theorem wlp_import_accounts (bundle : KvBundle T) (prompt : List UInt32) :
    wlp ((Op.importPrefixBundle bundle prompt).run blockHash)
      (fun _ c' => Accounts blockHash (⟨bundle.header.tokenIds, c'.kvs.table.blocks⟩ :: regs) c'.kvs)
      (fun _ c' => Accounts blockHash regs c'.kvs) c := by
  refine wlp_bind (Cache.wlp_onKvs ((wlp_importPrefixBundle_records h.owned bundle prompt).mono
    (fun _ kvs hi => ?_) fun _ kvs hi => ?_))
  · obtain ⟨ho, c₁, hreg, hrec⟩ := hi
    have h₁ : ∀ h', kvs.registry.entries.lookup h' =
        (c.kvs.registry.entries.lookup h').or
          ((firstBlock blockHash ⟨bundle.header.tokenIds, kvs.table.blocks⟩ h'
            (bundle.header.tokenIds.length / blockSize) 0).map Record.entry) := by
      rw [← hreg]
      exact hrec.lookup
    exact Or.inr (h.recorded ho h₁ hrec.covered)
  · exact h.of_registry_eq hi.1 hi.2

theorem wlp_register_accounts (tokenIds : List UInt32) :
    wlp ((Op.registerPrefix tokenIds).run blockHash : Prog (Cache T) Unit)
      (fun _ c' => Accounts blockHash (⟨tokenIds, c'.kvs.table.blocks⟩ :: regs) c'.kvs)
      (fun _ _ => False) c := by
  refine Cache.wlp_onKvs (wlp_bind (Or.inr ?_))
  rw [wp_get, h.owned.blockSize]
  refine (wlp_registerBlocks_records ⟨tokenIds, c.kvs.table.blocks⟩ h.owned.tracks
    h.owned.blockSize rfl (by rw [Nat.zero_add])).mono (fun _ kvs hr => ?_) fun _ _ hE => hE
  show Accounts blockHash (⟨tokenIds, kvs.table.blocks⟩ :: regs) kvs
  rw [hr.table]
  exact h.recorded (hr.owned h.owned) hr.lookup hr.covered

theorem wp_clear_accounts {drained : List ℕ}
    (hd : (drained : Multiset ℕ) = c.kvs.registry.blockIds) :
    wp ((Op.clearPrefixCache drained).run blockHash : Prog (Cache T) Unit)
      (fun _ c' => Accounts blockHash [] c'.kvs) (fun _ _ => False) c := by
  refine Cache.wp_onKvs.mpr ((KvCache.wp_clearPrefixCache h.owned hd).mono (fun _ kvs hc => ?_)
    fun _ _ hE => hE)
  refine ⟨hc.1, fun h' => ?_, fun _ hmem => absurd hmem List.not_mem_nil⟩
  rw [hc.2.2.2.1]
  rfl

end Ops

/-- **One operation keeps the account.** -/
theorem accounts_step {regs : List Registration} {c c' : Cache T} {e : Ended T}
    (h : Accounts blockHash regs c.kvs) (hs : (historyLts T blockHash).step c e c') :
    Accounts blockHash (e.account regs) c'.kvs := by
  obtain ⟨hdrain, hrun, hafter⟩ := hs
  obtain ⟨op, reply, after⟩ := e
  obtain rfl : after = c' := hafter
  have same : ∀ {x : Prog (Cache T) Unit},
      wlp x (fun _ c' => c'.kvs.Owned ∧ c'.kvs.registry = c.kvs.registry)
        (fun _ c' => c'.kvs.Owned ∧ c'.kvs.registry = c.kvs.registry) c →
      x c = some (reply, after) → Accounts blockHash regs after.kvs := by
    intro x hx hr
    have hend := hx.of_end (I := fun c' => c'.kvs.Owned ∧ c'.kvs.registry = c.kvs.registry) hr
    exact h.of_registry_eq hend.1 hend.2
  cases op with
  | resetSequence =>
    exact same (Or.inr ((Cache.wp_resetSequence h.owned).mono
      (fun _ _ hr => ⟨hr.1.owned, hr.1.registry⟩) fun _ _ hE => hE)) hrun
  | matchPrefix tokenIds =>
    refine same (wlp_bind (Or.inr ((Cache.wp_matchPrefix h.owned blockHash tokenIds).mono
      (fun _ _ hm => Or.inr ?_) fun _ _ hE => hE))) hrun
    obtain ⟨⟨ids, hm⟩, _⟩ := hm
    exact ⟨hm.owned, hm.pushed.registry⟩
  | importPrefixBundle bundle prompt =>
    have himp := wlp_import_accounts h bundle prompt
    cases reply with
    | error msg => exact himp.of_error hrun
    | ok u => exact himp.of_ok hrun
  | allocateKv seqLen =>
    refine same (Or.inr ((Cache.wp_allocateKv h.owned seqLen).mono (fun _ _ hr => ?_)
      fun _ _ hr => ?_)) hrun
    · obtain ⟨⟨ids, hr⟩, _⟩ := hr
      exact ⟨hr.owned, hr.pushed.registry⟩
    · obtain ⟨⟨ids, hg⟩, ho, _⟩ := hr
      exact ⟨ho, hg.pushed.registry⟩
  | writeKv layer k v =>
    exact same ((Cache.wlp_writeKv layer k v).mono
      (fun _ _ hw => ⟨hw.1.owned h.owned, hw.1.registry⟩)
      fun _ _ hw => ⟨hw.1.owned h.owned, hw.1.registry⟩) hrun
  | kvBlocks layer =>
    refine same (wlp_bind ((Cache.wlp_kvBlocks layer).mono (fun _ _ hc => Or.inr ?_)
      fun _ _ hc => ?_)) hrun <;>
    · subst hc
      exact ⟨h.owned, rfl⟩
  | registerPrefix tokenIds =>
    have hreg := wlp_register_accounts h tokenIds
    cases reply with
    | error msg => exact (hreg.of_error hrun).elim
    | ok u => exact hreg.of_ok hrun
  | clearPrefixCache drained =>
    have hclear := wp_clear_accounts h (hdrain drained rfl)
    cases reply with
    | error msg => exact (hclear.of_error hrun).elim
    | ok u => exact hclear.of_ok hrun

/-- **The registry after every history** is the account of the registrations since the last clear,
    for every hash. -/
theorem accounts_run {tr : List (Ended T)} {c : Cache T} (h : (historyLts T blockHash).Run tr c) :
    Accounts blockHash (registrations tr) c.kvs := by
  refine h.invariant (I := fun tr c => Accounts blockHash (registrations tr) c.kvs)
    (fun c h0 => ?_) fun _ _ _ _ _ hI hs => accounts_step hI hs
  obtain ⟨_, _, hnew⟩ := h0
  exact accounts_new hnew

/-- Operations all of which return, with the trace they leave. -/
def endAll (blockHash : BlockHash) :
    List (Op T) → List (Ended T) → Prog (Cache T) (List (Ended T))
  | [], tr => pure tr
  | op :: ops, tr => do
    op.run blockHash
    let c ← Prog.get
    endAll blockHash ops (⟨op, .ok (), c⟩ :: tr)

theorem endAll_run {ops : List (Op T)}
    {tr tr' : List (Ended T)} {c c' : Cache T} (h : (historyLts T blockHash).Run tr c)
    (hno : ∀ op ∈ ops, ∀ drained, op ≠ .clearPrefixCache drained)
    (hx : endAll blockHash ops tr c = some (.ok tr', c')) : (historyLts T blockHash).Run tr' c' := by
  induction ops generalizing tr c with
  | nil =>
    obtain ⟨rfl, rfl⟩ := pure_eq_ok.mp hx
    exact h
  | cons op ops ih =>
    obtain ⟨hop, hrest⟩ := List.forall_mem_cons.mp hno
    obtain ⟨u, c₁, h₁, hx⟩ := Prog.bind_eq_ok.mp hx
    obtain ⟨c₂, c₃, hget, hx⟩ := Prog.bind_eq_ok.mp hx
    cases hget
    exact ih (h.step ⟨fun drained hd => absurd hd (hop drained), h₁, rfl⟩) hrest hx

end History

/-! ## 4. What a match places -/

section Placed

variable {T : Type} {blockHash : BlockHash} {prompt : List UInt32}

/-- The blocks a match finds in a registry, and why it stops. -/
structure Placed (blockHash : BlockHash) (prompt : List UInt32) (r : PrefixRegistry)
    (ids : List ℕ) : Prop where
  le : ids.length ≤ KvCache.maxReusable blockSize prompt.length
  found : ∀ b id, ids[b]? = some id →
    r.get (chainHash blockHash blockSize prompt (b + 1)) (chunk blockSize prompt b) = some id
  stop : ids.length < KvCache.maxReusable blockSize prompt.length →
    r.get (chainHash blockHash blockSize prompt (ids.length + 1))
      (chunk blockSize prompt ids.length) = none

/-- **A match on a reset sequence.** -/
theorem resetAndMatch_placed {c : Cache T} (h : c.kvs.Owned) (blockHash : BlockHash)
    (prompt : List UInt32) : ∃ c₁, resetAndMatch blockHash prompt c =
      some (.ok (blockSize * c₁.kvs.table.blocks.length), c₁) ∧
      Placed blockHash prompt c.kvs.registry c₁.kvs.table.blocks := by
  obtain ⟨matched, c₁, hx, hr⟩ := (wp_resetAndMatch h blockHash prompt).returns
  obtain ⟨d, ids, hm, hreg⟩ := hr.found
  have hblocks : c₁.kvs.table.blocks = ids := by
    have hlen := hr.blocks
    rw [hm.pushed.blocks, List.length_append, hm.tokens, Nat.mul_div_cancel _ (by decide)] at hlen
    have hnil : d.table.blocks = [] := List.eq_nil_of_length_eq_zero (by omega)
    rw [hm.pushed.blocks, hnil, List.nil_append]
  refine ⟨c₁, ?_, ?_⟩
  · rw [hx, hm.tokens, hblocks, Nat.mul_comm]
  · rw [hblocks]
    refine ⟨hm.le, fun b id hb => ?_, fun hlt => ?_⟩
    · have hfound := hm.found b id hb
      rwa [Nat.zero_add, hreg] at hfound
    · rw [← hreg]
      exact hm.stop hlt

theorem maxReusable_le (bs len : ℕ) : KvCache.maxReusable bs len ≤ len / bs := by
  unfold KvCache.maxReusable
  split
  · exact Nat.sub_le _ _
  · exact le_refl _

/-- A lookup answers from the account: the record under the hash, if its last block has the tokens
    asked for. -/
theorem Accounts.get {regs : List Registration} {c : KvCache T} (h : Accounts blockHash regs c)
    (hash : UInt64) (tokens : List UInt32) (id : ℕ) :
    c.registry.get hash tokens = some id ↔
      ∃ r, recordedUnder blockHash regs hash = some r ∧ lastChunk r.tokens = tokens ∧
        r.block = id := by
  rw [PrefixRegistry.get_eq_some, h.lookup, Option.map_eq_some_iff]
  refine exists_congr fun r => and_congr_right fun _ => ?_
  rw [Record.entry, Prod.mk.injEq]

end Placed

end Flour.Kv
