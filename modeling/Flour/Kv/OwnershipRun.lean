/-
  File:      Flour/Kv/OwnershipRun.lean
  Subject:   The ownership invariant over every run of cache operations.

  * `Op`, `Op.allowed` -- the operations, and what their callers see to: a prompt is registered
    when the table covers its full blocks, rows are written and read for layers of the model, as
    many as the live sequence has, and the registry is drained in some order of its entries.
  * `cacheLts` -- the operations in any order and number, each returning or failing as the code
    does; requests, also those that fail part-way, are among its runs.
  * **`owned_run`** -- every state reached is `Owned`; **`ownership_run`** spells out what this
    says of counts and free list, and that no operation panics.
-/
import Flour.Kv.Ownership
import Flour.Lib.Except
import Flour.Lib.Run

namespace Flour.Kv

open Candle Flour.Lib Flour.Lib.Prog

variable {T : Type} [Candle T]

inductive Op (T : Type) where
  | resetSequence
  | matchPrefix (tokenIds : List UInt32)
  | importPrefixBundle (bundle : KvBundle T) (prompt : List UInt32)
  | allocateKv (seqLen : ℕ)
  | writeKv (layer : ℕ) (k v : T)
  | kvBlocks (layer : ℕ)
  | registerPrefix (tokenIds : List UInt32)
  | clearPrefixCache (drained : List ℕ)

namespace Op

/-- What the callers of an operation see to. -/
def allowed (c : Cache T) : Op T → Prop
  | writeKv layer k _ => layer < c.kvs.pool.numLayers ∧
      ∃ n, (dims k)[2]? = some n ∧ n ≤ c.kvs.table.len
  | kvBlocks layer => layer < c.kvs.pool.numLayers
  | registerPrefix tokenIds => tokenIds.length / blockSize ≤ c.kvs.table.blocks.length
  | clearPrefixCache drained => (drained : Multiset ℕ) = c.kvs.registry.blockIds
  | _ => True

/-- The operations that write no rows. -/
def keepsPool : Op T → Prop
  | writeKv .. => False
  | importPrefixBundle .. => False
  | _ => True

/-- An operation, without the value it returns. -/
def run (blockHash : BlockHash) : Op T → Prog (Cache T) Unit
  | resetSequence => Cache.resetSequence
  | matchPrefix tokenIds => do
    let _ ← Cache.matchPrefix blockHash tokenIds
    pure ()
  | importPrefixBundle bundle prompt => do
    let _ ← Cache.importPrefixBundle blockHash bundle prompt
    pure ()
  | allocateKv seqLen => Cache.allocateKv seqLen
  | writeKv layer k v => Cache.writeKv layer k v
  | kvBlocks layer => do
    let _ ← Cache.kvBlocks layer
    pure ()
  | registerPrefix tokenIds => Cache.registerPrefix blockHash tokenIds
  | clearPrefixCache drained => Cache.clearPrefixCache drained

end Op

/-- Every order and number of operations on a new cache. -/
def cacheLts (T : Type) [Candle T] (blockHash : BlockHash) : Lts (Cache T) (Op T) where
  init c := ∃ cfg dtype, KvCache.new cfg dtype = .ok c.kvs
  step c op c' := op.allowed c ∧ ∃ r, op.run blockHash c = some (r, c')

/-! ## 1. The invariant -/

theorem zerosFor_length {ds : List ℕ} {dt : DType} :
    ∀ {n : ℕ} {ks vs : List T}, PagedKvPool.zerosFor ds dt n = .ok (ks, vs) →
      ks.length = n ∧ vs.length = ks.length := by
  intro n
  induction n with
  | zero =>
    intro ks vs h
    cases h
    exact ⟨rfl, rfl⟩
  | succ n ih =>
    intro ks vs h
    simp only [PagedKvPool.zerosFor, bind_eq_ok] at h
    obtain ⟨k, _, v, _, ⟨ks', vs'⟩, hrest, hks⟩ := h
    cases hks
    obtain ⟨hk, hv⟩ := ih hrest
    exact ⟨by rw [List.length_cons, hk], by rw [List.length_cons, List.length_cons, hv]⟩

theorem owned_new {cfg : Config} {dtype : DType} {c : KvCache T}
    (h : KvCache.new cfg dtype = .ok c) : c.Owned := by
  simp only [KvCache.new, PagedKvPool.new, bind_eq_ok] at h
  obtain ⟨pool, ⟨⟨ks, vs⟩, hz, hp⟩, hc⟩ := h
  cases hp
  cases hc
  exact ⟨BlockAllocator.tracks_new _, rfl, Nat.zero_le _, (zerosFor_length hz).2⟩

/-- The cache has the number of blocks and of tokens it was made for. -/
structure Sized (cfg : Config) (c : Cache T) : Prop where
  owned : c.kvs.Owned
  size : c.kvs.allocator.size = divCeil cfg.maxSeqLen blockSize
  maxSeqLen : c.maxSeqLen = cfg.maxSeqLen

theorem sized_new {cfg : Config} {dtype : DType} {c : Cache T} (h : Cache.new cfg dtype = .ok c) :
    Sized cfg c := by
  obtain ⟨_, _, h⟩ := Flour.Lib.bind_eq_ok.mp h
  obtain ⟨kvs, hkvs, h⟩ := Flour.Lib.bind_eq_ok.mp h
  cases h
  refine ⟨owned_new hkvs, ?_, rfl⟩
  obtain ⟨pool, _, hkvs⟩ := Flour.Lib.bind_eq_ok.mp hkvs
  cases hkvs
  exact List.length_replicate

theorem numLayers_new {cfg : Config} {dtype : DType} {c : Cache T}
    (h : Cache.new cfg dtype = .ok c) : c.kvs.pool.numLayers = cfg.numHiddenLayers := by
  obtain ⟨_, _, h⟩ := Flour.Lib.bind_eq_ok.mp h
  obtain ⟨kvs, hkvs, h⟩ := Flour.Lib.bind_eq_ok.mp h
  cases h
  obtain ⟨pool, hpool, hkvs⟩ := Flour.Lib.bind_eq_ok.mp hkvs
  cases hkvs
  obtain ⟨⟨ks, vs⟩, hz, hpool⟩ := Flour.Lib.bind_eq_ok.mp hpool
  cases hpool
  exact (zerosFor_length hz).1

section Kept

omit [Candle T]

/-- What no operation changes. -/
structure Kept (c c' : Cache T) : Prop where
  owned : c'.kvs.Owned
  layout : c.kvs.pool.SameLayout c'.kvs.pool
  size : c'.kvs.allocator.size = c.kvs.allocator.size
  maxSeqLen : c'.maxSeqLen = c.maxSeqLen

theorem Kept.refl {c : Cache T} (h : c.kvs.Owned) : Kept c c := ⟨h, .refl _, rfl, rfl⟩

theorem Kept.trans {c c' c'' : Cache T} (h : Kept c c') (h' : Kept c' c'') : Kept c c'' :=
  ⟨h'.owned, h.layout.trans h'.layout, h'.size.trans h.size, h'.maxSeqLen.trans h.maxSeqLen⟩

/-- Operations on table, registry and allocator alone. -/
theorem Kept.of_pool_eq {c c' : Cache T} (ho : c'.kvs.Owned) (hp : c'.kvs.pool = c.kvs.pool)
    (hs : c'.kvs.allocator.size = c.kvs.allocator.size) (hmax : c'.maxSeqLen = c.maxSeqLen) :
    Kept c c' :=
  ⟨ho, by rw [hp]; exact .refl _, hs, hmax⟩

theorem Kept.of_wrote {c c' : Cache T} (h : c.kvs.Owned) (hw : KvCache.Wrote c.kvs c'.kvs)
    (hmax : c'.maxSeqLen = c.maxSeqLen) : Kept c c' :=
  ⟨hw.owned h, hw.layout, by rw [hw.allocator], hmax⟩

theorem Kept.of_reset {c c' : Cache T} (hr : KvCache.Reset c.kvs c'.kvs)
    (hmax : c'.maxSeqLen = c.maxSeqLen) : Kept c c' := .of_pool_eq hr.owned hr.pool hr.size hmax

theorem Kept.of_pushed {c c' : Cache T} {ids : List ℕ} (ho : c'.kvs.Owned)
    (hp : KvCache.Pushed c.kvs c'.kvs ids) (hmax : c'.maxSeqLen = c.maxSeqLen) : Kept c c' :=
  .of_pool_eq ho hp.pool hp.size hmax

end Kept

/-- **One operation**: it keeps the invariant, returning or failing, and it does not panic, but
    for an import into a pool without layers. -/
theorem wp_op (blockHash : BlockHash) {c : Cache T} (h : c.kvs.Owned) {op : Op T}
    (hop : op.allowed c)
    (hl : c.kvs.pool.numLayers ≠ 0 ∨ ∀ b p, op ≠ .importPrefixBundle b p) :
    wp (op.run blockHash) (fun _ c' => Kept c c' ∧ (op.keepsPool → c'.kvs.pool = c.kvs.pool))
      (fun _ c' => Kept c c' ∧ (op.keepsPool → c'.kvs.pool = c.kvs.pool)) c := by
  cases op with
  | resetSequence =>
    exact (Cache.wp_resetSequence h).mono (fun _ _ hr => ⟨.of_reset hr.1 hr.2, fun _ => hr.1.pool⟩)
      fun _ _ hE => hE
  | matchPrefix tokenIds =>
    show wp (Cache.matchPrefix blockHash tokenIds >>= fun _ => pure ()) _ _ c
    rw [wp_bind]
    refine (Cache.wp_matchPrefix h blockHash tokenIds).mono (fun _ _ hm => ?_) fun _ _ hE => hE
    obtain ⟨⟨ids, hm⟩, hmax⟩ := hm
    exact ⟨.of_pushed hm.owned hm.pushed hmax, fun _ => hm.pushed.pool⟩
  | importPrefixBundle bundle prompt =>
    have hl := hl.resolve_right fun hne => hne bundle prompt rfl
    show wp (Cache.onKvs (KvCache.importPrefixBundle blockHash bundle prompt) >>= fun _ => pure ())
      _ _ c
    rw [wp_bind, Cache.onKvs, wp_zoom]
    refine (KvCache.wp_importPrefixBundle h hl blockHash bundle prompt).mono (fun _ kvs hi => ?_)
      fun _ kvs hi => ?_
    · obtain ⟨_, _, c₀, ids, hr, hi⟩ := hi
      exact ⟨⟨hi.owned, hr.pool ▸ hi.layout, hi.size.trans hr.size, rfl⟩, fun hf => hf.elim⟩
    · rcases hi with ⟨rfl, _⟩ | ⟨_, c₀, hr, hi⟩
      · exact ⟨.refl h, fun hf => hf.elim⟩
      · exact ⟨⟨hi.owned, hr.pool ▸ hi.layout, hi.size.trans hr.size, rfl⟩, fun hf => hf.elim⟩
  | allocateKv seqLen =>
    refine (Cache.wp_allocateKv h seqLen).mono (fun _ _ hr => ?_) fun _ _ hr => ?_
    · obtain ⟨⟨ids, hr⟩, _⟩ := hr
      exact ⟨.of_pushed hr.owned hr.pushed hr.maxSeqLen, fun _ => hr.pushed.pool⟩
    · obtain ⟨⟨ids, hg⟩, ho, hmax, _⟩ := hr
      exact ⟨.of_pushed ho hg.pushed hmax, fun _ => hg.pushed.pool⟩
  | writeKv layer k v =>
    obtain ⟨hlayer, n, hd, hn⟩ := hop
    show wp (Cache.onKvs (KvCache.writeCurrent layer k v)) _ _ c
    rw [Cache.onKvs, wp_zoom]
    exact (KvCache.wp_writeCurrent_total h hlayer hd hn).mono
      (fun _ _ hw => ⟨.of_wrote h hw rfl, fun hf => hf.elim⟩)
      fun _ _ hw => ⟨.of_wrote h hw rfl, fun hf => hf.elim⟩
  | kvBlocks layer =>
    show wp (Cache.onKvs (KvCache.gatherBlocks layer) >>= fun _ => pure ()) _ _ c
    rw [wp_bind, Cache.onKvs, wp_zoom]
    refine (KvCache.wp_gatherBlocks_total h hop).mono (fun _ _ hc => ?_) fun _ _ hc => ?_ <;>
    · rw [hc]
      exact ⟨.refl h, fun _ => rfl⟩
  | registerPrefix tokenIds =>
    exact (Cache.wp_registerPrefix h blockHash hop).mono
      (fun _ _ hr => ⟨.of_pool_eq (hr.1.owned h) hr.1.pool hr.1.size hr.2, fun _ => hr.1.pool⟩)
      fun _ _ hE => hE
  | clearPrefixCache drained =>
    show wp (Cache.onKvs (KvCache.clearPrefixCache drained)) _ _ c
    rw [Cache.onKvs, wp_zoom]
    exact (KvCache.wp_clearPrefixCache h hop).mono
      (fun _ _ hc => ⟨.of_pool_eq hc.1 hc.2.2.1 hc.2.2.2.2 rfl, fun _ => hc.2.2.1⟩) fun _ _ hE => hE

/-- Without layers an import fails in one of its first checks, or panics. -/
theorem import_without_layers (blockHash : BlockHash) {c : Cache T}
    (h : c.kvs.pool.numLayers = 0) (bundle : KvBundle T) (prompt : List UInt32) :
    wlp ((Op.importPrefixBundle bundle prompt).run blockHash) (fun _ c' => c' = c)
      (fun _ c' => c' = c) c := by
  have hno := KvCache.not_accepts_without_layers h bundle prompt
  refine wlp_bind ?_
  unfold Cache.importPrefixBundle Cache.onKvs KvCache.importPrefixBundle
  refine wlp_zoom (wlp_bind ((KvCache.wlp_checkBundle bundle prompt).mono (fun _ _ ha => ?_)
    fun _ kvs he => ?_))
  · exact absurd ha.2 hno
  · rw [he.1]

/-- What an operation that ended keeps. -/
theorem kept_step {blockHash : BlockHash} {c c' : Cache T} {op : Op T} (h : c.kvs.Owned)
    (hs : (cacheLts T blockHash).step c op c') :
    Kept c c' ∧ (op.keepsPool → c'.kvs.pool = c.kvs.pool) := by
  obtain ⟨hop, r, hr⟩ := hs
  by_cases hl : c.kvs.pool.numLayers = 0
  · cases op with
    | importPrefixBundle bundle prompt =>
      rw [(import_without_layers blockHash hl bundle prompt).of_end (I := (· = c)) hr]
      exact ⟨.refl h, fun hf => hf.elim⟩
    | _ =>
      exact (wp_op blockHash h hop (Or.inr fun _ _ => by nofun)).of_end
        (I := fun c' => Kept c c' ∧ (_ → c'.kvs.pool = c.kvs.pool)) hr
  · exact (wp_op blockHash h hop (Or.inl hl)).of_end
      (I := fun c' => Kept c c' ∧ (op.keepsPool → c'.kvs.pool = c.kvs.pool)) hr

/-! ## 2. Every run -/

/-- **The invariant on every run.** -/
theorem owned_run {blockHash : BlockHash} {ops : List (Op T)} {c : Cache T}
    (hr : (cacheLts T blockHash).Run ops c) : c.kvs.Owned := by
  have h0 : ∀ c, (cacheLts T blockHash).init c → c.kvs.Owned := fun c ⟨_, _, h⟩ => owned_new h
  exact hr.invariant (I := fun _ c => c.kvs.Owned) h0 fun _ _ _ _ _ h hs => (kept_step h hs).1.owned

/-- **Block ownership.** In every state reached, the count of a block is the number of its
    occurrences in the table and in the registry; the free list has no duplicates and consists of
    the blocks with count zero; the live length is within the capacity. No operation panics, but
    for an import into a pool without layers, and no block that is referenced is handed out. -/
theorem ownership_run {blockHash : BlockHash} {ops : List (Op T)} {c : Cache T}
    (hr : (cacheLts T blockHash).Run ops c) :
    (∀ id, id < c.kvs.allocator.size → c.kvs.allocator.refCounts[id]? =
      some (c.kvs.table.blocks.count id + c.kvs.registry.blockIds.count id)) ∧
    (∀ id, id ∈ c.kvs.table.blocks ∨ id ∈ c.kvs.registry.blockIds → id < c.kvs.allocator.size) ∧
    c.kvs.allocator.free.Nodup ∧
    (∀ id, id ∈ c.kvs.allocator.free ↔ c.kvs.allocator.refCounts[id]? = some 0) ∧
    c.kvs.table.len ≤ c.kvs.table.capacity ∧
    (∀ op : Op T, op.allowed c → op.run blockHash c = none →
      c.kvs.pool.numLayers = 0 ∧ ∃ b p, op = .importPrefixBundle b p) ∧
    ∀ id a, c.kvs.allocator.allocate = some (some id, a) →
      c.kvs.allocator.refCounts[id]? = some 0 ∧ id ∉ c.kvs.table.blocks ∧
        id ∉ c.kvs.registry.blockIds := by
  have h := owned_run hr
  have hcount : ∀ id, id < c.kvs.allocator.size → c.kvs.allocator.refCounts[id]? =
      some (c.kvs.table.blocks.count id + c.kvs.registry.blockIds.count id) := by
    intro id hid
    rw [h.tracks.count id hid, KvCache.owners, Multiset.count_add, Multiset.coe_count]
  refine ⟨hcount, fun id hid => h.tracks.inRange id (Multiset.mem_add.mpr hid), h.tracks.nodup,
    fun id => ?_, h.len_le, fun op hop hnone => ?_, fun id a ha => h.allocate_fresh ha⟩
  · rw [h.tracks.free id]
    constructor
    · rintro ⟨hid, hno⟩
      rw [h.tracks.count id hid, Multiset.count_eq_zero.mpr hno]
    · intro hzero
      have hid : id < c.kvs.allocator.size := (List.getElem?_eq_some_iff.mp hzero).1
      rw [h.tracks.count id hid] at hzero
      exact ⟨hid, Multiset.count_eq_zero.mp (Option.some.inj hzero)⟩
  · by_contra hne
    refine (wp_op blockHash h hop ?_).ne_none hnone
    by_cases hl : c.kvs.pool.numLayers = 0
    · exact Or.inr fun b p hb => hne ⟨hl, b, p, hb⟩
    · exact Or.inl hl

/-- A hash to run the model with. -/
def sampleHash : BlockHash := fun parent chunk =>
  chunk.foldl (fun h t => h * 31 + t.toUInt64) (parent + 1)

def samplePrompt : List UInt32 := (List.range 17).map UInt32.ofNat

def sampleConfig : Config :=
  { numHiddenLayers := 1, numKeyValueHeads := 1, headDim := 1, maxSeqLen := 32 }

/-- A prompt that is cached and matched again: the table and the registry own its first block. -/
theorem ownership_run_matched : ∃ c : Cache Dense,
    (cacheLts Dense sampleHash).Run [.matchPrefix samplePrompt, .resetSequence,
      .registerPrefix samplePrompt, .allocateKv 17, .resetSequence] c ∧
    c.kvs.table.blocks = [0] ∧ c.kvs.registry.blockIds = {0} ∧
    c.kvs.allocator.refCounts[0]? =
      some (c.kvs.table.blocks.count 0 + c.kvs.registry.blockIds.count 0) := by
  have hr : ∃ c : Cache Dense, (cacheLts Dense sampleHash).Run [.matchPrefix samplePrompt,
      .resetSequence, .registerPrefix samplePrompt, .allocateKv 17, .resetSequence] c ∧
      c.kvs.table.blocks = [0] ∧ c.kvs.registry.blockIds = {0} ∧ 0 < c.kvs.allocator.size := by
    refine ⟨_, .step (.step (.step (.step (.step (.start (s := ⟨_, 32⟩) ⟨sampleConfig, .f32, rfl⟩)
      ⟨trivial, _, rfl⟩) ⟨trivial, _, rfl⟩) ⟨?_, _, rfl⟩) ⟨trivial, _, rfl⟩) ⟨trivial, _, rfl⟩, rfl,
      rfl, ?_⟩
    · show samplePrompt.length / blockSize ≤ [0, 1].length
      decide
    · show 0 < [2, 0].length
      decide
  obtain ⟨c, hr, hblocks, hids, hsize⟩ := hr
  exact ⟨c, hr, hblocks, hids, (ownership_run hr).1 0 hsize⟩

end Flour.Kv
