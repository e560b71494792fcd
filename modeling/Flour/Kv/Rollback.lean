/-
  File:      Flour/Kv/Rollback.lean
  Subject:   What an import that failed leaves of the bookkeeping.

  * `RolledBack.asReset` -- a state that was rolled back has the bookkeeping of the reset alone: the
    same owners have the same counts and leave the same blocks free;
  * **`failed_import_clean`** -- so every failed import leaves everything as it was, or as a reset
    alone would have left it.
-/
import Flour.Kv.OwnershipRun

namespace Flour.Kv

open Candle Flour.Lib Flour.Lib.Prog

namespace KvCache

variable {T : Type} {c c₀ c' : KvCache T}

/-- The bookkeeping of `c'` is that of the sequence `c₀` that was just reset. -/
structure AsReset (c₀ c' : KvCache T) : Prop where
  empty : c₀.table.blocks = [] ∧ c₀.table.len = 0
  table : c'.table = c₀.table
  refCounts : c'.allocator.refCounts = c₀.allocator.refCounts
  free : c'.allocator.free.Perm c₀.allocator.free
  registry : c'.registry = c₀.registry
  /-- What an import can take is nobody's again. -/
  released : ∀ id ∈ c₀.allocator.free, c'.allocator.refCounts[id]? = some 0

/-- An empty table leaves the registry the only owner. -/
theorem owners_of_empty (h : c.table.blocks = []) : c.owners = c.registry.blockIds := by
  rw [owners, h, Multiset.coe_nil, zero_add]

theorem table_ext {t t' : BlockTable} (hblocks : t.blocks = t'.blocks)
    (hsize : t.blockSize = t'.blockSize) (hlen : t.len = t'.len) : t = t' := by
  cases t
  cases t'
  cases hblocks
  cases hsize
  cases hlen
  rfl

/-- **What was rolled back** is as the reset left it. -/
theorem RolledBack.asReset (h₀ : Reset c c₀) (h : RolledBack c₀ c') : AsReset c₀ c' := by
  have ht₀ := h₀.owned.tracks
  have ht := h.owned.tracks
  rw [owners_of_empty h₀.blocks] at ht₀
  rw [owners_of_empty h.blocks, h.registry] at ht
  have hcounts := ht₀.refCounts_eq ht h.size
  have htable : c'.table = c₀.table := table_ext (h.blocks.trans h₀.blocks.symm)
    (h.owned.blockSize.trans h₀.owned.blockSize.symm) (h.len.trans h₀.len.symm)
  refine ⟨⟨h₀.blocks, h₀.len⟩, htable, hcounts, ht₀.free_perm ht h.size, h.registry,
    fun id hid => ?_⟩
  obtain ⟨hlt, hno⟩ := (ht₀.free id).mp hid
  rw [hcounts, ht₀.count id hlt, Multiset.count_eq_zero.mpr hno]

/-- All resets of a state leave the same bookkeeping. -/
theorem RolledBack.of_reset {c₁ : KvCache T} (h₀ : Reset c c₀) (h₁ : Reset c c₁)
    (h : RolledBack c₀ c') : RolledBack c₁ c' := by
  refine ⟨?_, h.owned, h.registry.trans (h₀.registry.trans h₁.registry.symm), h.blocks, h.len,
    h.size.trans (h₀.size.trans h₁.size.symm)⟩
  have hlayout := h.layout
  rwa [h₀.pool, ← h₁.pool] at hlayout

end KvCache

variable {T : Type} [Candle T] {blockHash : BlockHash}

/-- **A failed import leaves clean bookkeeping.** In every state reached, for every bundle and every
    prompt: an import that fails leaves table, live length, reference counts, free list and registry
    as they were, or it leaves them as a reset alone would have, but for the order of the free list;
    what it took is free again, wherever it failed. -/
theorem failed_import_clean {ops : List (Op T)} {c : Cache T} (hr : (cacheLts T blockHash).Run ops c)
    {bundle : KvBundle T} {prompt : List UInt32} {e : String} {c' : KvCache T}
    (h : KvCache.importPrefixBundle blockHash bundle prompt c.kvs = some (.error e, c')) :
    (c'.table = c.kvs.table ∧ c'.allocator = c.kvs.allocator ∧ c'.registry = c.kvs.registry) ∨
      ∃ c₀, KvCache.resetSequence c.kvs = some (.ok (), c₀) ∧ c₀.registry = c.kvs.registry ∧
        KvCache.AsReset c₀ c' := by
  have ho := owned_run hr
  have hsame : ∀ {c₁ c₂ : KvCache T}, c₁ = c₂ →
      c₁.table = c₂.table ∧ c₁.allocator = c₂.allocator ∧ c₁.registry = c₂.registry := fun h =>
    ⟨congrArg KvCache.table h, congrArg KvCache.allocator h, congrArg KvCache.registry h⟩
  by_cases hl : c.kvs.pool.numLayers = 0
  · -- without layers no check passes
    have hcheck : wlp (KvCache.checkBundle bundle prompt)
        (fun _ c₁ => wlp (KvCache.resetSequence >>= fun _ => KvCache.importBlocks blockHash bundle)
          (fun _ _ => False) (fun _ c₂ => c₂ = c.kvs) c₁) (fun _ c₂ => c₂ = c.kvs) c.kvs :=
      (KvCache.wlp_checkBundle bundle prompt).mono
        (fun _ _ ha => absurd ha.2 (KvCache.not_accepts_without_layers hl bundle prompt))
        fun _ _ he => he.1
    exact Or.inl (hsame ((wlp_bind hcheck).of_error h))
  · rcases (KvCache.wp_importPrefixBundle ho hl blockHash bundle prompt).of_error h with
      ⟨rfl, _⟩ | ⟨_, c₀, hreset, hback⟩
    · exact Or.inl ⟨rfl, rfl, rfl⟩
    · obtain ⟨_, c₁, hrun, h₁⟩ := (KvCache.wp_resetSequence ho).returns
      exact Or.inr ⟨c₁, hrun, h₁.registry, (hback.of_reset hreset h₁).asReset h₁⟩

/-- Two blocks, of which the second has too many heads. -/
def brokenBundle : KvBundle Dense :=
  let block (b heads : ℕ) : KvBundleBlock Dense :=
    ⟨b, [⟨⟨[heads, 16, 1], .f32, true, fun _ => 1⟩, ⟨[heads, 16, 1], .f32, true, fun _ => 1⟩⟩]⟩
  { header :=
      { modelId := "m", tokenCount := 32, tokenIds := (List.range 32).map UInt32.ofNat
        blockSize := 16, numLayers := 1, numKvHeads := 1, headDim := 1, dtype := .f32 }
    blocks := [block 0 1, block 1 2] }

set_option synthInstance.maxSize 256 in
/-- The import takes the blocks of a sequence of 17 tokens, and gives both back. -/
theorem failed_import_clean_second_block : ∃ (c : Cache Dense) (c₀ c' : KvCache Dense) (e : String),
    (cacheLts Dense sampleHash).Run [.allocateKv 17] c ∧ c.kvs.table.len = 17 ∧
    KvCache.importPrefixBundle sampleHash brokenBundle brokenBundle.header.tokenIds c.kvs =
      some (.error e, c') ∧
    KvCache.resetSequence c.kvs = some (.ok (), c₀) ∧ KvCache.AsReset c₀ c' := by
  have hrun : wp (ofExcept (KvCache.new sampleConfig .f32) : Prog Unit (KvCache Dense))
      (fun fresh _ => fresh.table.len = 0 ∧
        wp (Cache.allocateKv 17) (fun _ c => c.kvs.table.len = 17 ∧
          wp (KvCache.importPrefixBundle sampleHash brokenBundle brokenBundle.header.tokenIds)
            (fun _ _ => False) (fun _ c' => c'.table.len = 0) c.kvs) (fun _ _ => False)
          ⟨fresh, 32⟩) (fun _ _ => False) () := by
    decide +kernel
  obtain ⟨fresh, _, hnew, -, halloc⟩ := hrun.returns
  obtain ⟨_, c, halloc, hlen, himport⟩ := halloc.returns
  obtain ⟨e, c', himport, hzero⟩ := himport.fails
  have hreach : (cacheLts Dense sampleHash).Run [.allocateKv 17] c :=
    .step (.start ⟨sampleConfig, .f32, (ofExcept_eq_ok.mp hnew).1⟩) ⟨trivial, _, halloc⟩
  rcases failed_import_clean hreach himport with ⟨htable, _⟩ | ⟨c₀, hreset, _, hclean⟩
  · rw [htable, hlen] at hzero
    cases hzero
  · exact ⟨c, c₀, c', e, hreach, hlen, himport, hreset, hclean⟩

end Flour.Kv
