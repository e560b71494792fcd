/-
  File:      Flour/Kv/Admission.lean
  Subject:   When the next local-only prefill obtains its KV blocks.

  The registry keeps a reference to every full block of every prompt, across sequences, and nothing
  but `clear_prefix_cache` releases them. So the blocks a prefill can get are those the registry
  does not hold:

  * `heldBlocks` -- the distinct blocks the registry refers to;
  * **`local_prefill_admitted_iff`** -- after every history of local-only requests, the prefill of a
    prompt that fits obtains its blocks iff the blocks of its unmatched part and the held ones are
    together at most the blocks of the cache;
  * `admission_depends_on_history` -- one prompt that fills the cache locks every other one out.
-/
import Flour.Kv.Requests

namespace Flour.Kv

open Candle Flour.Lib Flour.Lib.Prog

section Admission

variable {T : Type}

/-- The distinct blocks the registry refers to. -/
def heldBlocks (r : PrefixRegistry) : ℕ := r.blockIds.toFinset.card

/-- The blocks a prompt needs that its match does not provide. -/
def unmatchedBlocks (len matched : ℕ) : ℕ := divCeil len blockSize - matched / blockSize

theorem maxReusable_mul_lt {len : ℕ} (h : 1 ≤ len) :
    KvCache.maxReusable blockSize len * blockSize < len := by
  unfold KvCache.maxReusable
  unfold blockSize
  split <;> omega

/-- Where the table refers to blocks of the registry only, the other blocks are free. -/
theorem numFree_add_held {c : KvCache T} (h : c.Owned)
    (hsub : ∀ id ∈ c.table.blocks, id ∈ c.registry.blockIds) :
    c.allocator.numFree + heldBlocks c.registry = c.allocator.size := by
  have hfin : c.owners.toFinset = c.registry.blockIds.toFinset := by
    ext id
    rw [Multiset.mem_toFinset, Multiset.mem_toFinset, KvCache.owners, Multiset.mem_add]
    exact ⟨fun hid => hid.elim (hsub id) fun h => h, Or.inr⟩
  unfold heldBlocks
  rw [← hfin]
  exact h.tracks.numFree_add_owned

/-- After a reset every block is free that the registry does not refer to. -/
theorem KvCache.Reset.free {c c' : KvCache T} (h : Reset c c') :
    c'.allocator.numFree + heldBlocks c.registry = c.allocator.size := by
  rw [← h.registry, ← h.size]
  refine numFree_add_held h.owned fun id hid => ?_
  rw [h.blocks] at hid
  exact absurd hid List.not_mem_nil

/-- The state in which a local-only prefill reserves its blocks. -/
structure Ready (blockHash : BlockHash) (prompt : List UInt32) (c : Cache T) (matched : ℕ)
    (c₁ : Cache T) : Prop where
  owned : c₁.kvs.Owned
  pool : c₁.kvs.pool = c.kvs.pool
  registry : c₁.kvs.registry = c.kvs.registry
  size : c₁.kvs.allocator.size = c.kvs.allocator.size
  maxSeqLen : c₁.maxSeqLen = c.maxSeqLen
  len : c₁.kvs.table.len = matched
  blocks : c₁.kvs.table.blocks.length = matched / blockSize
  free : c₁.kvs.allocator.numFree + heldBlocks c.kvs.registry = c.kvs.allocator.size
  lt : 1 ≤ prompt.length → matched < prompt.length
  found : ∃ d ids, KvCache.Matched blockHash prompt d matched c₁.kvs ids ∧
    d.registry = c.kvs.registry

theorem wp_resetAndMatch {c : Cache T} (h : c.kvs.Owned) (blockHash : BlockHash)
    (prompt : List UInt32) {E : String → Cache T → Prop} :
    wp (resetAndMatch blockHash prompt) (fun matched c₁ => Ready blockHash prompt c matched c₁) E
      c := by
  unfold resetAndMatch
  rw [wp_bind]
  refine (Cache.wp_resetSequence h).mono (fun _ c₀ hr => ?_) fun _ _ hE => hE
  refine (Cache.wp_matchPrefix hr.1.owned blockHash prompt).mono (fun matched c₁ hm => ?_)
    fun _ _ hE => hE
  obtain ⟨⟨ids, hm⟩, hmax⟩ := hm
  have hblocks : c₁.kvs.table.blocks = ids := by rw [hm.pushed.blocks, hr.1.blocks, List.nil_append]
  have hreg : c₁.kvs.registry = c.kvs.registry := hm.pushed.registry.trans hr.1.registry
  have hpos : 0 < blockSize := by decide
  refine ⟨hm.owned, hm.pushed.pool.trans hr.1.pool, hreg, hm.pushed.size.trans hr.1.size,
    hmax.trans hr.2, ?_, ?_, ?_, fun h1 => ?_, c₀.kvs, ids, hm, hr.1.registry⟩
  · rw [hm.len, hr.1.len, Nat.zero_add]
  · rw [hblocks, hm.tokens, Nat.mul_div_cancel _ hpos]
  · rw [← hreg, ← hr.1.size, ← hm.pushed.size]
    refine numFree_add_held hm.owned fun id hid => ?_
    rw [hblocks] at hid
    obtain ⟨k, hk⟩ := List.getElem?_of_mem hid
    rw [hm.pushed.registry]
    exact PrefixRegistry.mem_blockIds_of_get (hm.found k id hk)
  · refine lt_of_le_of_lt ?_ (maxReusable_mul_lt h1)
    rw [hm.tokens]
    exact Nat.mul_le_mul_right _ hm.le

theorem Ready.aligned {blockHash : BlockHash} {prompt : List UInt32} {c c₁ : Cache T} {matched : ℕ}
    (h : Ready blockHash prompt c matched c₁) : Aligned c₁.kvs matched := by
  obtain ⟨d, ids, hm, -⟩ := h.found
  refine ⟨h.len, ?_⟩
  rw [h.blocks, hm.tokens, Nat.mul_div_cancel _ (by decide)]

/-- What the reservation lacks there. -/
theorem Ready.missing {blockHash : BlockHash} {prompt : List UInt32} {c c₁ : Cache T} {matched : ℕ}
    (h : Ready blockHash prompt c matched c₁) (hlt : matched < prompt.length) :
    c₁.missing (prompt.length - matched) = unmatchedBlocks prompt.length matched := by
  unfold Cache.missing unmatchedBlocks
  rw [h.len, h.blocks, Nat.add_sub_cancel' (Nat.le_of_lt hlt)]

/-- **The reservation of a prompt that fits** succeeds or reports that the blocks ran out. -/
theorem Ready.allocateKv {blockHash : BlockHash} {prompt : List UInt32} {c c₁ : Cache T}
    {matched : ℕ} (h : Ready blockHash prompt c matched c₁) (h1 : 1 ≤ prompt.length)
    (hmax : prompt.length ≤ c.maxSeqLen) :
    if unmatchedBlocks prompt.length matched + heldBlocks c.kvs.registry ≤ c.kvs.allocator.size then
      ∃ c₂, Cache.allocateKv (prompt.length - matched) c₁ = some (.ok (), c₂)
    else ∃ c₂,
      Cache.allocateKv (prompt.length - matched) c₁ = some (.error "out of kv blocks", c₂) := by
  have hlt := h.lt h1
  have hmiss := h.missing hlt
  have hfree := h.free
  rcases (Cache.wp_allocateKv h.owned (prompt.length - matched)).exists with
    ⟨u, c₂, hx, _, _, hle⟩ | ⟨e, c₂, hx, _, _, _, hbig | ⟨rfl, hlt'⟩⟩
  · rw [hmiss] at hle
    rw [if_pos (by omega)]
    exact ⟨c₂, hx⟩
  · rw [h.len, h.maxSeqLen] at hbig
    omega
  · rw [hmiss] at hlt'
    rw [if_neg (by omega)]
    exact ⟨c₂, hx⟩

end Admission

/-! ## 1. Histories -/

section Histories

variable {T H O : Type} [Candle T]

/-- **Admission.** After every history of local-only requests, the prefill of a prompt that fits
    matches some of its tokens, and its reservation succeeds iff the blocks of its unmatched part
    and the blocks the registry holds are together at most the blocks of the cache. Otherwise it
    fails with "out of kv blocks". -/
theorem local_prefill_admitted_iff {fromSlice : List UInt8 → Except String KvBundleMeta}
    {blockHash : BlockHash} {m : CausalLM T H O} {modelId : String} {dtype : DType}
    {history : List (Served T)} {c : Cache T}
    (hr : (requestLts fromSlice blockHash m modelId dtype).Run history c) {prompt : List UInt32}
    (h1 : 1 ≤ prompt.length) (hmax : prompt.length ≤ m.cfg.maxSeqLen) :
    ∃ matched c₁, resetAndMatch blockHash prompt c = some (.ok matched, c₁) ∧
      matched < prompt.length ∧
      ((∃ c₂, Cache.allocateKv (prompt.length - matched) c₁ = some (.ok (), c₂)) ↔
        unmatchedBlocks prompt.length matched + heldBlocks c.kvs.registry ≤
          divCeil m.cfg.maxSeqLen blockSize) ∧
      ((∃ c₂, Cache.allocateKv (prompt.length - matched) c₁ =
          some (.error "out of kv blocks", c₂)) ↔
        divCeil m.cfg.maxSeqLen blockSize <
          unmatchedBlocks prompt.length matched + heldBlocks c.kvs.registry) := by
  have hs := sized_run hr
  obtain ⟨matched, c₁, hx, hready⟩ := (wp_resetAndMatch hs.owned blockHash prompt).returns
  have halloc := hready.allocateKv h1 (by rw [hs.maxSeqLen]; exact hmax)
  rw [hs.size] at halloc
  refine ⟨matched, c₁, hx, hready.lt h1, ?_, ?_⟩
  · split_ifs at halloc with hle
    · exact ⟨fun _ => hle, fun _ => halloc⟩
    · obtain ⟨c₂, h₂⟩ := halloc
      exact ⟨fun ⟨_, h⟩ => (by rw [h₂] at h; cases h), fun h => absurd h hle⟩
  · split_ifs at halloc with hle
    · obtain ⟨c₂, h₂⟩ := halloc
      exact ⟨fun ⟨_, h⟩ => (by rw [h₂] at h; cases h), fun h => absurd hle (Nat.not_le_of_lt h)⟩
    · exact ⟨fun _ => Nat.lt_of_not_le hle, fun _ => halloc⟩

end Histories

/-! ## 2. A history that locks prompts out -/

/-- A model to run: the K row of a position is its token, the V row the token after it. -/
def sampleModel (cfg : Config) : CausalLM Dense (List UInt32) Unit where
  cfg := cfg
  embed tokenIds := .ok tokenIds
  keyValue _ x _ :=
    let row (tag : ℕ) : Dense := { dims := [1, 1, x.length, 1], dtype := .f32, contiguous := true,
                                   elem := fun idx => (x.getD (idx.getD 2 0) 0).toNat + tag }
    .ok (row 0, row 1)
  attend _ x _ _ := .ok x
  output _ := .ok ()

/-- A decoder of headers that knows none. -/
def noHeader : List UInt8 → Except String KvBundleMeta := fun _ => .error "no header"

def oneBlock : Config := { numHiddenLayers := 1, numKeyValueHeads := 1, headDim := 1, maxSeqLen := 16 }

/-- The history of one prompt of 16 tokens on a cache of one block. -/
abbrev fillingRequest : Request := { prompt := (List.range 16).map UInt32.ofNat, completion := [] }

/-- **One prompt can lock out the next.** A cache of 16 tokens serves a prompt of 16 tokens; then the
    prompt `[7]`, which a new cache accepts, is told that the blocks ran out. -/
theorem admission_depends_on_history :
    ∃ (fresh c : Cache Dense) (served : Served Dense),
      (requestLts noHeader sampleHash (sampleModel oneBlock) "m" .f32).Run [] fresh ∧
      (requestLts noHeader sampleHash (sampleModel oneBlock) "m" .f32).Run [served] c ∧
      served.request = fillingRequest ∧ served.reply = .ok () ∧
      (∃ matched c₁ c₂, resetAndMatch sampleHash [7] fresh = some (.ok matched, c₁) ∧
        Cache.allocateKv (1 - matched) c₁ = some (.ok (), c₂)) ∧
      ∃ matched c₁ c₂, resetAndMatch sampleHash [7] c = some (.ok matched, c₁) ∧
        Cache.allocateKv (1 - matched) c₁ = some (.error "out of kv blocks", c₂) := by
  have hrun : wp (ofExcept (Cache.new oneBlock .f32) : Prog Unit (Cache Dense))
      (fun fresh _ =>
        wp (resetAndMatch sampleHash [7]) (fun matched c₁ =>
          wp (Cache.allocateKv (1 - matched)) (fun _ _ => True) (fun _ _ => False) c₁)
          (fun _ _ => False) fresh ∧
        wp (serve noHeader sampleHash (sampleModel oneBlock) "m" fillingRequest) (fun _ s =>
          wp (resetAndMatch sampleHash [7]) (fun matched c₁ =>
            wp (Cache.allocateKv (1 - matched)) (fun _ _ => False)
              (fun e _ => e = "out of kv blocks") c₁) (fun _ _ => False) s.cache)
          (fun _ _ => False) { cache := fresh, passes := [] }) (fun _ _ => False) () := by
    decide +kernel
  obtain ⟨fresh, _, hnew, hfresh, hserve⟩ := hrun.returns
  have hnew := (ofExcept_eq_ok.mp hnew).1
  obtain ⟨matched, c₁, hm, hadmit⟩ := hfresh.returns
  obtain ⟨_, c₂, ha, _⟩ := hadmit.returns
  obtain ⟨_, s, hs, hfull⟩ := hserve.returns
  obtain ⟨matched', c₁', hm', hrefuse⟩ := hfull.returns
  obtain ⟨e, c₂', ha', rfl⟩ := hrefuse.fails
  exact ⟨fresh, s.cache, ⟨fillingRequest, .ok (), s.passes⟩, .start hnew,
    .step (.start hnew) hs, rfl, rfl, ⟨matched, c₁, c₂, hm, ha⟩, matched', c₁', c₂', hm', ha'⟩

/-- The same history, by the theorem: the prompt needs one block, and the registry holds the only
    one. -/
theorem local_prefill_refused : ∃ (c : Cache Dense) (served : Served Dense),
    (requestLts noHeader sampleHash (sampleModel oneBlock) "m" .f32).Run [served] c ∧
    ∃ matched c₁, resetAndMatch sampleHash [7] c = some (.ok matched, c₁) ∧
      ∃ c₂, Cache.allocateKv (1 - matched) c₁ = some (.error "out of kv blocks", c₂) := by
  have hrun : wp (ofExcept (Cache.new oneBlock .f32) : Prog Unit (Cache Dense))
      (fun fresh _ => heldBlocks fresh.kvs.registry = 0 ∧
        wp (serve noHeader sampleHash (sampleModel oneBlock) "m" fillingRequest)
          (fun _ s => heldBlocks s.cache.kvs.registry = 1) (fun _ _ => False)
          { cache := fresh, passes := [] }) (fun _ _ => False) () := by
    decide +kernel
  obtain ⟨fresh, _, hnew, -, hserve⟩ := hrun.returns
  obtain ⟨_, s, hs, hheld⟩ := hserve.returns
  have hr : (requestLts noHeader sampleHash (sampleModel oneBlock) "m" .f32).Run
      [⟨fillingRequest, .ok (), s.passes⟩] s.cache :=
    .step (.start (ofExcept_eq_ok.mp hnew).1) hs
  obtain ⟨matched, c₁, hm, hlt, -, hrefused⟩ :=
    local_prefill_admitted_iff hr (show 1 ≤ [7].length by decide) (by decide)
  refine ⟨s.cache, _, hr, matched, c₁, hm, hrefused.mpr ?_⟩
  -- nothing of the prompt is matched
  obtain rfl : matched = 0 := Nat.lt_one_iff.mp hlt
  rw [hheld]
  decide

end Flour.Kv
