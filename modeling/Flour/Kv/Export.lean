/-
  File:      Flour/Kv/Export.lean
  Subject:   What a finished request publishes: `KvCache::export_prefix_bundle`, the publish policy,
             and `KvSession::finish`.

  * `Exported` -- a bundle with the tokens, the shape and the rows of a live sequence.
  * `wp_exportLayers`, `wlp_exportBlocks` -- the two loops: a view of a whole block, without its
    batch axis, holds the rows of the block's slots.
  * **`wlp_exportPrefixBundle`** -- an export changes nothing, and what it returns is `Exported`.
  * `wlp_finish` -- neither does `finish`; bytes are the encoding of such a bundle.
-/
import Flour.Kv.Encode
import Flour.Kv.Import
import Flour.Kv.Session

namespace Flour.Kv

open Candle Flour.Lib Flour.Lib.Prog

/-! ## 1. The functions -/

/-- The derived `Debug` text. -/
def DType.debug : DType → String
  | .u8 => "U8"
  | .u32 => "U32"
  | .i64 => "I64"
  | .bf16 => "BF16"
  | .f16 => "F16"
  | .f32 => "F32"
  | .f64 => "F64"

/-- A program without state, in any state. -/
def stateless {σ α : Type} (x : Prog Unit α) : Prog σ α := Prog.zoom (fun _ => ()) (fun s _ => s) x

namespace KvCache

variable {T : Type} [Candle T]

/-- The listed layers of the block whose first slot is `startSlot`. -/
def exportLayers (startSlot : ℕ) : List ℕ → Prog (KvCache T) (List (KvLayerBlock T))
  | [] => pure []
  | layer :: rest => do
    let c ← Prog.get
    let (k, v) ← onPool (Prog.of fun p =>
      (p.blockView layer startSlot c.table.blockSize).map fun r => (r, p))
    let k ← Prog.ofExcept (squeeze k 0 >>= contiguous)
    let v ← Prog.ofExcept (squeeze v 0 >>= contiguous)
    let layers ← exportLayers startSlot rest
    pure ({ k, v } :: layers)

/-- The listed logical blocks. -/
def exportBlocks : List ℕ → Prog (KvCache T) (List (KvBundleBlock T))
  | [] => pure []
  | b :: rest => do
    let c ← Prog.get
    let startSlot ← Prog.ofOption (c.table.slot (b * c.table.blockSize))
    stateless (withCapacity c.pool.numLayers 16)
    let layers ← exportLayers startSlot (List.range c.pool.numLayers)
    let blocks ← exportBlocks rest
    pure ({ logicalBlockIdx := b, layers } :: blocks)

/-- The first `tokenCount` live tokens as a bundle. -/
def exportPrefixBundle (modelId : String) (tokenIds : List UInt32) (tokenCount : ℕ) :
    Prog (KvCache T) (KvBundle T) := do
  let c ← Prog.get
  let bs := c.table.blockSize
  if tokenCount = 0 ∨ tokenCount % bs ≠ 0 then
    Prog.fail s!"export token_count {tokenCount} not aligned to block size {bs}"
  else if c.table.len < tokenCount then
    Prog.fail s!"export token_count {tokenCount} exceeds live len {c.table.len}"
  else if tokenIds.length < tokenCount then
    Prog.fail s!"token_ids len {tokenIds.length} shorter than token_count {tokenCount}"
  else do
    let dtype ← Prog.ofOption c.pool.dtype
    match BundleDType.fromCandle dtype with
    | none => Prog.fail s!"dtype {dtype.debug} is not representable in a kv bundle"
    | some dtype => do
      stateless (withCapacity (tokenCount / bs) 32)
      let blocks ← exportBlocks (List.range (tokenCount / bs))
      pure
        { header :=
            { modelId, tokenCount, tokenIds := tokenIds.take tokenCount, blockSize := bs
              numLayers := c.pool.numLayers, numKvHeads := c.pool.kvHeads
              headDim := c.pool.headDim, dtype }
          blocks }

end KvCache

def Cache.exportPrefixBundle {T : Type} [Candle T] (modelId : String) (tokenIds : List UInt32)
    (tokenCount : ℕ) : Prog (Cache T) (KvBundle T) :=
  onKvs (KvCache.exportPrefixBundle modelId tokenIds tokenCount)

structure PublishPolicy where
  minBlocks : ℕ
  blockSize : ℕ

namespace PublishPolicy

def new (minBlocks blockSize : ℕ) : PublishPolicy := { minBlocks, blockSize := max blockSize 1 }

/-- Whether the request computed blocks of a reusable prefix that were not cached. -/
def shouldStore (p : PublishPolicy) (promptTokens reusableTokens reusedPrefixTokens : ℕ) : Bool :=
  promptTokens ≥ p.minBlocks * p.blockSize && reusableTokens > 0 &&
    reusedPrefixTokens < reusableTokens

end PublishPolicy

/-- The policy both constructors of a manager set. -/
def publishPolicy : PublishPolicy := .new 2 blockSize

structure KvPublish where
  key : Option String
  bundleBytes : Option (List UInt8)

/-- Exports and encodes the reusable prefix; nothing is published when that is disabled, declined
    or fails. -/
def KvSession.finish {T : Type} [Candle T] [HostCandle T]
    (toVec : KvBundleMeta → Except String (List UInt8)) : Prog (KvSession.State T) KvPublish := do
  let (s, _) ← Prog.get
  let key := s.remoteKey
  if s.remoteStore.isNone || key.isNone then pure { key, bundleBytes := none }
  else if !publishPolicy.shouldStore s.promptTokens.length s.reusableTokens s.reusedPrefixTokens then
    pure { key, bundleBytes := none }
  else do
    let exported ← Prog.catching (onTraced (onCache
      (Cache.exportPrefixBundle s.modelId s.promptTokens s.reusableTokens)))
    match exported with
    | .error _ => pure { key, bundleBytes := none }
    | .ok bundle => do
      let encoded ← Prog.catching (stateless (KvBundleCodec.encode toVec bundle))
      match encoded with
      | .error _ => pure { key, bundleBytes := none }
      | .ok bytes => pure { key, bundleBytes := some bytes }

/-! ## 2. What an export reads -/

section Rows

variable {T : Type} [Candle T] {cfg : Config} {dtype : DType}

/-- The header of a bundle of the first `n` tokens. -/
def prefixHeader (cfg : Config) (d : BundleDType) (modelId : String) (tokenIds : List UInt32)
    (n : ℕ) : KvBundleMeta :=
  { modelId, tokenCount := n, tokenIds := tokenIds.take n, blockSize
    numLayers := cfg.numHiddenLayers, numKvHeads := cfg.numKeyValueHeads, headDim := cfg.headDim
    dtype := d }

/-- A bundle of the first `n` live tokens. -/
structure Exported (cfg : Config) (d : BundleDType) (c : KvCache T) (modelId : String)
    (tokenIds : List UInt32) (n : ℕ) (bundle : KvBundle T) : Prop where
  pos : n ≠ 0
  aligned : n % blockSize = 0
  le : n ≤ c.table.len
  covers : n ≤ tokenIds.length
  layers : cfg.numHiddenLayers ≠ 0
  header : bundle.header = prefixHeader cfg d modelId tokenIds n
  allocates : bundle.header.Allocates
  numbered : bundle.blocks.map KvBundleBlock.logicalBlockIdx = List.range' 0 (n / blockSize)
  blocks : Mapped cfg d.toCandle bundle.blocks c

variable [LawfulCandle T]

/-- A view without its batch axis, copied out. -/
theorem squeeze_contiguous {t : T} {a n d : ℕ} (h : dims t = [1, a, n, d]) :
    ∃ t', (squeeze t 0 >>= contiguous) = .ok t' ∧ dims t' = [a, n, d] ∧
      Candle.dtype t' = Candle.dtype t ∧ ∀ j, row a d t' j = batchRow a d t j := by
  obtain ⟨u, hu, hud, hudt, hrow⟩ := squeeze_rows h
  obtain ⟨t', ht', hd, hdt, -, he⟩ := LawfulCandle.contiguous_copy u
  refine ⟨t', by rw [hu]; exact ht', hd.trans hud, hdt.trans hudt, fun j => ?_⟩
  rw [← hrow, row_congr fun i k _ _ => he [i, j, k]]

/-- **The layers of a block**: none fails, and each has the rows of the block's slots. -/
theorem wp_exportLayers {c : Cache T} (h : Formed cfg dtype c) {id : ℕ}
    (hid : (id + 1) * blockSize ≤ numSlots cfg) {first n : ℕ}
    (hn : first + n ≤ cfg.numHiddenLayers) :
    wp (KvCache.exportLayers (id * blockSize) (List.range' first n)) (fun layers c' =>
      c' = c.kvs ∧ layers.length = n ∧ ∀ i lb, layers[i]? = some lb →
        LayerRows cfg dtype lb fun j => c.kvs.pool.kv (first + i) (id * blockSize + j))
      (fun _ _ => False) c.kvs := by
  induction n generalizing first with
  | zero => exact ⟨rfl, rfl, fun i lb hlb => (by cases hlb)⟩
  | succ n ih =>
    rw [Nat.succ_mul] at hid
    obtain ⟨⟨k, v⟩, hview, hshape, hrows⟩ := h.pool.blockView (show first < _ by omega) hid
    have hs := h.batch_iff.mp hshape
    obtain ⟨k', hk', hkd, hkdt, hkrow⟩ := squeeze_contiguous hs.kDims
    obtain ⟨v', hv', hvd, hvdt, hvrow⟩ := squeeze_contiguous hs.vDims
    rw [List.range'_succ, KvCache.exportLayers, wp_bind, wp_get]
    dsimp only
    rw [h.owned.blockSize, wp_bind, KvCache.onPool, wp_zoom]
    refine (wp_of_eq_ok (by rw [hview]; rfl)).mpr ?_
    show wp (Prog.ofExcept (squeeze k 0 >>= contiguous) >>= _) _ _ _
    rw [wp_bind, wp_ofExcept, hk']
    show wp (Prog.ofExcept (squeeze v 0 >>= contiguous) >>= _) _ _ _
    rw [wp_bind, wp_ofExcept, hv']
    show wp (KvCache.exportLayers _ (List.range' (first + 1) n) >>= _) _ _ c.kvs
    rw [wp_bind]
    refine (ih (show first + 1 + n ≤ _ by omega)).mono (fun layers c' hrest => ?_) fun _ _ hE => hE
    obtain ⟨rfl, hlen, hrest⟩ := hrest
    refine ⟨rfl, by rw [List.length_cons, hlen], fun i lb hlb => ?_⟩
    cases i with
    | zero =>
      cases hlb
      refine ⟨⟨hkd, hkdt.trans hs.kDtype⟩, ⟨hvd, hvdt.trans hs.vDtype⟩, fun j hj => ?_⟩
      have hj := List.mem_range.mpr hj
      rw [hs.viewKv_eq, List.map_inj_left] at hrows
      unfold layerKv
      rw [hkrow, hvrow]
      exact hrows j hj
    | succ i =>
      have hlayer := hrest i lb hlb
      rwa [Nat.add_right_comm, Nat.add_assoc] at hlayer

omit [Candle T] [LawfulCandle T] in
/-- A vector that was allocated has a capacity that can be asked for. -/
theorem wlp_withCapacity {σ : Type} {n size : ℕ} {Q : Unit → σ → Prop} {E : String → σ → Prop}
    {s : σ} (h : n * size ≤ isizeMax → Q () s) : wlp (stateless (withCapacity n size)) Q E s := by
  refine wlp_zoom ?_
  unfold withCapacity
  by_cases hcap : n * size ≤ isizeMax
  · rw [if_pos hcap]
    exact Or.inr (h hcap)
  · rw [if_neg hcap]
    exact Or.inl rfl

/-- **The blocks** from `b` on: each has the rows of its positions. -/
theorem wlp_exportBlocks {c : Cache T} (h : Formed cfg dtype c) {b n : ℕ}
    (hn : (b + n) * blockSize ≤ c.kvs.table.len) :
    wlp (KvCache.exportBlocks (List.range' b n)) (fun blocks c' => c' = c.kvs ∧
      blocks.map KvBundleBlock.logicalBlockIdx = List.range' b n ∧
      (0 < n → cfg.numHiddenLayers * 16 ≤ isizeMax) ∧
      ∀ (i : ℕ) (block : KvBundleBlock T), blocks[i]? = some block →
        BlockRows cfg dtype block fun layer j =>
          c.kvs.pool.kv layer (rowSlot c.kvs.table ((b + i) * blockSize + j)))
      (fun _ c' => c' = c.kvs) c.kvs := by
  induction n generalizing b with
  | zero => exact Or.inr ⟨rfl, rfl, fun h => absurd h (lt_irrefl 0), fun i _ hb => (by cases hb)⟩
  | succ n ih =>
    have hb : b * blockSize < c.kvs.table.capacity := by
      have hle := h.owned.len_le
      rw [Nat.add_mul, Nat.succ_mul] at hn
      have hpos : 0 < blockSize := by decide
      omega
    obtain ⟨id, hstart, hid, hslot⟩ := h.block_slots hb
    rw [List.range'_succ]
    refine wlp_bind (Or.inr ?_)
    rw [wp_get, h.owned.blockSize, hstart]
    refine wlp_bind (Or.inr (wlp_bind (wlp_withCapacity fun hcap => ?_)))
    have hlen : c.kvs.pool.numLayers = cfg.numHiddenLayers := h.pool.kLen
    rw [hlen] at hcap ⊢
    rw [List.range_eq_range']
    obtain ⟨layers, _, hlayers, rfl, hcount, hrows⟩ :=
      (wp_exportLayers h hid (le_of_eq (Nat.zero_add cfg.numHiddenLayers))).returns
    refine wlp_bind (Or.inr ?_)
    rw [wp_of_ok hlayers]
    rw [← Nat.add_assoc, Nat.add_right_comm] at hn
    refine wlp_bind ((ih hn).mono (fun blocks c₂ hr => ?_) fun _ _ hE => hE)
    obtain ⟨rfl, hblocks, -, hrest⟩ := hr
    refine Or.inr ⟨rfl, by rw [List.map_cons, hblocks], fun _ => hcap,
      fun i block hblock => ?_⟩
    cases i with
    | zero =>
      cases hblock
      refine ⟨hcount, fun layer lb hlb => ?_⟩
      obtain ⟨hk, hv, hkv⟩ := hrows layer lb hlb
      refine ⟨hk, hv, fun j hj => ?_⟩
      rw [hkv j hj, Nat.zero_add, Nat.add_zero, hslot j hj]
    | succ i =>
      have hlater := hrest i block hblock
      rwa [Nat.add_right_comm, Nat.add_assoc] at hlater

/-- **An export** changes nothing, and returns the rows of the first live tokens. -/
theorem wlp_exportPrefixBundle {c : Cache T} (h : Formed cfg dtype c) (modelId : String)
    (tokenIds : List UInt32) (n : ℕ) :
    wlp (KvCache.exportPrefixBundle modelId tokenIds n)
      (fun bundle c' => c' = c.kvs ∧ ∃ d : BundleDType, d.toCandle = dtype ∧
        Exported cfg d c.kvs modelId tokenIds n bundle) (fun _ c' => c' = c.kvs) c.kvs := by
  refine wlp_bind (Or.inr ?_)
  rw [wp_get]
  refine wlp_guard (fun _ => rfl) fun halign => wlp_guard (fun _ => rfl) fun hlen =>
    wlp_guard (fun _ => rfl) fun hids => ?_
  rw [not_or, not_not, h.owned.blockSize] at halign
  cases hdt : c.kvs.pool.dtype with
  | none => exact Or.inl rfl
  | some dt =>
    obtain rfl := h.dtype_eq hdt
    refine wlp_bind (Or.inr ?_)
    rw [wp_ofOption_some]
    split
    · exact Or.inr rfl
    rename_i d hd
    rw [h.owned.blockSize]
    refine wlp_bind (wlp_withCapacity fun hcap => ?_)
    rw [List.range_eq_range']
    refine wlp_bind ((wlp_exportBlocks h (b := 0) ?_).mono (fun blocks c' hb => ?_) fun _ _ hE => hE)
    · rw [Nat.zero_add, Nat.div_mul_cancel (Nat.dvd_of_mod_eq_zero halign.2)]
      omega
    · obtain ⟨rfl, hnumbered, hlayers, hblocks⟩ := hb
      have hpos : 0 < n / blockSize := Nat.div_pos
        (Nat.le_of_dvd (Nat.pos_of_ne_zero halign.1) (Nat.dvd_of_mod_eq_zero halign.2)) (by decide)
      have hnum : c.kvs.pool.numLayers = cfg.numHiddenLayers := h.pool.kLen
      have hd := BundleDType.fromCandle_eq_some.mp hd
      refine Or.inr ⟨rfl, d, hd.symm, halign.1, halign.2, Nat.le_of_not_lt hlen,
        Nat.le_of_not_lt hids, h.dtype_iff.mp hdt, ?_, ⟨hcap, ?_⟩, hnumbered,
        fun b block hblock => ?_⟩
      · rw [hnum, h.kvHeads, h.headDim]
        rfl
      · show c.kvs.pool.numLayers * 16 ≤ isizeMax
        rw [hnum]
        exact hlayers hpos
      · have hrows := hblocks b block hblock
        rwa [Nat.zero_add, hd] at hrows

end Rows

/-! ## 3. The end of a session -/

section Finish

variable {T : Type} [Candle T] [HostCandle T] [LawfulCandle T] {cfg : Config} {dtype : DType}
  {toVec : KvBundleMeta → Except String (List UInt8)}

/-- What a session publishes is under its key, and encodes its reusable prefix. -/
structure Published (toVec : KvBundleMeta → Except String (List UInt8)) (cfg : Config)
    (dtype : DType) (s : KvSession) (c : KvCache T) (publish : KvPublish) : Prop where
  key : publish.key = s.remoteKey
  bytes {bytes : List UInt8} (h : publish.bundleBytes = some bytes) :
    s.remoteKey.isSome ∧ ∃ (d : BundleDType) (bundle : KvBundle T), d.toCandle = dtype ∧
      Exported cfg d c s.modelId s.promptTokens s.reusableTokens bundle ∧
        KvBundleCodec.encode toVec bundle () = some (.ok bytes, ())

/-- **The end of a session** does not fail, and changes nothing. -/
theorem wlp_finish {s : KvSession} {t : Traced T} (h : Formed cfg dtype t.cache) :
    wlp (KvSession.finish toVec)
      (fun publish st => st = (s, t) ∧ Published toVec cfg dtype s t.cache.kvs publish)
      (fun _ _ => False) (s, t) := by
  have hnone : Published toVec cfg dtype s t.cache.kvs ⟨s.remoteKey, none⟩ :=
    ⟨rfl, fun hb => (by cases hb)⟩
  refine wlp_bind (Or.inr ?_)
  rw [wp_get]
  dsimp only
  split
  · exact Or.inr ⟨rfl, hnone⟩
  rename_i hremote
  split
  · exact Or.inr ⟨rfl, hnone⟩
  refine wlp_bind (wlp_catching (wlp_zoom (wlp_onCache (Cache.wlp_onKvs
    ((wlp_exportPrefixBundle h s.modelId s.promptTokens s.reusableTokens).mono
      (fun bundle c' he => ?_) fun e c' he => ?_)))))
  · obtain ⟨rfl, d, hd, hexp⟩ := he
    cases hrun : KvBundleCodec.encode toVec bundle () with
    | none =>
      exact wlp_bind (wlp_catching (wlp_zoom (Or.inl hrun)))
    | some r =>
      obtain ⟨r, ⟨⟩⟩ := r
      cases r with
      | error e =>
        exact wlp_bind (wlp_catching (wlp_zoom (Or.inr ((wp_of_error hrun).mpr
          (Or.inr ⟨rfl, hnone⟩)))))
      | ok bytes =>
        refine wlp_bind (wlp_catching (wlp_zoom (Or.inr ((wp_of_ok hrun).mpr
          (Or.inr ⟨rfl, rfl, fun hb => ?_⟩)))))
        cases hb
        refine ⟨Option.isSome_iff_ne_none.mpr fun hkey => hremote ?_, d, bundle, hd, hexp, hrun⟩
        rw [hkey, Option.isNone_none, Bool.or_true]
  · rw [he]
    exact Or.inr ⟨rfl, hnone⟩

omit [LawfulCandle T] in
/-- In no state does it fail. -/
theorem wlp_finish_returns (st : KvSession.State T) :
    wlp (KvSession.finish toVec) (fun _ _ => True) (fun _ _ => False) st := by
  refine wlp_bind (Or.inr ?_)
  rw [wp_get]
  dsimp only
  split
  · exact Or.inr trivial
  split
  · exact Or.inr trivial
  refine wlp_bind (wlp_catching ((wlp_trivial _).mono (fun bundle _ _ => ?_)
    fun _ _ _ => Or.inr trivial))
  exact wlp_bind (wlp_catching ((wlp_trivial _).mono (fun _ _ _ => Or.inr trivial)
    fun _ _ _ => Or.inr trivial))

end Finish

end Flour.Kv
