/-
  File:      Flour/Kv/Publish.lean
  Subject:   What one node publishes, another node of the same model imports, with the same rows.

  * `publishRun` -- a request with its decode steps, up to the end of its session;
    `wlp_publishRun` -- what it publishes is the reusable prefix of its prompt, under its key.
  * `Exported.encodable`, `Exported.sizesFit` -- an exported bundle can be written and read back.
  * `Mapped.same`, `Mapped.kv_eq` -- two caches that map the rows of one bundle map the same rows.
  * `wp_import_rows` -- a bundle that passed the checks is imported, and its rows are mapped.
  * **`published_importable`** -- the key is the one the other node asks for, and the rows that its
    table maps after the import are those that the table of the publisher mapped.
-/
import Flour.Kv.Export
import Flour.Kv.Remote

namespace Flour.Kv

open Candle Flour.Lib Flour.Lib.Prog

/-! ## 1. Publishing -/

section Defs

variable {T H O : Type} [Candle T]

/-- Decode steps, from `indexPos` live tokens on. -/
def decodeSteps (m : CausalLM T H O) : List UInt32 → ℕ → Prog (Traced T) Unit
  | [], _ => pure ()
  | token :: rest, indexPos => do
    let _ ← m.forward [token] indexPos
    decodeSteps m rest (indexPos + 1)

/-- A request, with the decode steps after its prefill, up to what it publishes. -/
def publishRun [HostCandle T] (fromSlice : List UInt8 → Except String KvBundleMeta)
    (toVec : KvBundleMeta → Except String (List UInt8)) (blockHash : BlockHash)
    (m : CausalLM T H O) (manager : KvCacheManager) (prompt tokens : List UInt32) :
    Prog (Traced T) KvPublish :=
  Prog.within (manager.session prompt) do
    let _ ← KvSession.prefill fromSlice blockHash m
    KvSession.onTraced (decodeSteps m tokens prompt.length)
    KvSession.finish toVec

end Defs

/-- What a session is about. -/
structure SameRequest (s s' : KvSession) : Prop where
  modelId : s'.modelId = s.modelId
  promptTokens : s'.promptTokens = s.promptTokens
  reusableTokens : s'.reusableTokens = s.reusableTokens
  remoteKey : s'.remoteKey = s.remoteKey

section Request

variable {T H O : Type} {s : KvSession}

theorem keeps_onTraced {α : Type} (x : Prog (Traced T) α) :
    Keeps (fun st : KvSession.State T => SameRequest s st.1) (KvSession.onTraced x) :=
  keeps_zoom (I := fun _ => True) (fun _ _ _ _ _ => trivial) (fun _ _ => trivial) fun _ _ h _ => h

theorem keeps_update {f : KvSession → KvSession} (hf : ∀ s, SameRequest s (f s)) :
    Keeps (fun st : KvSession.State T => SameRequest s st.1) (KvSession.update f) :=
  keeps_modify fun st h => ⟨(hf st.1).modelId.trans h.modelId,
    (hf st.1).promptTokens.trans h.promptTokens, (hf st.1).reusableTokens.trans h.reusableTokens,
    (hf st.1).remoteKey.trans h.remoteKey⟩

variable [Candle T]

/-- The remote part of a prefill records its outcome, and nothing else, in the session. -/
theorem keeps_useRemote (fromSlice : List UInt8 → Except String KvBundleMeta)
    (blockHash : BlockHash) (prompt : List UInt32) (reused : ℕ) :
    Keeps (fun st : KvSession.State T => SameRequest s st.1)
      (KvSession.useRemote fromSlice blockHash prompt reused) := by
  have himport : ∀ bytes, Keeps (fun st : KvSession.State T => SameRequest s st.1)
      (KvSession.importRemoteBundle fromSlice blockHash bytes prompt) := fun bytes =>
    keeps_bind (keeps_zoom (I := fun _ => True) (fun _ _ _ _ _ => trivial) (fun _ _ => trivial)
      fun _ _ h _ => h) fun _ => keeps_bind keeps_get fun _ =>
        keeps_ite (keeps_fail _) (keeps_onTraced _)
  have htry : ∀ bytes, Keeps (fun st : KvSession.State T => SameRequest s st.1)
      (KvSession.tryImport fromSlice blockHash bytes prompt) := fun bytes => by
    refine keeps_bind (keeps_catching (himport bytes)) fun r => ?_
    cases r with
    | ok imported =>
      exact keeps_bind (keeps_update fun _ => ⟨rfl, rfl, rfl, rfl⟩) fun _ => keeps_pure _
    | error e =>
      exact keeps_bind (keeps_update fun _ => ⟨rfl, rfl, rfl, rfl⟩) fun _ =>
        keeps_bind (keeps_onTraced _) fun _ => keeps_bind (keeps_onTraced _) fun _ =>
          keeps_bind (keeps_update fun _ => ⟨rfl, rfl, rfl, rfl⟩) fun _ => keeps_pure _
  refine keeps_bind keeps_get fun st => ?_
  obtain ⟨s', t⟩ := st
  dsimp only
  rcases s'.remoteStore with _ | store
  · exact keeps_pure _
  rcases s'.remoteKey with _ | key
  · exact keeps_pure _
  dsimp only
  rcases store key with e | _ | bytes
  · exact keeps_bind (keeps_update fun _ => ⟨rfl, rfl, rfl, rfl⟩) fun _ => keeps_pure _
  · exact keeps_bind (keeps_update fun _ => ⟨rfl, rfl, rfl, rfl⟩) fun _ => keeps_pure _
  · exact keeps_ite (keeps_bind (keeps_update fun _ => ⟨rfl, rfl, rfl, rfl⟩) fun _ => keeps_pure _)
      (htry bytes)

theorem keeps_prefill (fromSlice : List UInt8 → Except String KvBundleMeta) (blockHash : BlockHash)
    (m : CausalLM T H O) :
    Keeps (fun st : KvSession.State T => SameRequest s st.1)
      (KvSession.prefill fromSlice blockHash m) :=
  keeps_bind keeps_get fun _ => keeps_bind (keeps_onTraced _) fun _ =>
    keeps_bind (keeps_onTraced _) fun _ => keeps_bind (keeps_useRemote _ _ _ _) fun _ =>
      keeps_bind (keeps_onTraced _) fun _ => keeps_bind (keeps_onTraced _) fun _ =>
        keeps_bind (keeps_update fun _ => ⟨rfl, rfl, rfl, rfl⟩) fun _ => keeps_pure _

end Request

section Publish

variable {T H O : Type} [Candle T] {m : CausalLM T H O} {blockHash : BlockHash}

theorem wlp_decodeSteps (tokens : List UInt32) (indexPos : ℕ) {t : Traced T} (h : Fit m t.cache) :
    wlp (decodeSteps m tokens indexPos) (fun _ t' => Reaches blockHash t.cache t'.cache)
      (fun _ t' => Reaches blockHash t.cache t'.cache) t := by
  induction tokens generalizing indexPos t with
  | nil => exact Or.inr .refl
  | cons token rest ih =>
    refine wlp_bind ((wlp_forward [token] indexPos h).mono (fun _ t₁ h₁ => ?_) fun _ _ h₁ => h₁)
    exact (ih (indexPos + 1) (h.reached h₁.reaches)).mono (fun _ _ h₂ => h₁.reaches.trans h₂)
      fun _ _ h₂ => h₁.reaches.trans h₂

/-- **A request** publishes what its session is about, from the cache it leaves. -/
theorem wlp_publishRun [LawfulCandle T] [HostCandle T] {dtype : DType} {c₀ : Cache T}
    (fromSlice : List UInt8 → Except String KvBundleMeta)
    (toVec : KvBundleMeta → Except String (List UInt8)) (hnew : Cache.new m.cfg dtype = .ok c₀)
    (manager : KvCacheManager) (prompt tokens : List UInt32) {t : Traced T}
    (hr : Reaches blockHash c₀ t.cache) :
    wlp (publishRun fromSlice toVec blockHash m manager prompt tokens)
      (fun publish t' => Formed m.cfg dtype t'.cache ∧ ∃ s, SameRequest (manager.session prompt) s ∧
        Published toVec m.cfg dtype s t'.cache.kvs publish) (fun _ _ => True) t := by
  have hfit := (fit_new hnew).reached hr
  have hprefill := (wlp_of_within (wlp_prefill fromSlice (manager.session prompt) hfit)).and_keeps
    (keeps_prefill (s := manager.session prompt) fromSlice blockHash m) ⟨rfl, rfl, rfl, rfl⟩
  refine wlp_within (wlp_bind (hprefill.mono (fun _ st hp => ?_) fun _ _ _ => trivial))
  obtain ⟨s, t₁⟩ := st
  obtain ⟨⟨h₁, -⟩, hsame⟩ := hp
  have hdecode : wlp (decodeSteps m tokens prompt.length)
      (fun _ t₂ => Reaches blockHash t₁.cache t₂.cache)
      (fun _ t₂ => Reaches blockHash t₁.cache t₂.cache) t₁ :=
    wlp_decodeSteps tokens prompt.length (hfit.reached h₁)
  refine wlp_bind (wlp_zoom (hdecode.mono (fun _ t₂ h₂ => ?_) fun _ _ _ => trivial))
  obtain ⟨ops, hsteps⟩ := hr.trans (h₁.trans h₂)
  have hformed := formed_steps hnew hsteps
  refine (wlp_finish hformed).mono (fun publish st hf => ?_) fun _ _ hE => hE.elim
  rw [hf.1]
  exact ⟨hformed, s, hsame, hf.2⟩

end Publish

/-! ## 2. What was exported -/

/-- The elements of the pool are bit patterns of its element type. -/
def BitPatterns {T : Type} [Candle T] (d : BundleDType) (p : PagedKvPool T) : Prop :=
  ∀ t ∈ p.kPools ++ p.vPools, ∀ a b c, dims t = [a, b, c] → ∀ i j k, i < a → j < b → k < c →
    elem t [i, j, k] < 256 ^ d.sizeInBytes

/-- What the export of `n` tokens has in memory: the positions of a tensor over its heads, its
    tensors, and its bytes are counted by `usize` values. -/
structure InMemory (cfg : Config) (n : ℕ) (bytes : List UInt8) : Prop where
  positions : cfg.numKeyValueHeads * blockSize ≤ usizeMax
  tensors : n / blockSize * cfg.numHiddenLayers * 2 ≤ usizeMax
  bytes : bytes.length ≤ usizeMax

section Exported

variable {T : Type} [Candle T] {cfg : Config} {d : BundleDType} {c : Cache T} {modelId : String}
  {tokenIds : List UInt32} {n : ℕ} {bundle : KvBundle T}

/-- What has a row of the pool has bit patterns for elements. -/
theorem Formed.elem_lt {dtype : DType} (hf : Formed cfg dtype c) (hbits : BitPatterns d c.kvs.pool)
    {lb : KvLayerBlock T} {layer slot j : ℕ} (hl : layer < cfg.numHiddenLayers)
    (hslot : slot < numSlots cfg) (hrow : layerKv cfg lb j = c.kvs.pool.kv layer slot) {t : T}
    (ht : t = lb.k ∨ t = lb.v) {i k : ℕ} (hi : i < cfg.numKeyValueHeads) (hk : k < cfg.headDim) :
    elem t [i, j, k] < 256 ^ d.sizeInBytes := by
  have hpool := hf.pool
  obtain ⟨kPool, vPool, hkp, hvp, hks, hvs⟩ := hpool.getElem hl
  unfold PagedKvPool.kv layerKv at hrow
  rw [hkp, hvp, hf.kvHeads, hf.headDim] at hrow
  obtain ⟨hrk, hrv⟩ := Prod.mk.inj hrow
  have hkmem := List.mem_of_getElem? hkp
  have hvmem := List.mem_of_getElem? hvp
  have hkd := hks.dims
  have hvd := hvs.dims
  rw [hf.kvHeads, hf.headDim] at hkd hvd
  rcases ht with rfl | rfl
  · rw [elem_of_row hrk hi hk]
    exact hbits kPool (List.mem_append_left _ hkmem) _ _ _ hkd i slot k hi hslot hk
  · rw [elem_of_row hrv hi hk]
    exact hbits vPool (List.mem_append_right _ hvmem) _ _ _ hvd i slot k hi hslot hk

theorem Exported.length (h : Exported cfg d c.kvs modelId tokenIds n bundle) :
    bundle.blocks.length = n / blockSize := by
  have hlen := congrArg List.length h.numbered
  rwa [List.length_map, List.length_range'] at hlen

/-- A layer of an exported block has the rows of a layer of the pool. -/
theorem Exported.layerRows (h : Exported cfg d c.kvs modelId tokenIds n bundle)
    {block : KvBundleBlock T} (hblock : block ∈ bundle.blocks) {lb : KvLayerBlock T}
    (hlb : lb ∈ block.layers) : ∃ b layer, b < n / blockSize ∧ layer < cfg.numHiddenLayers ∧
      LayerRows cfg d.toCandle lb
        fun j => c.kvs.pool.kv layer (rowSlot c.kvs.table (b * blockSize + j)) := by
  obtain ⟨b, hb⟩ := List.getElem?_of_mem hblock
  obtain ⟨layer, hlayer⟩ := List.getElem?_of_mem hlb
  have hrows := h.blocks b block hb
  refine ⟨b, layer, ?_, ?_, hrows.rows layer lb hlayer⟩
  · rw [← h.length]
    exact (List.getElem?_eq_some_iff.mp hb).1
  · rw [← hrows.layers]
    exact (List.getElem?_eq_some_iff.mp hlayer).1

/-- What was exported can be written where its elements are bit patterns. -/
theorem Exported.encodable_of_bits (h : Exported cfg d c.kvs modelId tokenIds n bundle)
    (hbits : ∀ block ∈ bundle.blocks, ∀ lb ∈ block.layers, ∀ t, t = lb.k ∨ t = lb.v → ∀ i j k,
      i < cfg.numKeyValueHeads → j < blockSize → k < cfg.headDim →
        elem t [i, j, k] < 256 ^ d.sizeInBytes) : bundle.Encodable := by
  obtain ⟨header, blocks⟩ := bundle
  obtain rfl : header = prefixHeader cfg d modelId tokenIds n := h.header
  refine ⟨⟨show blockSize ≠ 0 by decide, h.pos, h.aligned, ?_, h.length, fun block hblock => ?_,
    fun block hblock lb hlb t ht => ?_⟩, h.numbered, hbits⟩
  · show (tokenIds.take n).length = n
    rw [List.length_take, Nat.min_eq_left h.covers]
  · obtain ⟨b, hb⟩ := List.getElem?_of_mem hblock
    exact (h.blocks b block hb).layers
  · obtain ⟨b, layer, -, -, hk, hv, -⟩ := h.layerRows hblock hlb
    rcases ht with rfl | rfl
    · exact hk
    · exact hv

/-- **What was exported can be written.** -/
theorem Exported.encodable (hf : Formed cfg d.toCandle c)
    (h : Exported cfg d c.kvs modelId tokenIds n bundle) (hbits : BitPatterns d c.kvs.pool) :
    bundle.Encodable := by
  refine h.encodable_of_bits fun block hblock lb hlb t ht i j k hi hj hk => ?_
  obtain ⟨b, layer, hb, hl, -, -, hrows⟩ := h.layerRows hblock hlb
  have hpos : b * blockSize + j < c.kvs.table.capacity := by
    have hle := Nat.le_trans h.le hf.owned.len_le
    have hmul := Nat.mul_le_mul_right blockSize hb
    have hn := Nat.div_mul_cancel (Nat.dvd_of_mod_eq_zero h.aligned)
    rw [Nat.succ_mul] at hmul
    omega
  exact hf.elem_lt hbits hl (hf.rowSlot_lt hpos) (hrows j hj) ht hi hk

/-- What was written is at least as long as its elements. -/
theorem Exported.payload_le [HostCandle T] [LawfulHostCandle T] [LawfulCandle T]
    {toVec : KvBundleMeta → Except String (List UInt8)}
    {fromSlice : List UInt8 → Except String KvBundleMeta}
    (h : Exported cfg d c.kvs modelId tokenIds n bundle) (henc : bundle.Encodable)
    (hjson : KvBundleCodec.JsonRoundTrips toVec fromSlice bundle.header) {bytes : List UInt8}
    (hbytes : KvBundleCodec.encode toVec bundle () = some (.ok bytes, ())) :
    bundle.header.numBlocks * bundle.header.numLayers * 2 * bundle.header.bytesPerTensor ≤
      bytes.length := by
  obtain ⟨blocks', hblocks, -⟩ := KvBundleCodec.exists_recodedBlocks henc
  obtain ⟨header, hto, hshort, -⟩ := hjson
  obtain ⟨part, hrun, hpart, -⟩ := KvBundleCodec.encode_frame hto hshort henc.consistent h.allocates
    henc.layers henc.numbered hblocks
  rw [hbytes] at hrun
  cases hrun
  rw [KvBundleCodec.length_frame, hpart]
  exact Nat.le_add_left _ _

/-- **Its sizes fit** where what was written is in memory: no product is larger than what there is
    of its kind. -/
theorem Exported.sizesFit [HostCandle T] [LawfulHostCandle T] [LawfulCandle T]
    {toVec : KvBundleMeta → Except String (List UInt8)}
    {fromSlice : List UInt8 → Except String KvBundleMeta}
    (h : Exported cfg d c.kvs modelId tokenIds n bundle) (henc : bundle.Encodable)
    (hjson : KvBundleCodec.JsonRoundTrips toVec fromSlice bundle.header) {bytes : List UInt8}
    (hbytes : KvBundleCodec.encode toVec bundle () = some (.ok bytes, ()))
    (hmem : InMemory cfg n bytes) : bundle.header.SizesFit := by
  have hpayload := le_trans (h.payload_le henc hjson hbytes) hmem.bytes
  have htensors : 0 < bundle.header.numBlocks * bundle.header.numLayers * 2 := by
    have hlayers : bundle.header.numLayers = cfg.numHiddenLayers := by rw [h.header]; rfl
    have hpos := Nat.mul_pos henc.consistent.numBlocks_pos (Nat.pos_of_ne_zero h.layers)
    rw [hlayers]
    omega
  have hone := Nat.le_mul_of_pos_left bundle.header.bytesPerTensor htensors
  have helems : bundle.header.numKvHeads * bundle.header.blockSize * bundle.header.headDim ≤
      bundle.header.bytesPerTensor := Nat.le_mul_of_pos_right _ bundle.header.dtype.sizeInBytes_pos
  have hpos := hmem.positions
  have htens := hmem.tensors
  have hheader := h.header
  refine ⟨?_, by omega, by omega, ?_, ?_, hpayload⟩
  · rw [hheader]
    exact hpos
  · rw [hheader]
    exact le_trans (Nat.le_mul_of_pos_right _ (by decide)) htens
  · rw [hheader]
    exact htens

end Exported

section Same

variable {T : Type} [Candle T] {cfg cfg' : Config} {dtype : DType}

/-- The same tensors in all layers of the caches of two models. -/
structure SameShape (cfg cfg' : Config) : Prop where
  numHiddenLayers : cfg'.numHiddenLayers = cfg.numHiddenLayers
  numKeyValueHeads : cfg'.numKeyValueHeads = cfg.numKeyValueHeads
  headDim : cfg'.headDim = cfg.headDim

/-- What stands at an index of the second list is related to what stands there in the first. -/
theorem exists_of_forall₂ {α β : Type} {R : α → β → Prop} {l : List α} {l' : List β}
    (h : List.Forall₂ R l l') {i : ℕ} {b : β} (hb : l'[i]? = some b) :
    ∃ a, l[i]? = some a ∧ R a b := by
  obtain ⟨hi', rfl⟩ := List.getElem?_eq_some_iff.mp hb
  have hi : i < l.length := by rwa [h.length_eq]
  exact ⟨l.get ⟨i, hi⟩, List.getElem?_eq_getElem hi, h.get hi hi'⟩

theorem SameTensor.row {t t' : T} (h : SameTensor t t') (hd : BlockTensor cfg dtype t) {j : ℕ}
    (hj : j < blockSize) : Kv.row cfg.numKeyValueHeads cfg.headDim t' j =
      Kv.row cfg.numKeyValueHeads cfg.headDim t j :=
  row_congr fun _ _ hi hk => h.elems _ _ _ hd.1 _ _ _ hi hj hk

/-- A bundle with the same elements holds the same rows. -/
theorem Mapped.same {bundle bundle' : KvBundle T} {c : KvCache T}
    (h : Mapped cfg dtype bundle.blocks c) (hsame : bundle.Same bundle') :
    Mapped cfg dtype bundle'.blocks c := by
  intro b block' hblock'
  obtain ⟨block, hblock, -, hlayers⟩ := exists_of_forall₂ hsame.2 hblock'
  have hrows := h b block hblock
  refine ⟨hlayers.length_eq.symm.trans hrows.layers, fun layer lb' hlb' => ?_⟩
  obtain ⟨lb, hlb, hk, hv⟩ := exists_of_forall₂ hlayers hlb'
  obtain ⟨hkt, hvt, hkv⟩ := hrows.rows layer lb hlb
  refine ⟨⟨hk.dims.trans hkt.1, hk.dtype.trans hkt.2⟩, ⟨hv.dims.trans hvt.1, hv.dtype.trans hvt.2⟩,
    fun j hj => ?_⟩
  rw [← hkv j hj, layerKv, layerKv, hk.row hkt hj, hv.row hvt hj]

/-- What is the same as an exported bundle might have been exported. -/
theorem Exported.same {d : BundleDType} {c : KvCache T} {modelId : String} {tokenIds : List UInt32}
    {n : ℕ} {bundle bundle' : KvBundle T} (h : Exported cfg d c modelId tokenIds n bundle)
    (hsame : bundle.Same bundle') : Exported cfg d c modelId tokenIds n bundle' := by
  have hidx : bundle.blocks.map KvBundleBlock.logicalBlockIdx =
      bundle'.blocks.map KvBundleBlock.logicalBlockIdx := by
    rw [← List.forall₂_eq_eq_eq, List.forall₂_map_left_iff, List.forall₂_map_right_iff]
    exact hsame.2.imp fun _ _ hblock => hblock.1.symm
  exact ⟨h.pos, h.aligned, h.le, h.covers, h.layers, hsame.1.trans h.header, hsame.1 ▸ h.allocates,
    hidx.symm.trans h.numbered, h.blocks.same hsame⟩

/-- **Two caches that map the rows of one bundle** map the same rows. -/
theorem Mapped.kv_eq (hs : SameShape cfg cfg') {blocks : List (KvBundleBlock T)} {c c' : KvCache T}
    (h : Mapped cfg dtype blocks c) (h' : Mapped cfg' dtype blocks c') {layer pos : ℕ}
    (hl : layer < cfg'.numHiddenLayers) (hpos : pos < blocks.length * blockSize) :
    c'.pool.kv layer (rowSlot c'.table pos) = c.pool.kv layer (rowSlot c.table pos) := by
  have hb : pos / blockSize < blocks.length := Nat.div_lt_of_lt_mul (by rwa [Nat.mul_comm] at hpos)
  have hj : pos % blockSize < blockSize := Nat.mod_lt _ (by decide)
  have hrows := h _ _ (List.getElem?_eq_getElem hb)
  have hrows' := h' _ _ (List.getElem?_eq_getElem hb)
  have hlt : layer < (blocks[pos / blockSize]).layers.length := by rwa [hrows'.layers]
  have hlb := List.getElem?_eq_getElem hlt
  have hkv := (hrows.rows layer _ hlb).rows _ hj
  have hkv' := (hrows'.rows layer _ hlb).rows _ hj
  rw [Nat.div_add_mod'] at hkv hkv'
  rw [← hkv, ← hkv', layerKv, layerKv, hs.numKeyValueHeads, hs.headDim]

end Same

/-! ## 3. The import on another node -/

section Import

variable {T : Type} [Candle T] {cfg cfg' : Config} {d : BundleDType} {blockHash : BlockHash}

/-- Every cache of a model of this shape accepts the header of what is exported, for a prompt with
    the same prefix. -/
theorem Formed.accepts {c : Cache T} (hf : Formed cfg' d.toCandle c) (hs : SameShape cfg cfg')
    (hl : cfg.numHiddenLayers ≠ 0) {modelId : String} {prompt prompt' : List UInt32} {n : ℕ}
    (hpos : n ≠ 0) (hal : n % blockSize = 0) (hcov : n ≤ prompt.length)
    (htake : prompt'.take n = prompt.take n) {bundle : KvBundle T}
    (hheader : bundle.header = prefixHeader cfg d modelId prompt n)
    (hblocks : bundle.blocks.length = n / blockSize) : c.kvs.Accepts bundle prompt' := by
  obtain ⟨header, blocks⟩ := bundle
  obtain rfl : header = prefixHeader cfg d modelId prompt n := hheader
  have hbs := hf.owned.blockSize
  have hlen : (prompt.take n).length = n := by rw [List.length_take, Nat.min_eq_left hcov]
  refine ⟨hbs.symm, hs.numHiddenLayers.symm.trans hf.pool.kLen.symm,
    hs.numKeyValueHeads.symm.trans hf.kvHeads.symm, hs.headDim.symm.trans hf.headDim.symm,
    hf.dtype_iff.mpr (by rwa [hs.numHiddenLayers]), hpos, ?_, hlen, ?_, htake, ?_⟩
  · rw [hbs]
    exact hal
  · have hle := List.length_take_le' n prompt'
    rwa [htake, hlen] at hle
  · rw [hbs]
    exact hblocks

/-- The import of bytes that decode to a bundle of the session's model. -/
theorem wp_tryImport {fromSlice : List UInt8 → Except String KvBundleMeta} {bytes : List UInt8}
    {bundle : KvBundle T}
    (hdecode : KvBundleCodec.decode fromSlice bytes () = some (.ok bundle, ()))
    {s : KvSession} (hid : bundle.header.modelId = s.modelId) {prompt : List UInt32} {t : Traced T}
    {Q : ℕ → Traced T → Prop} (h : wp (onCache (Cache.importPrefixBundle blockHash bundle prompt)) Q
      (fun _ _ => False) t) :
    wp (KvSession.tryImport fromSlice blockHash bytes prompt) (fun imported st =>
      Q imported st.2 ∧ st.1.remoteCacheHit = some true ∧ st.1.remoteImportedTokens = imported)
      (fun _ _ => False) (s, t) := by
  unfold KvSession.tryImport KvSession.importRemoteBundle
  rw [wp_bind, wp_catching, wp_bind, wp_zoom, wp_of_ok hdecode, wp_bind, wp_get]
  dsimp only
  rw [if_neg (not_not.mpr hid), KvSession.onTraced, wp_zoom]
  refine h.mono (fun imported t' hQ => ?_) fun _ _ hE => hE.elim
  rw [wp_bind, KvSession.update, wp_modify]
  exact ⟨hQ, rfl, rfl⟩

/-- The remote part of a prefill whose store has bytes for more than was matched. -/
theorem wp_useRemote_fetched {fromSlice : List UInt8 → Except String KvBundleMeta}
    {bytes : List UInt8} {s : KvSession} {store : RemoteGet} {key : String}
    (hstore : s.remoteStore = some store) (hkey : s.remoteKey = some key)
    (hget : store key = .ok (some bytes)) {matched : ℕ} (hlt : matched < s.reusableTokens)
    {prompt : List UInt32} {t : Traced T} {Q : ℕ → KvSession.State T → Prop}
    (h : wp (KvSession.tryImport fromSlice blockHash bytes prompt) Q (fun _ _ => False) (s, t)) :
    wp (KvSession.useRemote fromSlice blockHash prompt matched) Q (fun _ _ => False) (s, t) := by
  unfold KvSession.useRemote
  rw [wp_bind, wp_get]
  dsimp only
  rw [hstore, hkey]
  dsimp only
  rw [hget]
  dsimp only
  rwa [if_neg (Nat.not_le_of_lt hlt)]

variable [LawfulCandle T]

/-- **A bundle that passes the checks** is imported, and its rows are mapped, if its blocks are free
    after a reset. -/
theorem wp_import_rows {dtype : DType} {c : Cache T} (hf : Formed cfg dtype c) {bundle : KvBundle T}
    {prompt : List UInt32} (hv : bundle.Valid) (hacc : c.kvs.Accepts bundle prompt)
    (hfree : bundle.header.tokenCount / blockSize ≤ freeBlocks c) :
    wp (Cache.importPrefixBundle blockHash bundle prompt)
      (fun imported c' => imported = bundle.header.tokenCount ∧
        c'.kvs.table.len = bundle.header.tokenCount ∧ Mapped cfg dtype bundle.blocks c'.kvs)
      (fun _ _ => False) c := by
  have hl : c.kvs.pool.numLayers ≠ 0 := fun h0 => KvCache.not_accepts_without_layers h0 _ _ hacc
  refine Cache.wp_onKvs.mpr ?_
  unfold KvCache.importPrefixBundle
  rw [wp_bind]
  refine (KvCache.wp_checkBundle hl bundle prompt).mono (fun _ kvs hc => ?_)
    fun _ _ hno => hno.2 hacc
  obtain ⟨rfl, -⟩ := hc
  rw [wp_bind]
  refine (KvCache.wp_resetSequence hf.owned).mono (fun _ kvs₀ hr => ?_) fun _ _ hE => hE
  have hfree₀ : bundle.header.tokenCount / blockSize ≤ kvs₀.allocator.numFree := by
    have hsum := hr.free
    unfold freeBlocks at hfree
    omega
  refine (wp_importChecked_rows hf hr blockHash hv hacc hfree₀).mono (fun imported kvs h => ?_)
    fun _ _ hE => hE
  obtain ⟨⟨rfl, ids, hi⟩, hmapped⟩ := h
  exact ⟨rfl, hi.len, hmapped⟩

end Import

/-! ## 4. From one node to another -/

section Nodes

variable {T H O : Type} [Candle T] [LawfulCandle T] [HostCandle T] [LawfulHostCandle T]
  {m : CausalLM T H O} {d : BundleDType} {cfg : Config} {cA cB : Cache T} {blockHash : BlockHash}
  {toVec : KvBundleMeta → Except String (List UInt8)}
  {fromSlice : List UInt8 → Except String KvBundleMeta}

/-- Another node of the same model looks for the key that was published under. -/
theorem remoteKey_eq {manager : KvCacheManager} {p q : List UInt32} {r : ℕ} (store : RemoteGet)
    (hremote : (manager.session p).remoteKey.isSome)
    (hp : manager.keyBuilder.reusableTokenCount p.length = r)
    (hq : manager.keyBuilder.reusableTokenCount q.length = r) (htake : q.take r = p.take r) :
    ((KvCacheManager.withRemote manager.modelId store).prepare q).remoteKey =
      (manager.session p).remoteKey := by
  obtain ⟨modelId, remote⟩ := manager
  cases remote with
  | none => cases hremote
  | some store' =>
    obtain rfl := hp
    exact congrArg (Option.map Prod.fst) (PrefixKeyBuilder.keyForReusablePrefix_congr hq htake)

/-- **What a request published** decodes to a bundle of its model whose rows are those that its
    table maps. -/
theorem published_decodes (hnew : Cache.new m.cfg d.toCandle = .ok cA) {t t' : Traced T}
    (hA : Reaches blockHash cA t.cache) {manager : KvCacheManager} {p tokens : List UInt32} {r : ℕ}
    {publish : KvPublish} {bytes : List UInt8}
    (hrun : publishRun fromSlice toVec blockHash m manager p tokens t = some (.ok publish, t'))
    (hbytes : publish.bundleBytes = some bytes)
    (hp : manager.keyBuilder.reusableTokenCount p.length = r)
    (hjson : KvBundleCodec.JsonRoundTrips toVec fromSlice (prefixHeader m.cfg d manager.modelId p r))
    (hbits : BitPatterns d t'.cache.kvs.pool) (hmem : InMemory m.cfg r bytes)
    (hgrant : (prefixHeader m.cfg d manager.modelId p r).Granted T) :
    (∃ key, publish.key = some key ∧ (manager.session p).remoteKey = some key) ∧
      ∃ bundle : KvBundle T, Exported m.cfg d t'.cache.kvs manager.modelId p r bundle ∧
        KvBundleCodec.decode fromSlice bytes () = some (.ok bundle, ()) := by
  obtain ⟨hf, s, hs, hpub⟩ := (wlp_publishRun fromSlice toVec hnew manager p tokens hA).of_ok hrun
  obtain ⟨hsome, d', bundle, hd, hexp, henc⟩ := hpub.bytes hbytes
  have hkey := hpub.key
  rw [hs.remoteKey] at hsome hkey
  obtain ⟨key, hsome⟩ := Option.isSome_iff_exists.mp hsome
  refine ⟨⟨key, hkey.trans hsome, hsome⟩, ?_⟩
  obtain rfl := BundleDType.toCandle_inj.mp hd
  have hr : (manager.session p).reusableTokens = r := by
    rw [reusableTokens_session, ← reusableTokenCount_eq manager.modelId]
    exact hp
  rw [hs.modelId, hs.promptTokens, hs.reusableTokens, hr] at hexp
  change Exported m.cfg _ _ manager.modelId p r bundle at hexp
  rw [← hexp.header] at hjson hgrant
  obtain ⟨bytes', bundle', henc', hdec, hsame⟩ := KvBundleCodec.decode_encode.1 bundle
    (hexp.encodable hf hbits) hjson (hexp.sizesFit (hexp.encodable hf hbits) hjson henc hmem)
    hexp.allocates hgrant
  rw [henc] at henc'
  cases henc'
  exact ⟨bundle', hexp.same hsame, hdec⟩

/-- **Published KV is importable, and the same on another node.** A node in any reachable state
    prefills `p`, runs any decode steps and publishes `bytes`. Another node of the same model id and
    shape, in any reachable state, asks for `q`, which has as many reusable tokens, the same ones.
    It looks for the key that was published under; and if the store has the bytes there, the local
    match is shorter, the blocks are free after a reset and there is memory for the decoded vectors,
    then all reusable tokens are imported, and its table maps them to the rows that the table of the
    publisher maps them to. -/
theorem published_importable (hnewA : Cache.new m.cfg d.toCandle = .ok cA)
    (hnewB : Cache.new cfg d.toCandle = .ok cB) (hshape : SameShape m.cfg cfg)
    {tA tA' : Traced T} (hA : Reaches blockHash cA tA.cache) {cB' : Cache T}
    (hB : Reaches blockHash cB cB') {manager : KvCacheManager} {p q tokens : List UInt32} {r : ℕ}
    {publish : KvPublish} {bytes : List UInt8}
    (hrun : publishRun fromSlice toVec blockHash m manager p tokens tA = some (.ok publish, tA'))
    (hbytes : publish.bundleBytes = some bytes)
    (hp : manager.keyBuilder.reusableTokenCount p.length = r)
    (hq : manager.keyBuilder.reusableTokenCount q.length = r) (htake : q.take r = p.take r)
    (hjson : KvBundleCodec.JsonRoundTrips toVec fromSlice (prefixHeader m.cfg d manager.modelId p r))
    (hbits : BitPatterns d tA'.cache.kvs.pool) (hmem : InMemory m.cfg r bytes)
    (hgrant : (prefixHeader m.cfg d manager.modelId p r).Granted T) (store : RemoteGet) :
    ∃ key, publish.key = some key ∧
      ((KvCacheManager.withRemote manager.modelId store).prepare q).remoteKey = some key ∧
      (store key = .ok (some bytes) → ∀ c₀, Cache.resetSequence cB' = some (.ok (), c₀) →
        r / blockSize ≤ c₀.kvs.allocator.numFree →
        ∀ matched c₁, resetAndMatch blockHash q cB' = some (.ok matched, c₁) → matched < r →
        ∀ events, ∃ s' t', KvSession.useRemote fromSlice blockHash q matched
            ((KvCacheManager.withRemote manager.modelId store).session q, ⟨c₁, events⟩) =
              some (.ok r, (s', t')) ∧
          s'.remoteCacheHit = some true ∧ s'.remoteImportedTokens = r ∧
          t'.cache.kvs.table.len = r ∧
          ∀ layer pos, layer < cfg.numHiddenLayers → pos < r →
            t'.cache.kvs.pool.kv layer (rowSlot t'.cache.kvs.table pos) =
              tA'.cache.kvs.pool.kv layer (rowSlot tA'.cache.kvs.table pos)) := by
  obtain ⟨⟨key, hkey, hsession⟩, bundle, hexp, hdec⟩ :=
    published_decodes hnewA hA hrun hbytes hp hjson hbits hmem hgrant
  have hkeyB := (remoteKey_eq store (Option.isSome_of_eq_some hsession) hp hq htake).trans hsession
  refine ⟨key, hkey, hkeyB, fun hget c₀ hreset hfree matched c₁ hmatch hlt events => ?_⟩
  -- the state after the local match, and the blocks that are free after a reset of it
  obtain ⟨ops, hsteps⟩ := hB
  have hfB := formed_steps hnewB hsteps
  have hready := (wp_of_ok hmatch).mp
    (wp_resetAndMatch hfB.owned blockHash q (E := fun _ _ => False))
  have hf₁ : Formed cfg d.toCandle c₁ :=
    hfB.of_pool_eq hready.owned hready.pool hready.size hready.maxSeqLen
  have hfree₁ : r / blockSize ≤ freeBlocks c₁ := by
    have hr := (wp_of_ok hreset).mp (Cache.wp_resetSequence hfB.owned (E := fun _ _ => False))
    have hsum := hr.1.free
    unfold freeBlocks
    rw [hready.registry, hready.size]
    omega
  -- the import
  have hacc := hf₁.accepts hshape hexp.layers hexp.pos hexp.aligned hexp.covers htake hexp.header
    hexp.length
  have hcount : bundle.header.tokenCount = r := by rw [hexp.header]; rfl
  have himport : wp (onCache (Cache.importPrefixBundle blockHash bundle q))
      (fun imported t' => imported = bundle.header.tokenCount ∧
        t'.cache.kvs.table.len = bundle.header.tokenCount ∧
        Mapped cfg d.toCandle bundle.blocks t'.cache.kvs) (fun _ _ => False) ⟨c₁, events⟩ :=
    wp_onCache.mpr (wp_import_rows hf₁ (KvBundleCodec.decode_valid hdec) hacc (by rwa [hcount]))
  have hmodel : bundle.header.modelId = manager.modelId := by rw [hexp.header]; rfl
  let nodeB := (KvCacheManager.withRemote manager.modelId store).session q
  have hreusable : matched < nodeB.reusableTokens := hlt.trans_eq hq.symm
  obtain ⟨imported, ⟨s', t'⟩, huse, ⟨rfl, hlen, hmapped⟩, hhit, htokens⟩ :=
    (wp_useRemote_fetched (s := nodeB) rfl hkeyB hget hreusable
      (wp_tryImport hdec hmodel himport)).returns
  refine ⟨s', t', hcount ▸ huse, hhit, htokens.trans hcount, hlen.trans hcount,
    fun layer pos hl hpos => hexp.blocks.kv_eq hshape hmapped hl ?_⟩
  rwa [hexp.length, Nat.div_mul_cancel (Nat.dvd_of_mod_eq_zero hexp.aligned)]

end Nodes

/-! ## 5. Two nodes -/

/-- An encoder that knows the sample header. -/
def sampleHeaderText (m : KvBundleMeta) : Except String (List UInt8) :=
  if m = headerMeta then .ok headerJson else .error "key must be a string"

/-- A prompt of 34 tokens with the reusable tokens of the long one. -/
def otherPrompt : List UInt32 := longPrompt.take 32 ++ [7, 7]

set_option synthInstance.maxSize 256 in
/-- A new node prefills 48 tokens, decodes one and publishes 32. A node that holds the first block
    of them, at another place, imports what was published and maps the same rows. -/
theorem published_importable_once : ∃ (publish : KvPublish) (tA' : Traced Dense)
    (c₁ : Cache Dense) (s' : KvSession) (t' : Traced Dense),
    publish.bundleBytes = some sampleBundle ∧
    KvSession.useRemote sampleHeader sampleHash otherPrompt 16
      ((KvCacheManager.withRemote "m" sampleStore).session otherPrompt, ⟨c₁, []⟩) =
        some (.ok 32, (s', t')) ∧
    ∀ pos, pos < 32 → t'.cache.kvs.pool.kv 0 (rowSlot t'.cache.kvs.table pos) =
      tA'.cache.kvs.pool.kv 0 (rowSlot tA'.cache.kvs.table pos) := by
  have hrunA : wp (ofExcept (Cache.new fourBlocks .f32) : Prog Unit (Cache Dense)) (fun fresh _ =>
      fresh.kvs.table.len = 0 ∧
      wp (publishRun sampleHeader sampleHeaderText sampleHash (sampleModel fourBlocks)
        (.withRemote "m" fun _ => .ok none) longPrompt [48]) (fun publish t' =>
          publish.bundleBytes = some sampleBundle ∧
          ∀ t ∈ t'.cache.kvs.pool.kPools ++ t'.cache.kvs.pool.vPools, dims t = [1, 64, 1] ∧
            ∀ j, j < 64 → elem t [0, j, 0] < 256 ^ 4)
        (fun _ _ => False) ⟨fresh, []⟩) (fun _ _ => False) () := by
    decide +kernel
  have hrunB : wp (ofExcept (Cache.new threeBlocks .f32) : Prog Unit (Cache Dense)) (fun fresh _ =>
      fresh.kvs.table.len = 0 ∧
      wp (serve sampleHeader sampleHash (sampleModel threeBlocks) "m" ⟨samplePrompt, []⟩) (fun _ s =>
        wp Cache.resetSequence (fun _ c₀ => 2 ≤ c₀.kvs.allocator.numFree) (fun _ _ => False) s.cache ∧
        wp (resetAndMatch sampleHash otherPrompt) (fun matched _ => matched = 16) (fun _ _ => False)
          s.cache) (fun _ _ => False) { cache := fresh, passes := [] }) (fun _ _ => False) () := by
    decide +kernel
  obtain ⟨cA, _, hnewA, -, hpublish⟩ := hrunA.returns
  obtain ⟨publish, tA', hpublish, hbytes, hpool⟩ := hpublish.returns
  obtain ⟨cB, _, hnewB, -, hserve⟩ := hrunB.returns
  obtain ⟨_, sB, hserve, hreset, hmatch⟩ := hserve.returns
  obtain ⟨_, c₀, hreset, hfree⟩ := hreset.returns
  obtain ⟨_, c₁, hmatch, rfl⟩ := hmatch.returns
  have hr : (requestLts sampleHeader sampleHash (sampleModel threeBlocks) "m" .f32).Run
      [⟨⟨samplePrompt, []⟩, .ok (), sB.passes⟩] sB.cache :=
    .step (.start (ofExcept_eq_ok.mp hnewB).1) hserve
  obtain ⟨cB, hnewB, hB⟩ := history_reaches hr
  have hbits : BitPatterns .f32 tA'.cache.kvs.pool := by
    intro t ht a b c hd i j k hi hj hk
    obtain ⟨hdims, hlt⟩ := hpool t ht
    rw [hdims] at hd
    cases hd
    obtain rfl := Nat.lt_one_iff.mp hi
    obtain rfl := Nat.lt_one_iff.mp hk
    exact hlt j hj
  have hheader : prefixHeader fourBlocks .f32 "m" longPrompt 32 = headerMeta := by decide +kernel
  have hjson : KvBundleCodec.JsonRoundTrips sampleHeaderText sampleHeader
      (prefixHeader fourBlocks .f32 "m" longPrompt 32) := by
    rw [hheader]
    exact ⟨headerJson, if_pos rfl, by decide +kernel, if_pos rfl⟩
  have hA : Reaches sampleHash cA (Traced.mk cA []).cache := .refl
  obtain ⟨key, -, -, himport⟩ := published_importable (m := sampleModel fourBlocks) (d := .f32)
    (r := 32) (q := otherPrompt) (ofExcept_eq_ok.mp hnewA).1 hnewB ⟨rfl, rfl, rfl⟩ hA hB hpublish
    hbytes (by decide) (by decide) (by decide) hjson hbits
    ⟨by decide, by decide, by decide +kernel⟩ ⟨by decide, by decide⟩ sampleStore
  obtain ⟨s', t', huse, -, -, -, hrows⟩ := himport rfl c₀ hreset hfree 16 c₁ hmatch (by decide) []
  exact ⟨publish, tA', c₁, s', t', hbytes, huse, fun pos hpos => hrows 0 pos (by decide) hpos⟩

end Flour.Kv
