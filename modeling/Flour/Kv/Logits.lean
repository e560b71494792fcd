/-
  File:      Flour/Kv/Logits.lean
  Subject:   The logits of a pass depend on its tokens alone, not on what the cache was used for.

  * `Evaluates` -- what a loaded model promises: rows and logits that are values of the tokens, and
    no failure but that of the embedding;
  * **`wp_forward_logits`** -- a pass on a live cache has the logits of its sequence;
  * `Honest` -- what a store answers for a prompt decodes, if it decodes, to the rows of the tokens
    in its header; `wp_useRemote_live` -- the remote part of a prefill then leaves a prefix of the
    prompt live, whether it matched, imported or fell back;
  * **`wp_prefill_logits`** -- so a prefill has the logits of its prompt, whatever was cached, found
    or imported before, if the blocks of its suffix are in step.
-/
import Flour.Kv.HistoryFree
import Flour.Kv.Footprint
import Flour.Kv.Remote

namespace Flour.Kv

open Candle Flour.Lib Flour.Lib.Prog

/-! ## 1. Models -/

/-- A loaded model. `hidden layer before ids x` says that `x` are the hidden states of a pass over
    `ids` after `before`, on their way into a layer; `logits before ids o`, that `o` are its
    logits. -/
structure Evaluates {T H O : Type} [Candle T] (m : CausalLM T H O) (dtype : DType) (rowOf : RowOf)
    (hidden : ℕ → List UInt32 → List UInt32 → H → Prop)
    (logits : List UInt32 → List UInt32 → O → Prop) : Prop where
  embed {before ids : List UInt32} {x : H} (h : m.embed ids = .ok x) : hidden 0 before ids x
  keyValue {layer : ℕ} {before ids : List UInt32} {x : H} (hl : layer < m.cfg.numHiddenLayers)
    (hx : hidden layer before ids x) (hn : 0 < ids.length)
    (hmax : before.length + ids.length ≤ m.cfg.maxSeqLen) :
    ∃ k v, m.keyValue layer x before.length = .ok (k, v) ∧
      RowsFor m.cfg dtype ids.length (fun j => rowOf layer (before ++ ids.take (j + 1))) k v
  /-- Attention over blocks of the pool's shape, none of them empty. -/
  attend {layer : ℕ} {before ids : List UInt32} {x : H} {blocks : List (T × T)}
    (hl : layer < m.cfg.numHiddenLayers) (hx : hidden layer before ids x) (hn : 0 < ids.length)
    (hmax : before.length + ids.length ≤ m.cfg.maxSeqLen)
    (hshape : ∀ view ∈ blocks, ∃ n, 0 < n ∧ OfShape m.cfg dtype n view.1 view.2)
    (hb : liveRows blocks = rowsOf rowOf layer (before ++ ids)) :
    ∃ x', m.attend layer x before.length blocks = .ok x' ∧ hidden (layer + 1) before ids x'
  output {before ids : List UInt32} {x : H} (hx : hidden m.cfg.numHiddenLayers before ids x)
    (hn : 0 < ids.length) : ∃ o, m.output x = .ok o ∧ logits before ids o

section Forward

variable {T H O : Type} [Candle T] [LawfulCandle T] {m : CausalLM T H O} {dtype : DType}
  {rowOf : RowOf} {hidden : ℕ → List UInt32 → List UInt32 → H → Prop}
  {logits : List UInt32 → List UInt32 → O → Prop} {blockHash : BlockHash}
  {prompts : List UInt32 → Prop} {before ids : List UInt32}

/-- **A layer** writes its rows, reads those of the whole sequence, and returns. -/
theorem wp_layerForward_hidden (hm : Evaluates m dtype rowOf hidden logits) {layer : ℕ}
    (hl : layer < m.cfg.numHiddenLayers) {x : H} (hx : hidden layer before ids x)
    (hn : 0 < ids.length) {t : Traced T}
    (h : Fills m.cfg dtype blockHash prompts rowOf before ids layer t.cache) :
    wp (m.layerForward before.length layer x)
      (fun x' t' => Fills m.cfg dtype blockHash prompts rowOf before ids (layer + 1) t'.cache ∧
        hidden (layer + 1) before ids x') (fun _ _ => False) t := by
  obtain ⟨k, v, hkv, hrows⟩ := hm.keyValue hl hx hn h.fits
  unfold CausalLM.layerForward
  rw [wp_bind, wp_ofExcept, hkv]
  show wp (onCache (Cache.writeKv layer k v) >>= _) _ _ t
  rw [wp_bind, wp_onCache]
  refine (wp_writeKv_fills h hl hrows).mono (fun _ c₁ h₁ => ?_) fun _ _ hE => hE
  rw [wp_bind, wp_onCache]
  refine (wp_kvBlocks_rows h₁.formed hl).mono (fun blocks c₂ hb => ?_) fun _ _ hE => hE
  obtain ⟨rfl, hshape, hb⟩ := hb
  have hread : liveRows blocks = rowsOf rowOf layer (before ++ ids) := by
    rw [hb]
    refine liveKv_of_holds ?_ (h₁.full layer (Nat.lt_succ_self layer) hl)
    rw [h₁.len, List.length_append]
  obtain ⟨x', hx', hhidden⟩ := hm.attend hl hx hn h.fits hshape hread
  rw [wp_bind, record, wp_modify, wp_ofExcept, hx']
  exact ⟨h₁, hhidden⟩

/-- **The layers of a pass**, from `layer` on. -/
theorem wp_layersForward_hidden (hm : Evaluates m dtype rowOf hidden logits) {layer n : ℕ}
    (hk : layer + n = m.cfg.numHiddenLayers) {x : H} (hx : hidden layer before ids x)
    (hn : 0 < ids.length) {t : Traced T}
    (h : Fills m.cfg dtype blockHash prompts rowOf before ids layer t.cache) :
    wp (m.layersForward before.length (List.range' layer n) x)
      (fun x' t' => Fills m.cfg dtype blockHash prompts rowOf before ids m.cfg.numHiddenLayers
        t'.cache ∧ hidden m.cfg.numHiddenLayers before ids x') (fun _ _ => False) t := by
  induction n generalizing layer x t with
  | zero =>
    obtain rfl : layer = m.cfg.numHiddenLayers := hk
    exact ⟨h, hx⟩
  | succ n ih =>
    rw [List.range'_succ, CausalLM.layersForward, wp_bind]
    refine (wp_layerForward_hidden hm (by omega) hx hn h).mono (fun x' t₁ h₁ => ?_) fun _ _ hE => hE
    exact ih (by omega) h₁.2 h₁.1

/-- What a pass over `ids` needs. -/
structure Passable (m : CausalLM T H O) (c : Cache T) (ids : List UInt32) : Prop where
  embeds : (m.embed ids).isOk
  fits : c.kvs.table.len + ids.length ≤ c.maxSeqLen
  free : c.missing ids.length ≤ c.kvs.allocator.numFree

/-- **A pass on a live cache** has the logits of its sequence; where its tokens can be embedded, fit
    and find their blocks free, it returns. -/
theorem wp_forward_logits (hm : Evaluates m dtype rowOf hidden logits) (hn : 0 < ids.length)
    {t : Traced T} (h : Live m.cfg dtype blockHash prompts rowOf before t.cache)
    (hsafe : m.writes ids before.length t.cache → RunsSafe 0 (nextSlots t.cache ids.length)) :
    wp (m.forward ids before.length)
      (fun o t' => Live m.cfg dtype blockHash prompts rowOf (before ++ ids) t'.cache ∧
        logits before ids o)
      (fun _ t' => Clean m.cfg dtype blockHash prompts rowOf t'.cache ∧
        ¬ Passable m t.cache ids) t := by
  unfold CausalLM.forward
  rw [wp_bind, wp_get, wp_bind, record, wp_modify, wp_bind, wp_ofExcept]
  cases hx : m.embed ids with
  | error e =>
    refine ⟨h.toClean, fun hp => ?_⟩
    have hok := hp.embeds
    rw [hx] at hok
    cases hok
  | ok x =>
    show wp (onCache (Cache.allocateKv ids.length) >>= _) _ _ _
    rw [wp_bind, wp_onCache]
    refine (Cache.wp_allocateKv h.formed.owned ids.length).mono (fun _ c₁ hr => ?_) fun _ c₁ hr => ?_
    · obtain ⟨⟨taken, hr⟩, hmax, hfree⟩ := hr
      have hsafe' : 0 < m.cfg.numHiddenLayers → RunsSafe 0 (nextSlots t.cache ids.length) := by
        intro hpos
        have hfits : before.length + ids.length ≤ m.cfg.maxSeqLen := by
          rw [← h.len, ← h.formed.maxSeqLen]
          exact hmax
        obtain ⟨k, v, hkv, -⟩ := hm.keyValue hpos (hm.embed hx) hn hfits
        exact hsafe (CausalLM.writes_iff.mpr ⟨⟨hpos, hmax, hfree⟩, x, (k, v), hx, hkv⟩)
      rw [wp_bind, List.range_eq_range']
      refine (wp_layersForward_hidden hm (Nat.zero_add _) (hm.embed hx) hn
        (h.reserved hr hmax hsafe')).mono (fun x' t₂ h₂ => ?_) fun _ _ hE => hE.elim
      obtain ⟨o, ho, hlogits⟩ := hm.output h₂.2 hn
      rw [wp_ofExcept, ho]
      exact ⟨h₂.1.live, hlogits⟩
    · obtain ⟨⟨_, hg⟩, howned, hmax, hno⟩ := hr
      refine ⟨h.toClean.of_same howned hg.pushed.pool hg.pushed.registry hg.pushed.size hmax,
        fun hp => ?_⟩
      have hfits := hp.fits
      have hfree := hp.free
      omega

end Forward

/-! ## 2. What a store answers -/

section Remote

variable {T H O : Type} [Candle T] {cfg : Config} {dtype : DType} {rowOf : RowOf}
  {blockHash : BlockHash} {prompts : List UInt32 → Prop} {prompt : List UInt32}
  {fromSlice : List UInt8 → Except String KvBundleMeta} {modelId : String}

/-- A bundle has the rows of the tokens in its header. -/
def HonestBundle (cfg : Config) (rowOf : RowOf) (bundle : KvBundle T) : Prop :=
  ∀ (b layer : ℕ) (block : KvBundleBlock T) (lb : KvLayerBlock T), bundle.blocks[b]? = some block →
    block.layers[layer]? = some lb → ∀ j, j < blockSize →
      layerKv cfg lb j = rowOf layer (bundle.header.tokenIds.take (b * blockSize + j + 1))

/-- Bytes that are rejected, or decode to a bundle, which is honest if it is one of the model. -/
def HonestBytes (T : Type) [Candle T] (fromSlice : List UInt8 → Except String KvBundleMeta)
    (modelId : String) (cfg : Config) (rowOf : RowOf) (bytes : List UInt8) : Prop :=
  wp (KvBundleCodec.decode (T := T) fromSlice bytes)
    (fun bundle _ => bundle.header.modelId = modelId → HonestBundle cfg rowOf bundle)
    (fun _ _ => True) ()

/-- All that a store answers is honest. -/
def Honest (T : Type) [Candle T] (fromSlice : List UInt8 → Except String KvBundleMeta)
    (modelId : String) (cfg : Config) (rowOf : RowOf) (store : RemoteGet) : Prop :=
  ∀ key bytes, store key = .ok (some bytes) → HonestBytes T fromSlice modelId cfg rowOf bytes

/-- The first `reused` tokens of a prompt are live, with their rows, in whole blocks. -/
structure Reuses (cfg : Config) (dtype : DType) (blockHash : BlockHash)
    (prompts : List UInt32 → Prop) (rowOf : RowOf) (prompt : List UInt32) (reused : ℕ)
    (c : Cache T) : Prop extends
    Live cfg dtype blockHash prompts rowOf (prompt.take reused) c where
  le : reused ≤ prompt.length
  blocks : c.kvs.table.blocks.length * blockSize = reused

theorem Reuses.tableLen {reused : ℕ} {c : Cache T}
    (h : Reuses cfg dtype blockHash prompts rowOf prompt reused c) : c.kvs.table.len = reused := by
  rw [h.len, List.length_take, Nat.min_eq_left h.le]

/-- A reset and a match. -/
theorem wp_resetAndMatch_reuses {c : Cache T} (h : Clean cfg dtype blockHash prompts rowOf c)
    (hc : NoCollision blockHash blockSize prompts) (hs : NoSeed blockHash blockSize prompts)
    (hp : prompts prompt) :
    wp (resetAndMatch blockHash prompt) (Reuses cfg dtype blockHash prompts rowOf prompt)
      (fun _ _ => False) c := by
  refine (wp_resetAndMatch_rows h hc hs hp).mono (fun matched c₁ hm => ?_) fun _ _ hE => hE
  obtain ⟨hlive, hlen, hblocks⟩ := hm
  refine ⟨hlive, ?_, hblocks⟩
  have hle := hlive.len
  rw [hlen, List.length_take] at hle
  omega

/-- The rows that a table maps for the blocks of an honest bundle are those of the prompt. -/
theorem Mapped.rowOf_eq {bundle : KvBundle T} {c c' : KvCache T}
    (h : Mapped cfg dtype bundle.blocks c') (hh : HonestBundle cfg rowOf bundle)
    (ha : c.Accepts bundle prompt) (hbs : c.table.blockSize = blockSize) {layer pos : ℕ}
    (hl : layer < cfg.numHiddenLayers) (hpos : pos < bundle.header.tokenCount) :
    c'.pool.kv layer (rowSlot c'.table pos) = rowOf layer (prompt.take (pos + 1)) := by
  have hnum := ha.blocks
  have hal := ha.aligned
  rw [hbs] at hnum hal
  have hb : pos / blockSize < bundle.blocks.length := by
    rw [hnum]
    refine Nat.div_lt_of_lt_mul ?_
    rwa [Nat.mul_div_cancel' (Nat.dvd_of_mod_eq_zero hal)]
  have hj : pos % blockSize < blockSize := Nat.mod_lt _ (by decide)
  have hpage : pos / blockSize * blockSize + pos % blockSize = pos := Nat.div_add_mod' _ _
  have hblock := List.getElem?_eq_getElem hb
  have hrows := h _ _ hblock
  have hlayer := List.getElem?_eq_getElem (hrows.layers.symm ▸ hl)
  have hrow := (hrows.rows _ _ hlayer).rows _ hj
  rw [hh _ _ _ _ hblock hlayer _ hj, hpage, ← ha.isPrefix, List.take_take,
    Nat.min_eq_left (Nat.succ_le_of_lt hpos)] at hrow
  exact hrow.symm

/-- An import that began from a clean cache leaves its entries the rows of their prompts. -/
theorem Clean.entry_kept [LawfulCandle T] {c : Cache T}
    (h : Clean cfg dtype blockHash prompts rowOf c) {bundle : KvBundle T} (hv : bundle.Valid)
    {r : Except String ℕ} {kvs : KvCache T}
    (hrun : KvCache.importPrefixBundle blockHash bundle prompt c.kvs = some (r, kvs))
    {hash : UInt64} {tokens : List UInt32} {id : ℕ}
    (he : c.kvs.registry.entries.lookup hash = some (tokens, id)) :
    ∃ p b, prompts p ∧ b < p.length / blockSize ∧
      hash = chainHash blockHash blockSize p (b + 1) ∧
      BlockHolds rowOf cfg.numHiddenLayers kvs.pool id b p := by
  obtain ⟨p, b, hp, hb, hhash, hblock⟩ := h.cached hash tokens id he
  have hmem : id ∈ c.kvs.registry.blockIds := PrefixRegistry.mem_blockIds.mpr ⟨hash, tokens, he⟩
  have hlt := h.formed.owned.tracks.inRange id (Multiset.mem_add.mpr (Or.inr hmem))
  refine ⟨p, b, hp, hb, hhash, fun l j hl hj => ?_⟩
  rw [← hblock l j hl hj]
  exact import_keeps_cached h.formed hv hrun hlt (fun _ => hmem) l hj

/-- **What an import registers** are blocks of the prompt, with its rows; cached blocks keep
    theirs. -/
theorem Clean.imported [LawfulCandle T] {c : Cache T} (h : Clean cfg dtype blockHash prompts rowOf c)
    (hp : prompts prompt) {bundle : KvBundle T} (hv : bundle.Valid)
    (hh : HonestBundle cfg rowOf bundle) {n : ℕ} {kvs c₀ : KvCache T} {ids : List ℕ}
    (hrun : KvCache.importPrefixBundle blockHash bundle prompt c.kvs = some (.ok n, kvs))
    (hacc : c.kvs.Accepts bundle prompt) (hr : KvCache.Reset c.kvs c₀)
    (hi : KvCache.Imported blockHash bundle.header c₀ kvs ids)
    (hmapped : Mapped cfg dtype bundle.blocks kvs) (hf : Formed cfg dtype { c with kvs }) :
    Clean cfg dtype blockHash prompts rowOf { c with kvs } := by
  have hbs := h.formed.owned.blockSize
  refine ⟨hf, fun hash tokens id he => ?_⟩
  obtain ⟨c₁, hreg, htable, hregs⟩ := hi.registered
  rcases hregs.entries hash tokens id he with hold | ⟨k, hk, hhash, _, hid⟩
  · rw [hreg, hr.registry] at hold
    exact h.entry_kept hv hrun hold
  · rw [Nat.zero_add] at hhash hid
    rw [htable] at hid
    have hle : (k + 1) * blockSize ≤ bundle.header.tokenCount :=
      Nat.mul_le_of_le_div _ _ _ hk
    have hlt : k < prompt.length / blockSize :=
      Nat.lt_of_lt_of_le hk (Nat.div_le_div_right hacc.le)
    have htake : prompt.take ((k + 1) * blockSize) =
        bundle.header.tokenIds.take ((k + 1) * blockSize) := by
      rw [← hacc.isPrefix, List.take_take, Nat.min_eq_left hle]
    refine ⟨prompt, k, hp, hlt, hhash.trans (chainHash_congr htake).symm, fun l j hl hj => ?_⟩
    have hpos : k * blockSize + j < bundle.header.tokenCount := by
      rw [Nat.succ_mul] at hle
      omega
    have hrow := hmapped.rowOf_eq hh hacc hbs hl hpos
    rwa [rowSlot, translate_page hj, List.getD_eq_getElem?_getD, hid] at hrow

/-- **An honest import** leaves its tokens live, or fails and leaves a clean cache. -/
theorem wp_import_reuses [LawfulCandle T] {c : Cache T}
    (h : Clean cfg dtype blockHash prompts rowOf c) (hp : prompts prompt)
    (hlayers : cfg.numHiddenLayers ≠ 0) {bundle : KvBundle T} (hv : bundle.Valid)
    (hh : HonestBundle cfg rowOf bundle) :
    wp (Cache.importPrefixBundle blockHash bundle prompt)
      (Reuses cfg dtype blockHash prompts rowOf prompt)
      (fun _ c' => Clean cfg dtype blockHash prompts rowOf c') c := by
  have ho := h.formed.owned
  have hbs := ho.blockSize
  have hl : c.kvs.pool.numLayers ≠ 0 := by
    rw [show c.kvs.pool.numLayers = cfg.numHiddenLayers from h.formed.pool.kLen]
    exact hlayers
  have hform : ∀ {r : Except String ℕ} {kvs : KvCache T},
      KvCache.importPrefixBundle blockHash bundle prompt c.kvs = some (r, kvs) → kvs.Owned →
      kvs.allocator.size = c.kvs.allocator.size → Formed cfg dtype { c with kvs } := by
    intro r kvs hrun howned hsize
    obtain ⟨hpool, hheads, hdim⟩ := keeps_importPrefixBundle bundle prompt c.kvs r kvs
      ⟨h.formed.pool, h.formed.kvHeads, h.formed.headDim⟩ hrun
    exact ⟨⟨howned, hsize.trans h.formed.size, h.formed.maxSeqLen⟩, hpool, hheads, hdim,
      h.formed.small⟩
  refine Cache.wp_onKvs.mpr ?_
  rcases (KvCache.wp_importPrefixBundle ho hl blockHash bundle prompt).exists with
    ⟨n, kvs, hrun, rfl, hacc, c₀, ids, hr, hi⟩ | ⟨e, kvs, hrun, ⟨rfl, _⟩ | ⟨hacc, c₀, hr, hback⟩⟩
  · refine (wp_of_ok hrun).mpr ?_
    have hfree : bundle.header.tokenCount / blockSize ≤ c₀.allocator.numFree := by
      have hsum := hi.free
      rw [hi.length] at hsum
      omega
    have hmapped : Mapped cfg dtype bundle.blocks kvs := by
      unfold KvCache.importPrefixBundle at hrun
      obtain ⟨_, c₁, hcheck, hrun⟩ := Prog.bind_eq_ok.mp hrun
      obtain ⟨rfl, -⟩ := (KvCache.wp_checkBundle hl bundle prompt).of_ok hcheck
      obtain ⟨_, c₂, hreset, hrun⟩ := Prog.bind_eq_ok.mp hrun
      have hr₂ : KvCache.Reset c.kvs c₂ :=
        (KvCache.wp_resetSequence ho (E := fun _ _ => False)).of_ok hreset
      have hfree₂ : bundle.header.tokenCount / blockSize ≤ c₂.allocator.numFree := by
        have hf₀ := hr.free
        have hf₂ := hr₂.free
        omega
      exact ((wp_importChecked_rows h.formed hr₂ blockHash hv hacc hfree₂).of_ok hrun).2
    have hclean := h.imported hp hv hh hrun hacc hr hi hmapped
      (hform hrun hi.owned (hi.size.trans hr.size))
    have hal := hacc.aligned
    rw [hbs] at hal
    have hids : kvs.table.blocks.length * blockSize = bundle.header.tokenCount := by
      rw [hi.blocks, hi.length, Nat.div_mul_cancel (Nat.dvd_of_mod_eq_zero hal)]
    have htake : (prompt.take bundle.header.tokenCount).length = bundle.header.tokenCount := by
      rw [List.length_take, Nat.min_eq_left hacc.le]
    refine ⟨⟨hclean, by rw [htake]; exact hi.len, fun l hl pos hpos => ?_, fun i id hi' hb => ?_⟩,
      hacc.le, hids⟩
    · rw [htake] at hpos
      rw [List.take_take, Nat.min_eq_left (Nat.succ_le_of_lt hpos)]
      exact hmapped.rowOf_eq hh hacc hbs hl hpos
    · rw [htake, ← hids, Nat.mul_div_cancel _ (by decide)] at hi'
      rw [List.getElem?_eq_none hi'] at hb
      cases hb
  · exact (wp_of_error hrun).mpr h
  · refine (wp_of_error hrun).mpr ⟨hform hrun hback.owned (hback.size.trans hr.size),
      fun hash tokens id he => ?_⟩
    rw [hback.registry, hr.registry] at he
    exact h.entry_kept hv hrun he

/-- What holds of the tokens that a prefill reuses, in the state it computes the rest from. -/
theorem wp_useRemote_reuses [LawfulCandle T] (hc : NoCollision blockHash blockSize prompts)
    (hns : NoSeed blockHash blockSize prompts) (hp : prompts prompt) {s : KvSession} {t : Traced T}
    {matched : ℕ} (h : Reuses cfg dtype blockHash prompts rowOf prompt matched t.cache)
    (hstore : ∀ bytes, s.fetched = some bytes → cfg.numHiddenLayers ≠ 0 ∧
      HonestBytes T fromSlice s.modelId cfg rowOf bytes) :
    wp (KvSession.useRemote fromSlice blockHash prompt matched)
      (fun reused st => Reuses cfg dtype blockHash prompts rowOf prompt reused st.2.cache)
      (fun _ _ => False) (s, t) := by
  have hrematch : ∀ t' : Traced T, Clean cfg dtype blockHash prompts rowOf t'.cache →
      wp (onCache (resetAndMatch blockHash prompt))
        (fun reused t' => Reuses cfg dtype blockHash prompts rowOf prompt reused t'.cache)
        (fun _ _ => False) t' := fun t' ht =>
    wp_onCache.mpr (wp_resetAndMatch_reuses ht hc hns hp)
  refine (KvSession.wp_useRemote_iff (P := fun reused (t' : Traced T) =>
    Reuses cfg dtype blockHash prompts rowOf prompt reused t'.cache)).mpr ?_
  cases hf : s.fetched with
  | none => exact h
  | some bytes =>
    obtain ⟨hlayers, hbytes⟩ := hstore bytes hf
    dsimp only
    split
    · exact h
    refine (KvSession.wp_tryImport_iff (P := fun reused (t' : Traced T) =>
      Reuses cfg dtype blockHash prompts rowOf prompt reused t'.cache)).mpr ?_
    have hvalid : wp (KvBundleCodec.decode (T := T) fromSlice bytes)
        (fun bundle _ => bundle.Valid ∧
          (bundle.header.modelId = s.modelId → HonestBundle cfg rowOf bundle))
        (fun _ _ => True) () := by
      refine (wp_congr_run (fun bundle u hrun => ?_) fun _ _ _ => Iff.rfl).mpr hbytes
      exact and_iff_right (KvBundleCodec.decode_valid hrun)
    refine hvalid.mono (fun bundle _ hb => ?_) fun _ _ _ => hrematch t h.toClean
    split
    · exact hrematch t h.toClean
    · rename_i hid
      exact wp_onCache.mpr ((wp_import_reuses h.toClean hp hlayers hb.1 (hb.2 (not_not.mp hid))).mono
        (fun _ _ hQ => hQ) fun _ c' hE => hrematch { t with cache := c' } hE)

end Remote

/-! ## 3. Prefills -/

section Prefill

variable {T H O : Type} [Candle T] [LawfulCandle T] {m : CausalLM T H O} {dtype : DType}
  {rowOf : RowOf} {hidden : ℕ → List UInt32 → List UInt32 → H → Prop}
  {logits : List UInt32 → List UInt32 → O → Prop} {blockHash : BlockHash}
  {prompts : List UInt32 → Prop} {fromSlice : List UInt8 → Except String KvBundleMeta}

/-- What a prefill reuses, up to the pass over the rest of the prompt. -/
def reuse (fromSlice : List UInt8 → Except String KvBundleMeta) (blockHash : BlockHash)
    (s : KvSession) : Prog (Traced T) ℕ :=
  Prog.within s do
    let matched ← KvSession.onTraced (onCache (resetAndMatch blockHash s.promptTokens))
    KvSession.useRemote fromSlice blockHash s.promptTokens matched

/-- The blocks that the pass over the rest of the prompt takes from the free list, if it gets to a
    write. -/
def suffixBlocks (fromSlice : List UInt8 → Except String KvBundleMeta) (blockHash : BlockHash)
    (m : CausalLM T H O) (s : KvSession) (t : Traced T) : List ℕ :=
  match reuse fromSlice blockHash s t with
  | some (.ok reused, t₁) => m.nextBlocks s.promptTokens reused t₁.cache
  | _ => []

omit [LawfulCandle T] in
theorem wp_prefillWith_reuse (forward : Forward T O) (s : KvSession)
    {Q : PrefillOutput O → Traced T → Prop} {E : String → Traced T → Prop} {t : Traced T} :
    wp (Prog.within s (prefillWith fromSlice blockHash forward)) Q E t ↔
      wp (reuse fromSlice blockHash s) (fun reused t₁ =>
        wp (prefillSuffixWith forward s.promptTokens reused) (fun logits =>
          wp (onCache (Cache.registerPrefix blockHash s.promptTokens))
            (fun _ => Q { logits, reusedPrefixTokens := reused }) E) E t₁) E t := by
  rw [wp_prefillWith_iff, reuse, wp_within, wp_bind, KvSession.onTraced, wp_zoom]

omit [LawfulCandle T] in
theorem wp_prefill_reuse (s : KvSession) {Q : PrefillOutput O → Traced T → Prop}
    {E : String → Traced T → Prop} {t : Traced T} :
    wp (Prog.within s (KvSession.prefill fromSlice blockHash m)) Q E t ↔
      wp (reuse fromSlice blockHash s) (fun reused t₁ =>
        wp (m.prefillSuffix s.promptTokens reused) (fun logits =>
          wp (onCache (Cache.registerPrefix blockHash s.promptTokens))
            (fun _ => Q { logits, reusedPrefixTokens := reused }) E) E t₁) E t := by
  rw [← prefillWith_forward]
  exact wp_prefillWith_reuse m.forward s

omit [LawfulCandle T] in
/-- What it leaves live, in whole blocks. -/
theorem wlp_reuse (s : KvSession) {t : Traced T} (h : t.cache.kvs.Owned) :
    wlp (reuse fromSlice blockHash s)
      (fun reused t' => Reaches blockHash t.cache t'.cache ∧ Aligned t'.cache.kvs reused)
      (fun _ _ => True) t := by
  have hreset : wlp Cache.resetSequence (fun _ c => Reaches blockHash t.cache c ∧ Aligned c.kvs 0)
      (fun _ c => Reaches blockHash t.cache c) t.cache := wlp_resetSequence h
  refine wlp_within (wlp_bind (wlp_zoom (wlp_onCache (wlp_bind
    (hreset.mono (fun _ c₁ h₁ => ?_) fun _ _ _ => trivial)))))
  refine (wlp_matchPrefix (h₁.1.kept h).owned h₁.2 s.promptTokens).mono (fun matched c₂ h₂ => ?_)
    fun _ _ _ => trivial
  have hr₂ := h₁.1.trans h₂.1
  exact (wlp_useRemote (hr₂.kept h).owned h₂.2).mono (fun _ _ h₃ => ⟨hr₂.trans h₃.1, h₃.2⟩)
    fun _ _ _ => trivial

/-- **The logits of a prefill** are those of its prompt, whatever was cached before and whatever an
    honest store answers. -/
theorem wp_prefill_logits (hm : Evaluates m dtype rowOf hidden logits)
    (hc : NoCollision blockHash blockSize prompts) (hns : NoSeed blockHash blockSize prompts)
    {s : KvSession} (hp : prompts s.promptTokens) {t : Traced T}
    (h : Clean m.cfg dtype blockHash prompts rowOf t.cache)
    (hstore : ∀ bytes, s.fetched = some bytes → m.cfg.numHiddenLayers ≠ 0 ∧
      HonestBytes T fromSlice s.modelId m.cfg rowOf bytes)
    (hstep : InStep (suffixBlocks fromSlice blockHash m s t)) :
    wp (Prog.within s (KvSession.prefill fromSlice blockHash m))
      (fun out t' => Live m.cfg dtype blockHash prompts rowOf s.promptTokens t'.cache ∧
        ∃ before ids, before ++ ids = s.promptTokens ∧ 0 < ids.length ∧
          logits before ids out.logits)
      (fun _ t' => Clean m.cfg dtype blockHash prompts rowOf t'.cache) t := by
  have hreuse : wp (reuse fromSlice blockHash s)
      (fun reused t₁ => Reuses m.cfg dtype blockHash prompts rowOf s.promptTokens reused t₁.cache)
      (fun _ _ => False) t := by
    rw [reuse, wp_within, wp_bind, KvSession.onTraced, wp_zoom, wp_onCache]
    refine (wp_resetAndMatch_reuses h hc hns hp).mono (fun matched c₁ hm₁ => ?_) fun _ _ hE => hE
    exact wp_useRemote_reuses (t := { t with cache := c₁ }) hc hns hp hm₁ hstore
  obtain ⟨reused, t₁, hrun, h₁⟩ := hreuse.returns
  unfold suffixBlocks at hstep
  rw [hrun] at hstep
  refine (wp_prefill_reuse s).mpr ((wp_of_ok hrun).mpr ?_)
  unfold CausalLM.prefillSuffix
  refine wp_guard (fun _ => h₁.toClean) fun hlt => ?_
  have hlt : reused < s.promptTokens.length := Nat.lt_of_not_le hlt
  have hbefore : (s.promptTokens.take reused).length = reused := by
    rw [List.length_take, Nat.min_eq_left h₁.le]
  have hsplit : s.promptTokens.take reused ++ s.promptTokens.drop reused = s.promptTokens :=
    List.take_append_drop _ _
  have hpos : 0 < (s.promptTokens.drop reused).length := by
    rw [List.length_drop]
    omega
  have hforward := wp_forward_logits hm hpos h₁.toLive fun hwrites => by
    rw [hbefore] at hwrites
    exact (nextSlots_safe_iff h₁.tableLen h₁.blocks hlt hwrites).mpr hstep
  rw [hbefore, hsplit] at hforward
  refine hforward.mono (fun o t₂ h₂ => ?_) fun _ _ hE => hE.1
  have hcov := covers h₂.1.formed.owned (le_of_eq h₂.1.len.symm)
  refine wp_onCache.mpr ((Cache.wp_registerPrefix h₂.1.formed.owned blockHash hcov).mono
    (fun _ c₃ hr => ?_) fun _ _ hE => hE)
  exact ⟨h₂.1.registered hp hr.1 hr.2, _, _, hsplit, hpos, h₂.2⟩

end Prefill

end Flour.Kv
