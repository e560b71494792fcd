/-
  File:      Flour/Kv/Remote.lean
  Subject:   When a remote store does no harm to a prefill that succeeds without it.

  * `wp_useRemote_iff`, `wp_tryImport_iff` -- what the remote part of a prefill leads to: the suffix
    after the local match, after an import, or after the match that replaces a failed import.
  * `Harmless` -- the answers of the store that do no harm.
  * **`remote_prefill_iff`** -- from every state reached by cache operations, a prefill that
    succeeds locally succeeds with the store exactly when the answer is harmless.
  * `remote_prefill_fails` -- an honest bundle that takes the last free blocks;
    `remote_prefill_imports` -- the same bundle on a cache with one block more.
-/
import Flour.Kv.HistoryFree
import Flour.Kv.Import
import Flour.Kv.Prefill

namespace Flour.Kv

open Candle Flour.Lib Flour.Lib.Prog

/-! ## 1. The remote part of a prefill -/

namespace KvSession

variable {T : Type} [Candle T] {fromSlice : List UInt8 → Except String KvBundleMeta}
  {blockHash : BlockHash} {prompt : List UInt32} {P : ℕ → Traced T → Prop}

/-- The bytes that the store has for the key of the session. -/
def fetched (s : KvSession) : Option (List UInt8) :=
  match s.remoteStore, s.remoteKey with
  | some store, some key =>
    match store key with
    | .ok bytes => bytes
    | .error _ => none
  | _, _ => none

/-- Bytes are imported unless the local match is as long as the reusable prefix. -/
theorem wp_useRemote_iff {reused : ℕ} {s : KvSession} {t : Traced T} :
    wp (useRemote fromSlice blockHash prompt reused) (fun r st => P r st.2) (fun _ _ => False) (s, t) ↔
      match s.fetched with
      | none => P reused t
      | some bytes =>
        if s.reusableTokens ≤ reused then P reused t
        else wp (tryImport fromSlice blockHash bytes prompt) (fun r st => P r st.2)
          (fun _ _ => False) (s, t) := by
  unfold useRemote fetched
  rw [wp_bind, wp_get]
  dsimp only
  rcases s.remoteStore with _ | store
  · exact Iff.rfl
  rcases s.remoteKey with _ | key
  · exact Iff.rfl
  dsimp only
  rcases store key with e | _ | bytes
  · exact Iff.rfl
  · exact Iff.rfl
  dsimp only
  split <;> exact Iff.rfl

omit [Candle T] in
theorem wp_fallBack_iff {e : String} {s : KvSession} {t : Traced T} :
    wp (fallBack blockHash prompt e) (fun r st => P r st.2) (fun _ _ => False) (s, t) ↔
      wp (onCache (resetAndMatch blockHash prompt)) P (fun _ _ => False) t := by
  unfold fallBack resetAndMatch
  rw [wp_bind, update, wp_modify, wp_bind, onTraced, wp_zoom, wp_onCache, wp_onCache, wp_bind]
  refine wp_congr (fun _ c₁ => ?_) fun _ _ => Iff.rfl
  rw [wp_bind, onTraced, wp_zoom, wp_onCache]
  exact Iff.rfl

/-- Bytes that are not decoded, checked and imported lead to the local match. -/
theorem wp_tryImport_iff {bytes : List UInt8} {s : KvSession} {t : Traced T} :
    wp (tryImport fromSlice blockHash bytes prompt) (fun r st => P r st.2) (fun _ _ => False) (s, t) ↔
      wp (KvBundleCodec.decode (T := T) fromSlice bytes) (fun bundle _ =>
        if bundle.header.modelId ≠ s.modelId then
          wp (onCache (resetAndMatch blockHash prompt)) P (fun _ _ => False) t
        else wp (onCache (Cache.importPrefixBundle blockHash bundle prompt)) P
          (fun _ => wp (onCache (resetAndMatch blockHash prompt)) P fun _ _ => False) t)
        (fun _ _ => wp (onCache (resetAndMatch blockHash prompt)) P (fun _ _ => False) t) () := by
  unfold tryImport importRemoteBundle
  rw [wp_bind, wp_catching, wp_bind, wp_zoom]
  refine wp_congr (fun bundle _ => ?_) fun e _ => wp_fallBack_iff
  rw [wp_bind, wp_get]
  dsimp only
  split
  · exact wp_fallBack_iff
  · rw [onTraced, wp_zoom]
    exact wp_congr (fun _ _ => Iff.rfl) fun e t' => wp_fallBack_iff

end KvSession

/-- A session counts as reusable what a match may reuse. -/
theorem reusableTokens_session (m : KvCacheManager) (prompt : List UInt32) :
    (m.session prompt).reusableTokens = KvCache.maxReusable blockSize prompt.length * blockSize := by
  rw [← reusableTokenCount_eq m.modelId]
  show (m.prepare prompt).reusableTokens = _
  unfold KvCacheManager.prepare
  cases m.remote <;> rfl

/-! ## 2. Answers that do no harm -/

section Harmless

variable {T H O : Type} [Candle T]

/-- The prefill of a session with a store. -/
def remotePrefill (fromSlice : List UInt8 → Except String KvBundleMeta) (blockHash : BlockHash)
    (m : CausalLM T H O) (modelId : String) (store : RemoteGet) (prompt : List UInt32) :
    Prog (Traced T) (PrefillOutput O) :=
  Prog.within ((KvCacheManager.withRemote modelId store).session prompt)
    (KvSession.prefill fromSlice blockHash m)

/-- It resumes after what the remote part leads to. -/
theorem wp_remotePrefill_iff (fromSlice : List UInt8 → Except String KvBundleMeta)
    (blockHash : BlockHash) (m : CausalLM T H O) (modelId : String) (store : RemoteGet)
    (prompt : List UInt32) {t : Traced T} :
    wp (remotePrefill fromSlice blockHash m modelId store prompt)
        (fun out _ => out.reusedPrefixTokens < prompt.length) (fun _ _ => False) t ↔
      wp (onCache (resetAndMatch blockHash prompt)) (fun matched t₁ =>
        wp (KvSession.useRemote fromSlice blockHash prompt matched)
          (fun reused st => Resumes blockHash m prompt reused st.2) (fun _ _ => False)
          ((KvCacheManager.withRemote modelId store).session prompt, t₁)) (fun _ _ => False) t :=
  wp_prefill_iff fromSlice blockHash m ((KvCacheManager.withRemote modelId store).session prompt)

/-- The blocks that the registry does not refer to. -/
def freeBlocks (c : Cache T) : ℕ := c.kvs.allocator.size - heldBlocks c.kvs.registry

/-- If the blocks of `tokenCount` tokens can be had at all, then a token of the prompt is left to
    compute, and there are blocks for the whole prompt. -/
def LeavesRoom (m : CausalLM T H O) (c : Cache T) (prompt : List UInt32) (tokenCount : ℕ) : Prop :=
  tokenCount / blockSize ≤ freeBlocks c → tokenCount < prompt.length ∧
    divCeil prompt.length blockSize ≤ freeBlocks c ∧ (m.embed (prompt.drop tokenCount)).isOk

/-- **The answers that do no harm**: nothing; what is not imported, since the registry holds the
    reusable prefix; bytes that are decoded and checked without a panic and are refused, or leave
    room for the rest of the prompt. -/
def Harmless (fromSlice : List UInt8 → Except String KvBundleMeta) (blockHash : BlockHash)
    (m : CausalLM T H O) (modelId : String) (store : RemoteGet) (prompt : List UInt32)
    (c : Cache T) : Prop :=
  match ((KvCacheManager.withRemote modelId store).session prompt).fetched with
  | none => True
  | some bytes => KvCache.HoldsReusable blockHash c.kvs.registry prompt ∨
    wp (KvBundleCodec.decode (T := T) fromSlice bytes) (fun bundle _ =>
      bundle.header.modelId = modelId →
        wp (KvCache.checkBundle bundle prompt)
          (fun _ _ => LeavesRoom m c prompt bundle.header.tokenCount) (fun _ _ => True) c.kvs)
      (fun _ _ => True) ()

variable {blockHash : BlockHash} {m : CausalLM T H O} {prompt : List UInt32} {c c₁ : Cache T}
  {matched : ℕ}

instance (c : Cache T) (tokenCount : ℕ) : Decidable (LeavesRoom m c prompt tokenCount) :=
  inferInstanceAs (Decidable (_ → _ ∧ _ ∧ _))

omit [Candle T] in
theorem Ready.full_iff (h : Ready blockHash prompt c matched c₁) :
    KvCache.maxReusable blockSize prompt.length * blockSize ≤ matched ↔
      KvCache.HoldsReusable blockHash c.kvs.registry prompt := by
  obtain ⟨d, ids, hm, hreg⟩ := h.found
  rw [hm.full_iff, hreg]

omit [Candle T] in
/-- A second match of the prompt is as good as the first one. -/
theorem Ready.admits (h : Ready blockHash prompt c matched c₁) (ha : Admits m c₁ prompt matched)
    {c' c₁' : Cache T} {matched' : ℕ} (h' : Ready blockHash prompt c' matched' c₁')
    (hreg : c'.kvs.registry = c.kvs.registry) (hsize : c'.kvs.allocator.size = c.kvs.allocator.size)
    (hmax : c'.maxSeqLen = c.maxSeqLen) : Admits m c₁' prompt matched' := by
  obtain ⟨d, ids, hm, hd⟩ := h.found
  obtain ⟨d', ids', hm', hd'⟩ := h'.found
  obtain rfl : matched = matched' := hm.unique hm' (hd'.trans (hreg.trans hd.symm))
  have hfree := h.free
  have hfree' := h'.free
  have hmiss := ha.free
  rw [h.missing ha.lt] at hmiss
  rw [hreg, hsize] at hfree'
  refine ⟨ha.lt, ?_, ?_, ha.embeds⟩
  · rw [h'.maxSeqLen, hmax, ← h.maxSeqLen]
    exact ha.fits
  · rw [h'.missing ha.lt]
    omega

variable [LawfulCandle T] {dtype : DType} {shaped : ℕ → H → Prop}

/-- **The fallback** resumes as the local prefill did. -/
theorem wp_rematch (hm : Runs m dtype shaped) (h : Ready blockHash prompt c matched c₁)
    (ha : Admits m c₁ prompt matched) {t : Traced T} (hf : Formed m.cfg dtype t.cache)
    (hreg : t.cache.kvs.registry = c.kvs.registry)
    (hsize : t.cache.kvs.allocator.size = c.kvs.allocator.size)
    (hmax : t.cache.maxSeqLen = c.maxSeqLen) :
    wp (onCache (resetAndMatch blockHash prompt)) (Resumes blockHash m prompt)
      (fun _ _ => False) t := by
  refine wp_onCache.mpr ((wp_resetAndMatch hf.owned blockHash prompt).mono (fun matched' c₁' h' => ?_)
    fun _ _ hE => hE)
  have hf' : Formed m.cfg dtype c₁' :=
    hf.of_pool_eq h'.owned h'.pool (by rw [h'.size]) h'.maxSeqLen
  exact (resumes_iff hm hf' h'.len).mpr (h.admits ha h' hreg hsize hmax)

omit [Candle T] [LawfulCandle T] in
/-- What the reservation of a prompt lacks after an import. -/
theorem KvCache.Imported.missing {header : KvBundleMeta} {kvs₀ kvs : KvCache T} {ids : List ℕ}
    (h : Imported blockHash header kvs₀ kvs ids) {len : ℕ} (hlt : header.tokenCount < len) :
    Cache.missing { c with kvs } (len - header.tokenCount) =
      unmatchedBlocks len header.tokenCount := by
  unfold Cache.missing unmatchedBlocks
  rw [h.len, h.blocks, h.length, Nat.add_sub_cancel' (Nat.le_of_lt hlt)]

/-- **An import that passed its checks** resumes iff the bundle leaves room. -/
theorem wp_importChecked_iff (hm : Runs m dtype shaped) {t : Traced T}
    (h : Ready blockHash prompt c matched t.cache) (ha : Admits m t.cache prompt matched)
    (hf : Formed m.cfg dtype t.cache) {bundle : KvBundle T} (hv : bundle.Valid)
    (hacc : t.cache.kvs.Accepts bundle prompt) :
    wp (do KvCache.resetSequence; KvCache.importBlocks blockHash bundle)
      (fun n kvs => Resumes blockHash m prompt n { t with cache := { t.cache with kvs } })
      (fun _ kvs => wp (onCache (resetAndMatch blockHash prompt)) (Resumes blockHash m prompt)
        (fun _ _ => False) { t with cache := { t.cache with kvs } }) t.cache.kvs ↔
      LeavesRoom m c prompt bundle.header.tokenCount := by
  obtain ⟨_, kvs₀, hreset, hr⟩ :=
    (KvCache.wp_resetSequence h.owned (E := fun _ _ => False)).returns
  have hfree : kvs₀.allocator.numFree = freeBlocks c := by
    have hsum := hr.free
    rw [h.registry, h.size] at hsum
    unfold freeBlocks
    omega
  rw [wp_bind, wp_of_ok hreset]
  by_cases hroom : bundle.header.tokenCount / blockSize ≤ freeBlocks c
  · obtain ⟨_, kvs, himport, ⟨rfl, ids, hi⟩, -⟩ :=
      (wp_importChecked_rows hf hr blockHash hv hacc (hfree ▸ hroom)).returns
    have htaken := hi.free
    have hlength := hi.length
    have hf' := hf.of_importBlocks hr himport hi.owned hi.size
    rw [wp_of_ok himport, resumes_iff hm hf' hi.len]
    constructor
    · intro ha' _
      have hneed : _ ≤ kvs.allocator.numFree := ha'.free
      rw [hi.missing ha'.lt, unmatchedBlocks] at hneed
      exact ⟨ha'.lt, by show _ ≤ freeBlocks c; omega, ha'.embeds⟩
    · intro hleaves
      obtain ⟨hlt, hneed, hembeds⟩ := hleaves hroom
      refine ⟨hlt, ha.fits, ?_, hembeds⟩
      rw [hi.missing hlt, unmatchedBlocks]
      show _ ≤ kvs.allocator.numFree
      omega
  · have hnum := hacc.blocks
    have hal := hacc.aligned
    rw [hf.owned.blockSize] at hnum hal
    have hlayers : bundle.header.numLayers = kvs₀.pool.kPools.length := by
      rw [hr.pool]
      exact hacc.numLayers
    rcases (KvCache.wp_importBlocks hr.owned hr.blocks hr.len blockHash hnum hal hlayers).exists with
      ⟨_, kvs, _, _, ids, hi⟩ | ⟨_, kvs, himport, hi⟩
    · have htaken := hi.free
      have hlength := hi.length
      omega
    · -- the import gave back what it took: the local match is made again
      rw [wp_of_error himport]
      have hf' := hf.of_importBlocks hr himport hi.owned hi.size
      refine ⟨fun _ hle => absurd hle hroom, fun _ => wp_rematch hm h ha hf' ?_ ?_ h.maxSeqLen⟩
      · exact (hi.registry.trans hr.registry).trans h.registry
      · exact (hi.size.trans hr.size).trans h.size

/-- The answer of a store can be checked in advance. -/
instance {fromSlice : List UInt8 → Except String KvBundleMeta} {modelId : String}
    {store : RemoteGet} : Decidable (Harmless fromSlice blockHash m modelId store prompt c) :=
  match h : ((KvCacheManager.withRemote modelId store).session prompt).fetched with
  | none => isTrue (by
      unfold Harmless
      rw [h]
      trivial)
  | some bytes => decidable_of_iff (KvCache.HoldsReusable blockHash c.kvs.registry prompt ∨
      wp (KvBundleCodec.decode (T := T) fromSlice bytes) (fun bundle _ =>
        bundle.header.modelId = modelId →
          wp (KvCache.checkBundle bundle prompt)
            (fun _ _ => LeavesRoom m c prompt bundle.header.tokenCount) (fun _ _ => True) c.kvs)
        (fun _ _ => True) ()) (by
      unfold Harmless
      rw [h])

end Harmless

/-! ## 3. Every reachable state -/

section Reachable

variable {T H O : Type} [Candle T] [LawfulCandle T] {m : CausalLM T H O} {dtype : DType}
  {shaped : ℕ → H → Prop}

/-- **When the remote store does no harm.** In every state reached by cache operations, a prefill
    that succeeds without the store succeeds with it, and reuses less than the prompt, if and only
    if the answer of the store is harmless. -/
theorem remote_prefill_iff (hm : Runs m dtype shaped) {blockHash : BlockHash} {c₀ : Cache T}
    (hnew : Cache.new m.cfg dtype = .ok c₀) {ops : List (Op T)} {t : Traced T}
    (hr : (cacheLts T blockHash).Steps c₀ ops t.cache)
    {fromSlice : List UInt8 → Except String KvBundleMeta} {modelId : String}
    {prompt : List UInt32}
    (hlocal : ∃ out t', localPrefill fromSlice blockHash m modelId prompt t = some (.ok out, t'))
    (store : RemoteGet) :
    (∃ out t', remotePrefill fromSlice blockHash m modelId store prompt t = some (.ok out, t') ∧
        out.reusedPrefixTokens < prompt.length) ↔
      Harmless fromSlice blockHash m modelId store prompt t.cache := by
  have h := formed_steps hnew hr
  obtain ⟨matched, c₁, hx, hready⟩ := (wp_resetAndMatch h.owned blockHash prompt
    (E := fun _ _ => False)).returns
  have hf : Formed m.cfg dtype c₁ :=
    h.of_pool_eq hready.owned hready.pool hready.size hready.maxSeqLen
  -- the local prefill resumed after the match
  have hresumes : Resumes blockHash m prompt matched { t with cache := c₁ } := by
    have hwp := wp_true_iff_returns.mpr hlocal
    rw [wp_localPrefill_iff, wp_onCache, wp_of_ok hx] at hwp
    have hlt : matched < prompt.length := by
      by_contra hge
      rw [CausalLM.prefillSuffix, if_pos (Nat.le_of_not_lt hge)] at hwp
      exact hwp
    exact hwp.mono (fun _ _ hreg => hreg.mono (fun _ _ _ => hlt) fun _ _ hE => hE) fun _ _ hE => hE
  have ha := (resumes_iff hm hf hready.len).mp hresumes
  have hagain : ∀ t' : Traced T, t'.cache = c₁ →
      wp (onCache (resetAndMatch blockHash prompt)) (Resumes blockHash m prompt)
        (fun _ _ => False) t' := by
    rintro t' rfl
    exact wp_rematch hm hready ha hf hready.registry hready.size hready.maxSeqLen
  refine (wp_iff_returns (x := remotePrefill fromSlice blockHash m modelId store prompt)
    (Q := fun out _ => out.reusedPrefixTokens < prompt.length)).symm.trans ?_
  rw [wp_remotePrefill_iff, wp_onCache, wp_of_ok hx, KvSession.wp_useRemote_iff,
    reusableTokens_session]
  unfold Harmless
  cases ((KvCacheManager.withRemote modelId store).session prompt).fetched with
  | none => exact ⟨fun _ => trivial, fun _ => hresumes⟩
  | some bytes =>
    dsimp only
    by_cases hfull : KvCache.maxReusable blockSize prompt.length * blockSize ≤ matched
    · rw [if_pos hfull]
      exact ⟨fun _ => Or.inl (hready.full_iff.mp hfull), fun _ => hresumes⟩
    rw [if_neg hfull, or_iff_right fun hall => hfull (hready.full_iff.mpr hall),
      KvSession.wp_tryImport_iff]
    refine wp_congr_run (fun bundle _ hdecode => ?_) fun _ _ _ =>
      ⟨fun _ => trivial, fun _ => hagain _ rfl⟩
    have hv := KvBundleCodec.decode_valid hdecode
    show (if bundle.header.modelId ≠ modelId then _ else _) ↔ _
    by_cases hid : bundle.header.modelId = modelId
    · rw [if_neg (not_not.mpr hid), forall_prop_of_true hid, wp_onCache, Cache.importPrefixBundle,
        Cache.wp_onKvs, KvCache.importPrefixBundle, wp_bind,
        ← KvCache.wp_checkBundle_congr hready.pool
          (hf.owned.blockSize.trans h.owned.blockSize.symm)]
      refine wp_congr_run (fun _ kvs hcheck => ?_) fun _ kvs hcheck => ?_
      · obtain ⟨rfl, hacc⟩ := (KvCache.wlp_checkBundle bundle prompt).of_ok hcheck
        exact wp_importChecked_iff hm (t := { t with cache := c₁ }) hready ha hf hv hacc
      · obtain ⟨rfl, -⟩ := (KvCache.wlp_checkBundle bundle prompt).of_error hcheck
        exact ⟨fun _ => trivial, fun _ => hagain _ rfl⟩
    · rw [if_pos hid]
      exact ⟨fun _ hid' => absurd hid' hid, fun _ => hagain _ rfl⟩

end Reachable

/-! ## 4. An honest bundle -/

/-- The JSON header of a bundle of 32 tokens. -/
def headerJson : List UInt8 :=
  ("\x7b\"model_id\":\"m\",\"token_count\":32,\"token_ids\":[0,1,2,3,4,5,6,7,8,9,10,11,12,13,14,15," ++
    "16,17,18,19,20,21,22,23,24,25,26,27,28,29,30,31],\"block_size\":16,\"num_layers\":1," ++
    "\"num_kv_heads\":1,\"head_dim\":1,\"dtype\":\"F32\"\x7d").toList.map fun c =>
      UInt8.ofNat c.toNat

def headerMeta : KvBundleMeta :=
  { modelId := "m", tokenCount := 32, tokenIds := (List.range 32).map UInt32.ofNat, blockSize := 16,
    numLayers := 1, numKvHeads := 1, headDim := 1, dtype := .f32 }

/-- A decoder that knows this header. -/
def sampleHeader (bytes : List UInt8) : Except String KvBundleMeta :=
  if bytes = headerJson then .ok headerMeta else .error "expected value at line 1 column 1"

/-- The bundle: the K and the V rows that the sample model computes for the tokens 0 to 31. -/
def sampleBundle : List UInt8 :=
  let payload := (List.range 2).flatMap fun b => [0, 1].flatMap fun tag =>
    (List.range 16).flatMap fun j => toLeBytes 4 (16 * b + j + tag)
  KvBundleCodec.magic ++ toLeBytes 2 KvBundleCodec.version ++
    toLeBytes 4 headerJson.length ++ headerJson ++ payload

def sampleStore : RemoteGet := fun _ => .ok (some sampleBundle)

/-- A prompt of 48 tokens, of which 32 are reusable: those of the bundle. -/
def longPrompt : List UInt32 := (List.range 48).map UInt32.ofNat

/-- The sample model fails on nothing. -/
theorem sampleModel_runs {cfg : Config} (hheads : cfg.numKeyValueHeads = 1)
    (hdim : cfg.headDim = 1) : Runs (sampleModel cfg) .f32 fun n x => x.length = n where
  embed h := by
    cases h
    rfl
  keyValue _ hx _ _ := by
    refine ⟨_, _, rfl, ?_, ?_, rfl, rfl⟩ <;>
    · rw [show (sampleModel cfg).cfg = cfg from rfl, hheads, hdim, ← hx]
      rfl
  attend _ hx _ _ _ _ := ⟨_, rfl, hx⟩
  output _ _ := ⟨(), rfl⟩

/-- **A bundle that takes the last free blocks.** A cache of three blocks has served a prompt of 17
    tokens, so the registry holds one block. A prompt of 48 tokens that begins with this block is
    served without the store: it reuses the block and takes the two others. With the store, the
    bundle of its 32 reusable tokens is imported into the two others, and no block is left for the
    rest. -/
theorem remote_prefill_fails : ∃ (history : List (Served Dense)) (c : Cache Dense),
    (requestLts sampleHeader sampleHash (sampleModel threeBlocks) "m" .f32).Run history c ∧
    (∃ out t', localPrefill sampleHeader sampleHash (sampleModel threeBlocks) "m" longPrompt
      { cache := c, events := [] } = some (.ok out, t')) ∧
    ∃ t', remotePrefill sampleHeader sampleHash (sampleModel threeBlocks) "m" sampleStore longPrompt
      { cache := c, events := [] } = some (.error "out of kv blocks", t') := by
  have hrun : wp (ofExcept (Cache.new threeBlocks .f32) : Prog Unit (Cache Dense))
      (fun fresh _ => fresh.kvs.table.len = 0 ∧
        wp (serve sampleHeader sampleHash (sampleModel threeBlocks) "m" ⟨samplePrompt, []⟩) (fun _ s =>
          wp (localPrefill sampleHeader sampleHash (sampleModel threeBlocks) "m" longPrompt)
            (fun _ _ => True) (fun _ _ => False) ⟨s.cache, []⟩ ∧
          wp (remotePrefill sampleHeader sampleHash (sampleModel threeBlocks) "m" sampleStore
            longPrompt) (fun _ _ => False) (fun e _ => e = "out of kv blocks") ⟨s.cache, []⟩)
          (fun _ _ => False) { cache := fresh, passes := [] }) (fun _ _ => False) () := by
    decide +kernel
  obtain ⟨fresh, _, hnew, -, hserve⟩ := hrun.returns
  obtain ⟨_, s, hs, hlocal, hremote⟩ := hserve.returns
  obtain ⟨out, t', hlocal, -⟩ := hlocal.returns
  obtain ⟨e, t'', hremote, rfl⟩ := hremote.fails
  have hr : (requestLts sampleHeader sampleHash (sampleModel threeBlocks) "m" .f32).Run
      [⟨⟨samplePrompt, []⟩, .ok (), s.passes⟩] s.cache :=
    .step (.start (ofExcept_eq_ok.mp hnew).1) hs
  exact ⟨_, s.cache, hr, ⟨out, t', hlocal⟩, t'', hremote⟩

def fourBlocks : Config := { oneBlock with maxSeqLen := 64 }

/-- With one block more the answer is harmless: the bundle is imported, and the rest fits. -/
theorem remote_prefill_imports : ∃ (history : List (Served Dense)) (c : Cache Dense),
    (requestLts sampleHeader sampleHash (sampleModel fourBlocks) "m" .f32).Run history c ∧
    heldBlocks c.kvs.registry = 1 ∧
    ∃ out t', remotePrefill sampleHeader sampleHash (sampleModel fourBlocks) "m" sampleStore
      longPrompt { cache := c, events := [] } = some (.ok out, t') ∧
        out.reusedPrefixTokens < longPrompt.length := by
  have hrun : wp (ofExcept (Cache.new fourBlocks .f32) : Prog Unit (Cache Dense))
      (fun fresh _ => fresh.kvs.table.len = 0 ∧
        wp (serve sampleHeader sampleHash (sampleModel fourBlocks) "m" ⟨samplePrompt, []⟩) (fun _ s =>
          heldBlocks s.cache.kvs.registry = 1 ∧
          wp (localPrefill sampleHeader sampleHash (sampleModel fourBlocks) "m" longPrompt)
            (fun _ _ => True) (fun _ _ => False) ⟨s.cache, []⟩ ∧
          Harmless sampleHeader sampleHash (sampleModel fourBlocks) "m" sampleStore longPrompt s.cache)
          (fun _ _ => False) { cache := fresh, passes := [] }) (fun _ _ => False) () := by
    decide +kernel
  obtain ⟨fresh, _, hnew, -, hserve⟩ := hrun.returns
  obtain ⟨_, s, hs, hheld, hlocal, hharmless⟩ := hserve.returns
  obtain ⟨out, t', hlocal, -⟩ := hlocal.returns
  have hr : (requestLts sampleHeader sampleHash (sampleModel fourBlocks) "m" .f32).Run
      [⟨⟨samplePrompt, []⟩, .ok (), s.passes⟩] s.cache :=
    .step (.start (ofExcept_eq_ok.mp hnew).1) hs
  obtain ⟨c₀, hnew₀, ops, hsteps⟩ := history_reaches hr
  exact ⟨_, s.cache, hr, hheld, (remote_prefill_iff (sampleModel_runs rfl rfl) hnew₀
    (t := { cache := s.cache, events := [] }) hsteps ⟨out, t', hlocal⟩ sampleStore).mpr hharmless⟩

end Flour.Kv
