/-
  File:      Flour/Engine/Window.lean
  Subject:   When a generation gets through the window of `max_seq_len` tokens.

  The decode loop runs a pass over every token that it accepts, the last one included, and a pass
  reserves a slot for its token:

  * `Steady` -- what the tokenizer, the sampler and the model promise: they do not fail on tokens of
    the vocabulary, and a row of the model's logits has a number for each of these.
    `AllIn` -- the blocks that are in use are those of the sequence.
  * `wp_forward_one`, `wp_forward_overflow` -- a pass over one token returns iff its slot exists.
  * `wp_decodeLoop_window` -- so the loop returns iff the prompt and the budget fit, or an end of
    sequence or a stop sequence comes before the budget is used up (`EndsEarly`).
  * **`window_served_iff`** -- and a generation on a cache whose blocks are all available does.
-/
import Flour.Engine.Penalty
import Flour.Engine.Positions
import Flour.Engine.Sampling
import Flour.Engine.Turns
import Flour.Kv.Remote

namespace Flour

open Kv Candle Flour.Lib Flour.Lib.Prog Flour.Lib.StopWords

/-! ## 1. The blocks of a single sequence -/

section Blocks

variable {T H O : Type} [Candle T] {m : CausalLM T H O} {dtype : DType} {shaped : ℕ → H → Prop}
  {blockHash : BlockHash}

/-- Every block that is not free is one of the table. -/
def AllIn (c : KvCache T) : Prop := c.allocator.numFree + c.table.blocks.length = c.allocator.size

omit [Candle T] in
/-- A token below the limit finds a block. -/
theorem AllIn.missing_le {cfg : Config} {c : Cache T} (h : AllIn c.kvs) (hs : Sized cfg c) {n : ℕ}
    (hn : c.kvs.table.len + n ≤ cfg.maxSeqLen) : c.missing n ≤ c.kvs.allocator.numFree := by
  have hsize := hs.size
  unfold AllIn at h
  unfold Cache.missing
  have hmono := divCeil_mono hn blockSize
  omega

omit [Candle T] in
theorem AllIn.grown {c c' : KvCache T} {ids : List ℕ} (h : AllIn c) (hp : KvCache.Pushed c c' ids)
    (htaken : c.allocator.free = ids ++ c'.allocator.free) : AllIn c' := by
  have hfree := congrArg List.length htaken
  have hblocks := congrArg List.length hp.blocks
  have hsize := hp.size
  unfold AllIn BlockAllocator.numFree at *
  rw [List.length_append] at hfree hblocks
  omega

omit [Candle T] in
theorem AllIn.wrote {c c' : KvCache T} (h : AllIn c) (hw : KvCache.Wrote c c') : AllIn c' := by
  unfold AllIn at *
  rwa [hw.allocator, hw.table]

/-- Layers write rows only. -/
theorem wlp_layersForward_allIn (pos : ℕ) (layers : List ℕ) (x : H) {t : Traced T}
    (h : AllIn t.cache.kvs) :
    wlp (m.layersForward pos layers x) (fun _ t' => AllIn t'.cache.kvs) (fun _ _ => True) t := by
  induction layers generalizing x t with
  | nil => exact Or.inr h
  | cons layer rest ih =>
    refine wlp_bind (wlp_bind (wlp_ofExcept (fun kv _ => ?_) fun _ _ => trivial))
    obtain ⟨k, v⟩ := kv
    refine wlp_bind (wlp_onCache ((Cache.wlp_writeKv layer k v).mono (fun _ c₁ hw => ?_)
      fun _ _ _ => trivial))
    refine wlp_bind (wlp_onCache ((Cache.wlp_kvBlocks layer).mono (fun blocks c₂ he => ?_)
      fun _ _ _ => trivial))
    obtain rfl := he
    refine wlp_bind (Or.inr ?_)
    rw [record, wp_modify]
    exact wlp_ofExcept (fun x' _ => ih x' (h.wrote hw.1)) fun _ _ => trivial

/-- **A pass over one token**, below the limit. -/
theorem wp_forward_one [LawfulCandle T] (hm : Runs m dtype shaped) {token : UInt32}
    (hembed : ∃ x, m.embed [token] = .ok x) {t : Traced T} (hf : Formed m.cfg dtype t.cache)
    (hall : AllIn t.cache.kvs) {pos : ℕ} (hlen : t.cache.kvs.table.len = pos)
    (hfit : pos + 1 ≤ m.cfg.maxSeqLen) :
    wp (m.forward [token] pos) (fun logits t' => (Formed m.cfg dtype t'.cache ∧
      AllIn t'.cache.kvs ∧ t'.cache.kvs.table.len = pos + 1) ∧ Outputs m shaped logits)
      (fun _ _ => False) t := by
  have hout : wlp (m.forward [token] pos) (fun logits _ => Outputs m shaped logits) (fun _ _ => True) t :=
    wlp_forward_outputs hm (by exact Nat.one_pos) hf hlen
  refine wp.mono (wp.and_wlp ?_ hout) (fun _ _ h => h) fun _ _ hE => hE.1
  obtain ⟨x, hx⟩ := hembed
  rw [CausalLM.forward, wp_bind, wp_get, wp_bind, record, wp_modify, wp_bind, wp_ofExcept, hx]
  dsimp only
  rw [wp_bind, wp_onCache, List.length_singleton]
  have hmissing := hall.missing_le hf.toSized (by rw [hlen]; exact hfit)
  have hmaxSeqLen := hf.maxSeqLen
  rcases (Cache.wp_allocateKv hf.owned 1).exists with
    ⟨_, c₁, halloc, ⟨ids, hr⟩, -, -⟩ | ⟨_, _, _, _, _, _, hno⟩
  swap
  · rw [hlen] at hno
    omega
  refine (wp_of_ok halloc).mpr ?_
  have h₁ : Formed m.cfg dtype c₁ := hf.of_pool_eq hr.owned hr.pushed.pool hr.pushed.size hr.maxSeqLen
  have hall₁ : AllIn c₁.kvs := hall.grown hr.pushed hr.taken
  have hlen₁ : c₁.kvs.table.len = pos + 1 := by rw [hr.len, hlen]
  rw [wp_bind, List.range_eq_range']
  refine ((wp_layersForward_runs hm (Nat.zero_add _) Nat.one_pos (hm.embed hx) h₁ hlen₁ hfit).and_wlp
    (wlp_layersForward_allIn pos _ x hall₁)).mono (fun x' t₂ h₂ => ?_) fun _ _ hE => hE.1
  obtain ⟨⟨hx', hf₂, htable⟩, hall₂⟩ := h₂
  obtain ⟨o, ho⟩ := hm.output hx' Nat.one_pos
  rw [wp_ofExcept, ho]
  exact ⟨hf₂, hall₂, by rw [htable, hlen₁]⟩

omit [Candle T] in
/-- The reservation of a token at the limit. -/
theorem wp_allocateKv_overflow {c : Cache T} (h : c.kvs.Owned) {n : ℕ}
    (hfull : c.maxSeqLen < c.kvs.table.len + n) :
    wp (Cache.allocateKv n) (fun _ _ => False) (fun _ _ => True) c :=
  (Cache.wp_allocateKv h n).mono (fun _ _ hr => absurd hr.2.1 (Nat.not_le_of_lt hfull))
    fun _ _ _ => trivial

/-- **A pass over one token**, at the limit. -/
theorem wp_forward_overflow {token : UInt32} (hembed : ∃ x, m.embed [token] = .ok x) {t : Traced T}
    (h : t.cache.kvs.Owned) (hfull : t.cache.maxSeqLen < t.cache.kvs.table.len + 1) (pos : ℕ) :
    wp (m.forward [token] pos) (fun _ _ => False) (fun _ _ => True) t := by
  obtain ⟨x, hx⟩ := hembed
  rw [CausalLM.forward, wp_bind, wp_get, wp_bind, record, wp_modify, wp_bind, wp_ofExcept, hx]
  dsimp only
  rw [wp_bind, wp_onCache]
  exact (wp_allocateKv_overflow h hfull).mono (fun _ _ hf => hf.elim) fun _ _ _ => trivial

end Blocks

/-! ## 2. The prefill -/

section Prefill

variable {T H O : Type} [Candle T] {m : CausalLM T H O} {blockHash : BlockHash} {c : Cache T}
  {prompt : List UInt32}

/-- The registry holds nothing: all blocks are available to a request, once it is reset. -/
def Available (c : KvCache T) : Prop := c.Owned ∧ heldBlocks c.registry = 0

omit [Candle T] in
theorem Available.reset {c c₀ : KvCache T} (h : Available c) (hr : KvCache.Reset c c₀) : AllIn c₀ := by
  have hfree := hr.free
  have hsize := hr.size
  unfold AllIn
  rw [hr.blocks, List.length_nil, hsize]
  rw [h.2] at hfree
  exact hfree

omit [Candle T] in
theorem Available.ready {matched : ℕ} {c₁ : Cache T} (h : Available c.kvs)
    (hr : Ready blockHash prompt c matched c₁) : AllIn c₁.kvs := by
  have hfree := hr.free
  have hsize := hr.size
  have howned := hr.owned.tracks.numFree_add_owned
  have hcard : c₁.kvs.owners.toFinset.card = 0 := by
    rw [h.2] at hfree
    omega
  have hblocks : c₁.kvs.table.blocks = [] := by
    refine List.eq_nil_iff_forall_not_mem.mpr fun id hid => ?_
    have hmem : id ∈ c₁.kvs.owners.toFinset :=
      Multiset.mem_toFinset.mpr (Multiset.mem_add.mpr (Or.inl (Multiset.mem_coe.mpr hid)))
    rw [Finset.card_eq_zero.mp hcard] at hmem
    exact absurd hmem (Finset.notMem_empty id)
  unfold AllIn
  rw [hblocks, List.length_nil]
  omega

/-- An import takes what it puts into the table, or changes nothing that is held. -/
theorem wlp_import_allIn (h : Available c.kvs) (bundle : KvBundle T) :
    wlp (Cache.importPrefixBundle blockHash bundle prompt) (fun _ c' => AllIn c'.kvs)
      (fun _ c' => Available c'.kvs) c := by
  refine Cache.wlp_onKvs ?_
  by_cases hl : c.kvs.pool.numLayers = 0
  · have hno := KvCache.not_accepts_without_layers hl bundle prompt
    exact wlp_bind ((KvCache.wlp_checkBundle bundle prompt).mono (fun _ _ ha => absurd ha.2 hno)
      fun _ _ he => by rw [he.1]; exact h)
  · refine Or.inr ((KvCache.wp_importPrefixBundle h.1 hl blockHash bundle prompt).mono
      (fun _ c' hi => ?_) fun _ c' hi => ?_)
    · obtain ⟨-, -, c₀, ids, hr, hi⟩ := hi
      have hall := h.reset hr
      have hfree := hi.free
      have hsize := hi.size
      unfold AllIn at hall
      rw [hr.blocks, List.length_nil] at hall
      show c'.allocator.numFree + c'.table.blocks.length = c'.allocator.size
      rw [hi.blocks]
      omega
    · rcases hi with ⟨rfl, -⟩ | ⟨-, c₀, hr, hi⟩
      · exact h
      · exact ⟨hi.owned, by rw [hi.registry, hr.registry]; exact h.2⟩

omit [Candle T] in
theorem wlp_fallBack_allIn {err : String} {st : KvSession.State T} (h : Available st.2.cache.kvs) :
    wlp (KvSession.fallBack blockHash prompt err) (fun _ st' => AllIn st'.2.cache.kvs)
      (fun _ _ => True) st := by
  obtain ⟨s, t⟩ := st
  have hwp : wp (KvSession.fallBack blockHash prompt err) (fun _ st' => AllIn st'.2.cache.kvs)
      (fun _ _ => False) (s, t) :=
    (KvSession.wp_fallBack_iff (P := fun _ t' => AllIn t'.cache.kvs)).mpr (wp_onCache.mpr
      ((wp_resetAndMatch h.1 blockHash prompt).mono (fun _ _ hr => h.ready hr) fun _ _ hE => hE))
  exact Or.inr (hwp.mono (fun _ _ h => h) fun _ _ hE => hE.elim)

/-- **The remote part** of a prefill, whatever the store answers. -/
theorem wlp_useRemote_allIn {fromSlice : List UInt8 → Except String KvBundleMeta} {reused : ℕ}
    {st : KvSession.State T} (h : Available st.2.cache.kvs) (hall : AllIn st.2.cache.kvs) :
    wlp (KvSession.useRemote fromSlice blockHash prompt reused)
      (fun _ st' => AllIn st'.2.cache.kvs) (fun _ _ => True) st := by
  obtain ⟨s, t⟩ := st
  have hstay : ∀ f : KvSession → KvSession,
      wlp (KvSession.update f >>= fun _ => pure reused) (fun _ st' => AllIn st'.2.cache.kvs)
        (fun _ _ => True) (s, t) := fun _ => Or.inr hall
  refine wlp_bind (Or.inr ?_)
  rw [wp_get]
  dsimp only
  rcases s.remoteStore with _ | store
  · exact Or.inr hall
  rcases s.remoteKey with _ | key
  · exact Or.inr hall
  dsimp only
  rcases store key with _ | _ | bytes
  · exact hstay _
  · exact hstay _
  dsimp only
  split
  · exact hstay _
  refine wlp_bind (wlp_catching (wlp_bind (wlp_zoom ((wlp_trivial _).mono (fun bundle _ _ => ?_)
    fun _ _ _ => wlp_fallBack_allIn h))))
  refine wlp_bind (Or.inr ?_)
  rw [wp_get]
  refine wlp_guard (fun _ => wlp_fallBack_allIn h) fun _ => ?_
  exact wlp_zoom (wlp_onCache ((wlp_import_allIn h bundle).mono (fun _ _ hi => Or.inr hi)
    fun _ _ hi => wlp_fallBack_allIn hi))

/-- A pass that returns has found slots, and takes what it puts into the table. -/
theorem wlp_forward_allIn (ids : List UInt32) (pos : ℕ) {t : Traced T} (h : t.cache.kvs.Owned)
    (hall : AllIn t.cache.kvs) :
    wlp (m.forward ids pos) (fun _ t' => t.cache.kvs.table.len + ids.length ≤ t.cache.maxSeqLen ∧
      AllIn t'.cache.kvs) (fun _ _ => True) t := by
  refine wlp_bind (Or.inr ?_)
  rw [wp_get]
  refine wlp_bind (Or.inr ?_)
  rw [record, wp_modify]
  refine wlp_bind (wlp_ofExcept (fun x _ => ?_) fun _ _ => trivial)
  refine wlp_bind (wlp_onCache (Or.inr ((Cache.wp_allocateKv h ids.length).mono (fun _ c₁ hr => ?_)
    fun _ _ _ => trivial)))
  obtain ⟨⟨_, hr⟩, hmax, -⟩ := hr
  refine wlp_bind ((wlp_layersForward_allIn pos _ x (hall.grown hr.pushed hr.taken)).mono
    (fun x' t₂ hall₂ => ?_) fun _ _ hE => hE)
  exact wlp_ofExcept (fun _ _ => ⟨hmax, hall₂⟩) fun _ _ => trivial

/-- What a prefill that returned has found and leaves. -/
structure Prefilled (prompt : List UInt32) (c : Cache T) (reused : ℕ) (c' : Cache T) : Prop where
  lt : reused < prompt.length
  fits : prompt.length ≤ c.maxSeqLen
  allIn : AllIn c'.kvs

/-- **A prefill** on a cache whose blocks are available. -/
theorem wlp_prefill_window (fromSlice : List UInt8 → Except String KvBundleMeta) (s : KvSession)
    {t : Traced T} (hfit : Fit m t.cache) (h : Available t.cache.kvs) :
    wlp (KvSession.prefill fromSlice blockHash m)
      (fun out st => Prefilled s.promptTokens t.cache out.reusedPrefixTokens st.2.cache)
      (fun _ _ => True) (s, t) := by
  refine wlp_bind (Or.inr ?_)
  rw [wp_get]
  dsimp only
  obtain ⟨matched, c₂, hrun, hready⟩ := (wp_resetAndMatch hfit.owned blockHash s.promptTokens
    (E := fun _ _ => False)).returns
  obtain ⟨_, c₁, hreset, hmatch⟩ := Prog.bind_eq_ok.mp hrun
  refine wlp_bind (wlp_zoom (wlp_onCache (Or.inr ((wp_of_ok hreset).mpr ?_))))
  refine wlp_bind (wlp_zoom (wlp_onCache (Or.inr ((wp_of_ok hmatch).mpr ?_))))
  have hfit₂ : Fit m c₂ := ⟨hready.owned, by rw [hready.pool, hfit.numLayers]⟩
  have havail : Available c₂.kvs := ⟨hready.owned, by rw [hready.registry]; exact h.2⟩
  refine wlp_bind (((wlp_useRemote hready.owned hready.aligned).and
    (wlp_useRemote_allIn havail (h.ready hready))).mono (fun reused st₃ h₃ => ?_)
    fun _ _ _ => trivial)
  obtain ⟨⟨hreach, hlive⟩, hall₃⟩ := h₃
  have hfit₃ := hfit₂.reached hreach
  refine wlp_bind (wlp_zoom ?_)
  unfold CausalLM.prefillSuffix
  refine wlp_guard (fun _ => trivial) fun hlt => ?_
  have hpass : wlp (m.forward (s.promptTokens.drop reused) reused)
      (fun _ t₄ => Extended blockHash (s.promptTokens.drop reused).length st₃.2.cache t₄.cache)
      (fun _ t₄ => Reaches blockHash st₃.2.cache t₄.cache) st₃.2 := wlp_forward _ reused hfit₃
  refine (hpass.and (wlp_forward_allIn _ reused hfit₃.owned hall₃)).mono (fun logits t₄ h₄ => ?_)
    fun _ _ _ => trivial
  obtain ⟨h₄, hmax, hall₄⟩ := h₄
  rw [hlive.len, List.length_drop] at hmax
  have hcov : s.promptTokens.length ≤ t₄.cache.kvs.table.len := by
    rw [h₄.len, hlive.len, List.length_drop]
    omega
  have howned₄ := (hfit₃.reached h₄.reaches).owned
  refine wlp_bind (wlp_zoom (wlp_onCache (Or.inr ((Cache.wp_registerPrefix howned₄ blockHash
    (covers howned₄ hcov)).mono (fun _ c₅ h₅ => ?_) fun _ _ hE => hE))))
  refine Or.inr ⟨Nat.lt_of_not_le hlt, ?_, ?_⟩
  · have hmax₃ := (hreach.kept hready.owned).maxSeqLen
    rw [hmax₃, hready.maxSeqLen] at hmax
    omega
  · have hfree := congrArg List.length h₅.1.free
    unfold AllIn BlockAllocator.numFree at *
    rw [h₅.1.table, h₅.1.size, hfree]
    exact hall₄

variable [LawfulCandle T] {dtype : DType} {shaped : ℕ → H → Prop}
  {fromSlice : List UInt8 → Except String KvBundleMeta}

/-- A prompt that fits finds its blocks. -/
theorem localPrefill_returns (hm : Runs m dtype shaped) (modelId : String)
    (hembed : ∀ n, ∃ x, m.embed (prompt.drop n) = .ok x) (h1 : 1 ≤ prompt.length)
    (hle : prompt.length ≤ m.cfg.maxSeqLen) {t : Traced T} (hf : Formed m.cfg dtype t.cache)
    (h : Available t.cache.kvs) :
    ∃ out t', localPrefill fromSlice blockHash m modelId prompt t = some (.ok out, t') := by
  rw [← wp_true_iff_returns, wp_localPrefill_iff, wp_onCache]
  refine (wp_resetAndMatch h.1 blockHash prompt).mono (fun matched c₁ hready => ?_) fun _ _ hE => hE
  have hf₁ : Formed m.cfg dtype c₁ :=
    hf.of_pool_eq hready.owned hready.pool hready.size hready.maxSeqLen
  have hadmits : Admits m c₁ prompt matched := by
    obtain ⟨x, hx⟩ := hembed matched
    have hfree := hready.free
    have hsize := hf.size
    have hmono := divCeil_mono hle blockSize
    refine ⟨hready.lt h1, ?_, ?_, by rw [hx]; rfl⟩
    · rwa [hf₁.maxSeqLen]
    · rw [hready.missing (hready.lt h1), unmatchedBlocks]
      rw [h.2] at hfree
      exact (Nat.sub_le _ _).trans (by omega)
  exact ((resumes_iff hm hf₁ hready.len).mpr hadmits).mono
    (fun _ _ hreg => hreg.mono (fun _ _ _ => trivial) fun _ _ hE => hE) fun _ _ hE => hE

/-- What the store answers to the prefill of a prompt does no harm. -/
def StoreHarmless (fromSlice : List UInt8 → Except String KvBundleMeta) (blockHash : BlockHash)
    (m : CausalLM T H O) (manager : KvCacheManager) (prompt : List UInt32) (c : Cache T) : Prop :=
  ∀ store, manager.remote = some store → Harmless fromSlice blockHash m manager.modelId store prompt c

/-- **When a prefill returns**, on a cache whose blocks are available. -/
theorem prefill_returns_iff (hm : Runs m dtype shaped) (manager : KvCacheManager)
    (hembed : ∀ n, ∃ x, m.embed (prompt.drop n) = .ok x) (h1 : 1 ≤ prompt.length) {c₀ : Cache T}
    (hnew : Cache.new m.cfg dtype = .ok c₀) {ops : List (Op T)} {t : Traced T}
    (hr : (cacheLts T blockHash).Steps c₀ ops t.cache) (hheld : heldBlocks t.cache.kvs.registry = 0) :
    (∃ out st, KvSession.prefill fromSlice blockHash m (manager.session prompt, t) =
      some (.ok out, st)) ↔
      StoreHarmless fromSlice blockHash m manager prompt t.cache ∧ prompt.length ≤ m.cfg.maxSeqLen := by
  have hf := formed_steps hnew hr
  have h : Available t.cache.kvs := ⟨hf.owned, hheld⟩
  have hprefilled : wlp (KvSession.prefill fromSlice blockHash m)
      (fun out st => Prefilled prompt t.cache out.reusedPrefixTokens st.2.cache) (fun _ _ => True)
      (manager.session prompt, t) := wlp_prefill_window fromSlice _ ((fit_new hnew).reached ⟨ops, hr⟩) h
  have hfits : (∃ out st, KvSession.prefill fromSlice blockHash m (manager.session prompt, t) =
      some (.ok out, st)) → prompt.length ≤ m.cfg.maxSeqLen := fun ⟨out, st, hrun⟩ =>
    hf.maxSeqLen ▸ (hprefilled.of_ok hrun).fits
  rw [← and_iff_left_of_imp hfits]
  refine and_congr_left fun hle => ?_
  have hlocal : ∃ out t', localPrefill fromSlice blockHash m manager.modelId prompt t =
      some (.ok out, t') := localPrefill_returns hm manager.modelId hembed h1 hle hf h
  obtain ⟨modelId, remote⟩ := manager
  cases remote with
  | none =>
    refine ⟨fun _ store hstore => (by cases hstore), fun _ => ?_⟩
    obtain ⟨out, t', hrun⟩ := hlocal
    obtain ⟨⟨_, st⟩, hprefill, hst⟩ := Option.map_eq_some_iff.mp hrun
    cases hst
    exact ⟨out, st, hprefill⟩
  | some store =>
    have hiff := remote_prefill_iff hm hnew hr hlocal store
    constructor
    · rintro ⟨out, st, hrun⟩ store' hstore
      cases hstore
      refine hiff.mp ⟨out, st.2, ?_, (hprefilled.of_ok hrun).lt⟩
      exact Option.map_eq_some_iff.mpr ⟨_, hrun, rfl⟩
    · intro hharmless
      obtain ⟨out, t', hrun, -⟩ := hiff.mpr (hharmless store rfl)
      obtain ⟨⟨_, st⟩, hprefill, hst⟩ := Option.map_eq_some_iff.mp hrun
      cases hst
      exact ⟨out, st, hprefill⟩

omit [LawfulCandle T] in
/-- A session without a store stays so. -/
theorem wlp_prefill_noStore (s : KvSession) (hstore : s.remoteStore = none) (t : Traced T) :
    wlp (KvSession.prefill fromSlice blockHash m) (fun _ st => st.1.remoteStore = none)
      (fun _ _ => True) (s, t) := by
  refine wlp_bind (Or.inr ?_)
  rw [wp_get]
  refine wlp_bind (wlp_zoom ((wlp_trivial _).mono (fun _ _ _ => ?_) fun _ _ _ => trivial))
  refine wlp_bind (wlp_zoom ((wlp_trivial _).mono (fun matched t₂ _ => ?_) fun _ _ _ => trivial))
  refine wlp_bind (Or.inr ?_)
  unfold KvSession.useRemote
  rw [wp_bind, wp_get]
  dsimp only
  rw [hstore]
  refine wlp_bind (wlp_zoom ((wlp_trivial _).mono (fun _ _ _ => ?_) fun _ _ _ => trivial))
  refine wlp_bind (wlp_zoom ((wlp_trivial _).mono (fun _ _ _ => ?_) fun _ _ _ => trivial))
  exact Or.inr hstore

end Prefill

/-! ## 3. The decode loop -/

section Loop

variable {T H O F D R : Type} [Candle T] [HostCandle T] [BEq F] [OfNat F 1]
  {e : Engine T H O F D R} {params : SamplingParams F D} {vocab : ℕ} {known : UInt32 → Prop}
  {dtype : DType} {shaped : ℕ → H → Prop}

/-- An engine that fails on nothing but tokens outside its vocabulary, which it does not sample: the
    model's logits have a row of `vocab` numbers for each position. -/
structure Steady (e : Engine T H O F D R) (params : SamplingParams F D) (shaped : ℕ → H → Prop)
    (vocab : ℕ) (known : UInt32 → Prop) : Prop where
  embed {ids : List UInt32} (h : ∀ id ∈ ids, known id) : ∃ x, e.model.embed ids = .ok x
  decode {id : UInt32} (h : known id) : ∃ piece, e.tokenizer.decode [id] = .ok piece
  row {n : ℕ} {x : H} {logits : O} (hx : shaped n x) (hn : 0 < n)
    (h : e.model.output x = .ok logits) :
    e.sampling.dim1 logits = .ok n ∧
      ∃ row, e.sampling.row logits (n - 1) = .ok row ∧ row.length = vocab
  stays : e.sampling.Stays params vocab known

omit [Candle T] [HostCandle T] in
theorem Steady.nextToken (hs : Steady e params shaped vocab known) {v : Decoding O R}
    (hv : Outputs e.model shaped v.logits) (s : EngineState T) :
    ∃ id r, e.nextToken params v s = some (.ok (id, r), s) ∧ known id := by
  obtain ⟨n, x, hn, hx, hout⟩ := hv
  obtain ⟨hdim, row, hrow, hlen⟩ := hs.row hx hn hout
  exact nextToken_known hs.stays hn hdim hrow hlen s

/-- An end of sequence, or a stop sequence, is among the tokens before the budget is used up. -/
def EndsEarly (params : SamplingParams F D) (n : ℕ) (text : String) (turns : List (UInt32 × String)) :
    Prop :=
  turns.length < n ∨ haltAt params.stopWords text.toList (charsOf (turns.map Prod.snd)) ≠ none

omit [BEq F] [OfNat F 1] in
/-- A turn that does not end the loop. -/
theorem endsEarly_cons {n : ℕ} {text piece : String} {token : UInt32}
    {turns : List (UInt32 × String)} (h : ¬ EndsWith params.stopWords (text ++ piece).toList) :
    EndsEarly params (n + 1) text ((token, piece) :: turns) ↔
      EndsEarly params n (text ++ piece) turns := by
  rw [String.toList_append] at h
  unfold EndsEarly
  rw [List.length_cons, Nat.succ_lt_succ_iff, String.toList_append]
  refine or_congr_right (not_congr ?_)
  show haltAt _ _ (piece.toList :: charsOf (turns.map Prod.snd)) = none ↔ _
  rw [haltAt_cons, if_neg h, Option.map_eq_none_iff]

omit [BEq F] [OfNat F 1] in
/-- A budget that is used up. -/
theorem not_endsEarly_nil (text : String) : ¬ EndsEarly params 0 text [] := by
  rintro (hlt | hhalt)
  · exact Nat.not_lt_zero _ hlt
  · exact hhalt rfl

omit [HostCandle T] in
/-- **The decode loop** does not panic, and returns iff the budget fits or it ends early. -/
theorem wp_decodeLoop_window [LawfulCandle T] (hm : Runs e.model dtype shaped)
    (hs : Steady e params shaped vocab known) {n indexPos : ℕ} {v : Decoding O R}
    {s : EngineState T} (hv : Outputs e.model shaped v.logits)
    (hf : Formed e.model.cfg dtype s.traced.cache) (hall : AllIn s.traced.cache.kvs)
    (hlive : s.live = indexPos) (hle : indexPos ≤ e.model.cfg.maxSeqLen)
    (hn : indexPos + n ≤ e.model.cfg.maxSeqLen + 1) :
    let Fits := indexPos + n ≤ e.model.cfg.maxSeqLen ∨
      EndsEarly params n v.generated (e.turns e.model.forward params n indexPos v s)
    wp (e.decodeLoop e.model.forward params n indexPos v) (fun _ _ => Fits) (fun _ _ => ¬ Fits) s := by
  induction n generalizing indexPos v s with
  | zero => exact Or.inl hle
  | succ n ih =>
    intro Fits
    obtain ⟨id, r, hnext, hknown⟩ := hs.nextToken hv s
    rw [Engine.decodeLoop, wp_bind, wp_of_ok hnext]
    dsimp only
    by_cases heos : e.eosTokenId.isEos id = true
    · rw [if_pos heos]
      refine Or.inr (Or.inl ?_)
      rw [Engine.turns, hnext]
      dsimp only
      rw [if_pos heos]
      exact Nat.succ_pos n
    rw [if_neg heos]
    obtain ⟨piece, hdecode⟩ := hs.decode hknown
    rw [wp_bind, wp_ofExcept, hdecode]
    dsimp only
    have hturns := turns_succ e.model.forward n indexPos hnext heos hdecode
    have hends := params.stopsAt_iff (v.generated ++ piece)
    by_cases hstop : params.stopsAt (v.generated ++ piece) = true
    · rw [if_pos hstop] at hturns ⊢
      refine Or.inr (Or.inr ?_)
      rw [hturns]
      show haltAt _ _ [piece.toList] ≠ none
      rw [haltAt_cons, ← String.toList_append, if_pos (hends.mp hstop)]
      exact Option.some_ne_none 0
    rw [if_neg hstop] at hturns ⊢
    have hno := hends.not.mp hstop
    have hfits : Fits ↔ indexPos + (n + 1) ≤ e.model.cfg.maxSeqLen ∨
      EndsEarly params (n + 1) v.generated (e.turns e.model.forward params (n + 1) indexPos v s) :=
      Iff.rfl
    rw [hturns, endsEarly_cons hno, show indexPos + (n + 1) = indexPos + 1 + n by omega] at hfits
    rw [wp_bind, wp_modify, wp_bind, onTraced, wp_zoom]
    have hembed : ∃ x, e.model.embed [id] = .ok x :=
      hs.embed fun _ h => (List.mem_singleton.mp h) ▸ hknown
    rcases Nat.lt_or_ge indexPos e.model.cfg.maxSeqLen with hlt | hge
    · obtain ⟨logits, t, hpass, ⟨hf₁, hall₁, hlen₁⟩, hout⟩ :=
        (wp_forward_one hm hembed hf hall hlive hlt).returns
      have hrun : onTraced (e.model.forward [id] indexPos)
          { s with delivered := s.delivered ++ [piece] } = some (.ok logits, _) :=
        zoom_eq_some.mpr ⟨t, hpass, rfl⟩
      rw [hrun] at hfits
      rw [wp_of_ok hpass]
      refine wp.mono (ih hout ?_ ?_ ?_ hlt (by omega)) (fun _ _ h => hfits.mpr h)
        fun _ _ h hf => h (hfits.mp hf)
      · exact hf₁
      · exact hall₁
      · exact hlen₁
    · -- the budget ends with this token
      have hfull : s.traced.cache.maxSeqLen < s.traced.cache.kvs.table.len + 1 := by
        rw [hf.maxSeqLen, show s.traced.cache.kvs.table.len = indexPos from hlive]
        omega
      obtain ⟨err, t, hpass, -⟩ := (wp_forward_overflow hembed hf.owned hfull indexPos).fails
      have hrun : onTraced (e.model.forward [id] indexPos)
          { s with delivered := s.delivered ++ [piece] } = some (.error err, _) :=
        zoom_eq_some.mpr ⟨t, hpass, rfl⟩
      rw [hrun] at hfits
      rw [wp_of_error hpass, hfits]
      obtain rfl : n = 0 := by omega
      rintro (hle' | hearly)
      · omega
      · exact not_endsEarly_nil _ hearly

end Loop

/-! ## 4. A generation -/

section Serving

variable {T H O F D R : Type} [Candle T] [HostCandle T] [BEq F] [OfNat F 1]
  {e : Engine T H O F D R} {params : SamplingParams F D} {vocab : ℕ} {known : UInt32 → Prop}
  {dtype : DType} {shaped : ℕ → H → Prop} {fromSlice : List UInt8 → Except String KvBundleMeta}
  {toVec : KvBundleMeta → Except String (List UInt8)} {blockHash : BlockHash}
  {messages : List ChatMessage} {prompt : List UInt32}

/-- `Engine.generateWith` up to the end of its decode loop. -/
def Engine.prefillAndDecode (fromSlice : List UInt8 → Except String KvBundleMeta)
    (blockHash : BlockHash) (e : Engine T H O F D R) (forward : Forward T O)
    (params : SamplingParams F D) (promptTokens : List UInt32) :
    Prog (KvSession × EngineState T) (FinishReason × ℕ) := do
  let prefill ← onSession (prefillWith fromSlice blockHash forward)
  onEngine (e.decodeLoop forward params params.maxTokens promptTokens.length
    { logits := prefill.logits
      allTokens := promptTokens
      generated := ""
      completionTokens := 0
      sampler := e.sampling.new params.seed })

/-- What follows is `finish`, and the report. -/
theorem wp_generate_iff {forward : Forward T O} {P Q : Prop} {s : EngineState T}
    (hprompt : e.tokenizer.encode (e.chatTemplate.render messages) = .ok prompt)
    (hpoisoned : s.poisoned = false) :
    wp (e.generateWith fromSlice toVec blockHash forward messages params) (fun _ _ => P)
        (fun _ _ => Q) s ↔
      wp (e.prefillAndDecode fromSlice blockHash forward params prompt)
        (fun _ st => wp (KvSession.finish toVec) (fun _ _ => P) (fun _ _ => Q) (st.1, st.2.traced))
        (fun _ _ => Q) (e.kvCache.session prompt, s) := by
  unfold Engine.generateWith Engine.prefillAndDecode
  rw [wp_bind, wp_ofExcept, hprompt]
  dsimp only
  rw [wp_bind, wp_get, if_neg (by rw [hpoisoned]; exact Bool.false_ne_true), wp_within, wp_bind, wp_bind]
  refine wp_congr (fun prefill st₁ => ?_) fun _ _ => Iff.rfl
  rw [wp_bind, wp_get, wp_bind]
  refine wp_congr (fun r st₂ => ?_) fun _ _ => Iff.rfl
  rw [wp_bind, onSession, wp_zoom]
  refine wp_congr (fun publish st₃ => ?_) fun _ _ => Iff.rfl
  rw [wp_bind, onEngine, wp_zoom]
  unfold publishBestEffort
  split <;> exact Iff.rfl

/-- What a completion needs besides a window of one token less: that the answer of the store, if
    there is one, does no harm; and that the last token of the budget has a slot too, or that there
    is no such token. -/
def GetsThrough (fromSlice : List UInt8 → Except String KvBundleMeta) (blockHash : BlockHash)
    (e : Engine T H O F D R) (messages : List ChatMessage) (params : SamplingParams F D)
    (prompt : List UInt32) (s : EngineState T) : Prop :=
  StoreHarmless fromSlice blockHash e.model e.kvCache prompt s.traced.cache ∧
    (prompt.length + params.maxTokens ≤ e.model.cfg.maxSeqLen ∨
      EndsEarly params params.maxTokens ""
        (e.turnsOf fromSlice blockHash e.model.forward messages params s))

variable [LawfulCandle T]

omit [HostCandle T] in
/-- **The prefill and the decode loop** return iff the completion gets through. -/
theorem wp_prefillAndDecode_iff (hm : Runs e.model dtype shaped) (hs : Steady e params shaped vocab known)
    {c₀ : Cache T} (hnew : Cache.new e.model.cfg dtype = .ok c₀) {ops : List (Op T)}
    {s : EngineState T} (hr : (cacheLts T blockHash).Steps c₀ ops s.traced.cache)
    (hheld : heldBlocks s.traced.cache.kvs.registry = 0) (hpoisoned : s.poisoned = false)
    (hprompt : e.tokenizer.encode (e.chatTemplate.render messages) = .ok prompt)
    (hknown : ∀ id ∈ prompt, known id) (h1 : 1 ≤ prompt.length)
    (hwindow : prompt.length + params.maxTokens ≤ e.model.cfg.maxSeqLen + 1) :
    wp (e.prefillAndDecode fromSlice blockHash e.model.forward params prompt) (fun _ _ => True)
      (fun _ _ => False) (e.kvCache.session prompt, s) ↔
      GetsThrough fromSlice blockHash e messages params prompt s := by
  have hfit : Fit e.model s.traced.cache := (fit_new hnew).reached ⟨ops, hr⟩
  have havail : Available s.traced.cache.kvs := ⟨hfit.owned, hheld⟩
  have hembed : ∀ n, ∃ x, e.model.embed (prompt.drop n) = .ok x := fun n =>
    hs.embed fun id hid => hknown id (List.mem_of_mem_drop hid)
  have hiff : (∃ out st, prefillWith fromSlice blockHash e.model.forward
      (e.kvCache.session prompt, s.traced) = some (.ok out, st)) ↔ _ :=
    prefill_returns_iff hm e.kvCache hembed h1 hnew hr hheld
  have hpois : ¬ s.poisoned = true := by
    rw [hpoisoned]
    exact Bool.false_ne_true
  unfold Engine.prefillAndDecode
  rw [wp_bind, onSession, wp_zoom]
  by_cases hprefill : ∃ out st, prefillWith fromSlice blockHash e.model.forward
      (e.kvCache.session prompt, s.traced) = some (.ok out, st)
  · obtain ⟨hharmless, hle⟩ := hiff.mp hprefill
    obtain ⟨out, ⟨session, t⟩, hrun⟩ := hprefill
    have hpre : Prefilled prompt s.traced.cache out.reusedPrefixTokens t.cache :=
      (wlp_prefill_window fromSlice (e.kvCache.session prompt) hfit havail).of_ok hrun
    obtain ⟨⟨ops', hsteps⟩, hlen⟩ : Reaches blockHash s.traced.cache t.cache ∧ _ :=
      (wlp_of_within (wlp_prefill fromSlice (e.kvCache.session prompt) hfit)).of_ok hrun
    have hloop := wp_decodeLoop_window hm hs (s := { s with traced := t })
      (v := e.startDecoding params prompt out.logits)
      ((wlp_prefill_outputs hm hnew fromSlice _ ⟨ops, hr⟩).of_ok hrun)
      (formed_steps hnew (hr.trans hsteps)) hpre.allIn hlen hle hwindow
    rw [wp_of_ok hrun, GetsThrough, and_iff_right hharmless, turnsOf_of_prefill hprompt hpois hrun,
      onEngine, wp_zoom]
    refine ⟨fun h => ?_, fun hfits => hloop.mono (fun _ _ _ => trivial) fun _ _ hno => hno hfits⟩
    obtain ⟨_, _, hrun', -⟩ := h.returns
    exact hloop.of_ok hrun'
  · -- without a prefill there are no turns
    have hnil : e.turnsOf fromSlice blockHash e.model.forward messages params s = [] :=
      turnsOf_of_no_prefill hprompt hprefill
    refine ⟨fun h => ?_, fun hthrough => ?_⟩
    · obtain ⟨out, st, hrun, -⟩ := h.returns
      exact absurd ⟨out, st, hrun⟩ hprefill
    · obtain ⟨hharmless, hfits⟩ := hthrough
      refine absurd (hiff.mpr ⟨hharmless, ?_⟩) hprefill
      rw [hnil] at hfits
      rcases hfits with hle | hlt | hhalt
      · omega
      · rw [List.length_nil] at hlt
        omega
      · exact absurd rfl hhalt

omit [HostCandle T] [LawfulCandle T] in
theorem wlp_prefillAndDecode_noStore (session : KvSession)
    (hstore : session.remoteStore = none) (s : EngineState T) :
    wlp (e.prefillAndDecode fromSlice blockHash e.model.forward params prompt)
      (fun _ st => st.1.remoteStore = none) (fun _ _ => True) (session, s) := by
  refine wlp_bind (wlp_zoom ((wlp_prefill_noStore session hstore s.traced).mono (fun _ st h => ?_)
    fun _ _ hE => hE))
  exact wlp_zoom ((wlp_trivial _).mono (fun _ _ _ => h) fun _ _ _ => trivial)

/-- **A completion and the window.** For every engine that fails on nothing but foreign tokens, every
    reachable state of its cache whose blocks are all available, every chat whose prompt and budget
    need at most one token more than the window has, whatever is sampled and whatever stops: the
    prefill and the decode loop return exactly if the completion gets through; so does a generation
    that ends, and without a store it ends. -/
theorem window_served_iff (hm : Runs e.model dtype shaped) (hs : Steady e params shaped vocab known)
    {c₀ : Cache T} (hnew : Cache.new e.model.cfg dtype = .ok c₀) {ops : List (Op T)}
    {s : EngineState T} (hr : (cacheLts T blockHash).Steps c₀ ops s.traced.cache)
    (hheld : heldBlocks s.traced.cache.kvs.registry = 0) (hpoisoned : s.poisoned = false)
    (hprompt : e.tokenizer.encode (e.chatTemplate.render messages) = .ok prompt)
    (hknown : ∀ id ∈ prompt, known id) (h1 : 1 ≤ prompt.length)
    (hwindow : prompt.length + params.maxTokens ≤ e.model.cfg.maxSeqLen + 1) :
    ((∃ r st, e.prefillAndDecode fromSlice blockHash e.model.forward params prompt
        (e.kvCache.session prompt, s) = some (.ok r, st)) ↔
      GetsThrough fromSlice blockHash e messages params prompt s) ∧
    (∀ r s', e.generate fromSlice toVec blockHash messages params s = some (r, s') →
      ((∃ stats, r = .ok stats) ↔ GetsThrough fromSlice blockHash e messages params prompt s)) ∧
    (e.kvCache.remote = none → GetsThrough fromSlice blockHash e messages params prompt s →
      ∃ stats s', e.generate fromSlice toVec blockHash messages params s = some (.ok stats, s')) := by
  have hiff : wp (e.prefillAndDecode fromSlice blockHash e.model.forward params prompt) (fun _ _ => True)
      (fun _ _ => False) (e.kvCache.session prompt, s) ↔ _ :=
    wp_prefillAndDecode_iff hm hs hnew hr hheld hpoisoned hprompt hknown h1 hwindow
  refine ⟨?_, fun r s' hrun => ?_, fun hremote hthrough => ?_⟩
  · rw [← hiff, wp_true_iff_returns]
  · cases r with
    | ok stats =>
      refine ⟨fun _ => hiff.mp ?_, fun _ => ⟨stats, rfl⟩⟩
      have hgen := wp_true_iff_returns.mpr ⟨stats, s', hrun⟩
      exact ((wp_generate_iff hprompt hpoisoned).mp hgen).mono (fun _ _ _ => trivial) fun _ _ hE => hE
    | error err =>
      refine ⟨fun ⟨_, h⟩ => (by cases h), fun hthrough => ?_⟩
      -- it was not `finish` that failed
      have hgen : wp (e.generate fromSlice toVec blockHash messages params) (fun _ _ => False)
        (fun _ _ => True) s := (wp_of_error hrun).mpr trivial
      obtain ⟨_, st, hpass, -⟩ := (hiff.mpr hthrough).returns
      have hfinish := (wp_generate_iff hprompt hpoisoned).mp hgen
      rw [wp_of_ok hpass] at hfinish
      obtain ⟨_, _, hfails, -⟩ := hfinish.fails
      exact ((wlp_finish_returns _).of_error hfails).elim
  · obtain ⟨_, st, hpass, -⟩ := (hiff.mpr hthrough).returns
    have hstore : st.1.remoteStore = none :=
      (wlp_prefillAndDecode_noStore (e.kvCache.session prompt) hremote s).of_ok hpass
    refine wp_true_iff_returns.mp ((wp_generate_iff hprompt hpoisoned).mpr ((wp_of_ok hpass).mpr ?_))
    unfold KvSession.finish
    rw [wp_bind, wp_get]
    dsimp only
    rw [hstore]
    trivial

end Serving

/-- The sample model, with logits that tell the number of their positions. -/
def rowsModel : CausalLM Dense (List UInt32) ℕ where
  cfg := sampleConfig
  embed := (sampleModel sampleConfig).embed
  keyValue := (sampleModel sampleConfig).keyValue
  attend := (sampleModel sampleConfig).attend
  output x := .ok x.length

theorem rowsModel_runs : Runs rowsModel .f32 fun n x => x.length = n :=
  have h : Runs (sampleModel sampleConfig) .f32 fun n x => x.length = n := sampleModel_runs rfl rfl
  ⟨h.embed, h.keyValue, h.attend, fun _ _ => ⟨_, rfl⟩⟩

/-- An engine over it with a vocabulary of 32 tokens and the sampler of `LogitsSampler`; token 7 wins
    everywhere. -/
def budgetEngine : Engine Dense (List UInt32) ℕ ℚ ℚ (Set.Ico (0 : ℚ) 1) where
  model := rowsModel
  tokenizer := sampleEngine.tokenizer
  chatTemplate := .chatMl
  eosTokenId := .single 0
  sampling :=
    { dim1 := .ok
      row := fun _ _ => .ok ((List.range 32).map fun token => if token = 7 then 1 else 0)
      applyRepeatPenalty := applyRepeatPenalty List.dedup
      new := fun _ => LogitsSampler.smallestDraw
      sample := fun rng logits params =>
        some ((LogitsSampler.Idealised.uniform 32).sample rng logits params) }
  kvCache := .localOnly "m"

/-- A greedy request with a budget. -/
def budgetParams (maxTokens : ℕ) : SamplingParams ℚ ℚ where
  temperature := 0
  topP := none
  topK := none
  maxTokens
  repeatPenalty := 11 / 10
  repeatLastN := 64
  seed := 0
  stop := []

theorem budgetEngine_steady (params : SamplingParams ℚ ℚ) :
    Steady budgetEngine params (fun n x => x.length = n) 32 fun id => id.toNat < 32 where
  embed _ := ⟨_, rfl⟩
  decode _ := ⟨"la", rfl⟩
  row hx _ h := by
    cases h
    exact ⟨congrArg _ hx, _, rfl, by simp⟩
  stays := LogitsSampler.Idealised.stays _ _ params (fun _ _ => rfl)
    (length_applyRepeatPenalty List.dedup) (fun _ _ => List.length_replicate) (by decide) (by decide)

theorem samplePrompt_lt {id : UInt32} (h : id ∈ samplePrompt) : id.toNat < 32 := by
  obtain ⟨i, hi, rfl⟩ := List.mem_map.mp h
  rw [List.mem_range] at hi
  rw [UInt32.toNat_ofNat', Nat.mod_eq_of_lt] <;> omega

/-- A prompt of 17 tokens and a budget of 15, in a window of 32. -/
theorem window_served_exact : ∃ (c₀ : Cache Dense) (stats : GenerationStats) (s' : EngineState Dense),
    Cache.new sampleConfig .f32 = .ok c₀ ∧
    budgetEngine.generate noHeader (fun _ => .error "no header") sampleHash [] (budgetParams 15)
      ⟨false, ⟨c₀, []⟩, [], []⟩ = some (.ok stats, s') := by
  have hrun : wp (ofExcept (Cache.new sampleConfig .f32) : Prog Unit (Cache Dense))
      (fun fresh _ => fresh.kvs.table.len = 0 ∧ heldBlocks fresh.kvs.registry = 0)
      (fun _ _ => False) () := by
    decide +kernel
  obtain ⟨c₀, _, hnew, -, hheld⟩ := hrun.returns
  have hnew := (ofExcept_eq_ok.mp hnew).1
  obtain ⟨-, -, hserved⟩ : _ ∧ _ ∧ (_ → GetsThrough noHeader sampleHash budgetEngine []
      (budgetParams 15) samplePrompt ⟨false, ⟨c₀, []⟩, [], []⟩ → ∃ stats s',
        budgetEngine.generate noHeader (fun _ => .error "no header") sampleHash [] (budgetParams 15)
          ⟨false, ⟨c₀, []⟩, [], []⟩ = some (.ok stats, s')) :=
    window_served_iff rowsModel_runs (budgetEngine_steady _) hnew .refl hheld rfl rfl
      (fun _ => samplePrompt_lt) (by decide) (by decide)
  obtain ⟨stats, s', hgen⟩ := hserved rfl ⟨fun store h => (by cases h), Or.inl (by decide)⟩
  exact ⟨c₀, stats, s', hnew, hgen⟩

set_option synthInstance.maxSize 256 in
/-- **A completion that is lost.** A budget of one token more: all 16 pieces are delivered, and then
    the pass over the last token, whose logits nothing would read, finds no slot. -/
theorem window_overflow : ∃ (c₀ : Cache Dense) (s' : EngineState Dense),
    Cache.new sampleConfig .f32 = .ok c₀ ∧ heldBlocks c₀.kvs.registry = 0 ∧
    samplePrompt.length + 16 ≤ sampleConfig.maxSeqLen + 1 ∧
    budgetEngine.generate noHeader (fun _ => .error "no header") sampleHash [] (budgetParams 16)
      ⟨false, ⟨c₀, []⟩, [], []⟩ =
        some (.error "paged kv cache overflow: 33 tokens exceeds max_seq_len 32", s') ∧
    s'.delivered = List.replicate 16 "la" := by
  have hrun : wp (ofExcept (Cache.new sampleConfig .f32) : Prog Unit (Cache Dense))
      (fun fresh _ => fresh.kvs.table.len = 0 ∧ heldBlocks fresh.kvs.registry = 0 ∧
        wp (budgetEngine.generate noHeader (fun _ => .error "no header") sampleHash [] (budgetParams 16))
          (fun _ _ => False) (fun err s' =>
            err = "paged kv cache overflow: 33 tokens exceeds max_seq_len 32" ∧
              s'.delivered = List.replicate 16 "la")
          ⟨false, ⟨fresh, []⟩, [], []⟩) (fun _ _ => False) () := by
    decide +kernel
  obtain ⟨c₀, _, hnew, -, hheld, hgen⟩ := hrun.returns
  obtain ⟨_, s', hgen, rfl, hdel⟩ := hgen.fails
  exact ⟨c₀, s', (ofExcept_eq_ok.mp hnew).1, hheld, by decide, hgen, hdel⟩

end Flour
