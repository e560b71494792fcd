/-
  File:      Flour/Kv/Prefill.lean
  Subject:   When a prefill whose first tokens are live already runs to its end.

  * `Runs` -- what a model that was loaded promises: between two accesses to the cache it fails on
    tokens outside its vocabulary and on wrong shapes, and on nothing else.
  * `wp_layersForward_runs` -- on a formed cache the layers of a pass do not fail.
  * **`resumes_iff`** -- the suffix and its registration return exactly when the prompt is longer
    than what is reused, fits, and finds its missing blocks free (`Admits`).
-/
import Flour.Kv.Admission
import Flour.Kv.Rows

namespace Flour.Kv

open Candle Flour.Lib Flour.Lib.Prog

/-! ## 1. Passes that do not fail -/

section Runs

variable {T H O : Type} [Candle T]

/-- A loaded model: `shaped n x` are hidden states of `n` positions. -/
structure Runs (m : CausalLM T H O) (dtype : DType) (shaped : ℕ → H → Prop) : Prop where
  embed {ids : List UInt32} {x : H} (h : m.embed ids = .ok x) : shaped ids.length x
  keyValue {layer n pos : ℕ} {x : H} (hl : layer < m.cfg.numHiddenLayers) (hx : shaped n x)
    (hn : 0 < n) (hmax : pos + n ≤ m.cfg.maxSeqLen) :
    ∃ k v, m.keyValue layer x pos = .ok (k, v) ∧ OfShape m.cfg dtype n k v
  /-- Attention over blocks of the pool's shape that hold all positions, none of them empty. -/
  attend {layer n pos : ℕ} {x : H} {blocks : List (T × T)} (hl : layer < m.cfg.numHiddenLayers)
    (hx : shaped n x) (hn : 0 < n) (hmax : pos + n ≤ m.cfg.maxSeqLen)
    (hshape : ∀ view ∈ blocks, ∃ j, 0 < j ∧ OfShape m.cfg dtype j view.1 view.2)
    (hrows : (liveRows blocks).length = pos + n) :
    ∃ x', m.attend layer x pos blocks = .ok x' ∧ shaped n x'
  output {n : ℕ} {x : H} (hx : shaped n x) (hn : 0 < n) : ∃ o, m.output x = .ok o

/-- Logits that the model computes, of at least one position. -/
def Outputs (m : CausalLM T H O) (shaped : ℕ → H → Prop) (logits : O) : Prop :=
  ∃ n x, 0 < n ∧ shaped n x ∧ m.output x = .ok logits

variable [LawfulCandle T] {m : CausalLM T H O} {dtype : DType} {shaped : ℕ → H → Prop}

/-- **A layer** on a formed cache. -/
theorem wp_layerForward_runs (hm : Runs m dtype shaped) {layer n pos : ℕ}
    (hl : layer < m.cfg.numHiddenLayers) (hn : 0 < n) {x : H} (hx : shaped n x) {t : Traced T}
    (h : Formed m.cfg dtype t.cache) (hlen : t.cache.kvs.table.len = pos + n)
    (hmax : pos + n ≤ m.cfg.maxSeqLen) :
    wp (m.layerForward pos layer x) (fun x' t' => shaped n x' ∧ Formed m.cfg dtype t'.cache ∧
      t'.cache.kvs.table = t.cache.kvs.table) (fun _ _ => False) t := by
  obtain ⟨k, v, hkv, hs⟩ := hm.keyValue hl hx hn hmax
  unfold CausalLM.layerForward
  rw [wp_bind, wp_ofExcept, hkv]
  show wp (onCache (Cache.writeKv layer k v) >>= _) _ _ t
  rw [wp_bind, wp_onCache]
  refine (wp_writeKv_rows h hl hs (by omega) (by omega)).mono (fun _ c₁ hw => ?_) fun _ _ hE => hE
  rw [wp_bind, wp_onCache]
  refine (wp_kvBlocks_rows hw.formed hl).mono (fun blocks c₂ hb => ?_) fun _ _ hE => hE
  obtain ⟨rfl, hshapes, hb⟩ := hb
  have hrows : (liveRows blocks).length = pos + n := by
    rw [hb, liveKv, List.length_map, List.length_range, hw.wrote.table, hlen]
  obtain ⟨x', hx', hs'⟩ := hm.attend hl hx hn hmax hshapes hrows
  rw [wp_bind, record, wp_modify, wp_ofExcept, hx']
  exact ⟨hs', hw.formed, hw.wrote.table⟩

/-- **The layers of a pass**, from `layer` on. -/
theorem wp_layersForward_runs (hm : Runs m dtype shaped) {layer k n pos : ℕ}
    (hk : layer + k = m.cfg.numHiddenLayers) (hn : 0 < n) {x : H} (hx : shaped n x) {t : Traced T}
    (h : Formed m.cfg dtype t.cache) (hlen : t.cache.kvs.table.len = pos + n)
    (hmax : pos + n ≤ m.cfg.maxSeqLen) :
    wp (m.layersForward pos (List.range' layer k) x) (fun x' t' => shaped n x' ∧
      Formed m.cfg dtype t'.cache ∧ t'.cache.kvs.table = t.cache.kvs.table) (fun _ _ => False) t := by
  induction k generalizing layer x t with
  | zero => exact ⟨hx, h, rfl⟩
  | succ k ih =>
    rw [List.range'_succ, CausalLM.layersForward, wp_bind]
    refine (wp_layerForward_runs hm (by omega) hn hx h hlen hmax).mono (fun x' t₁ h₁ => ?_)
      fun _ _ hE => hE
    obtain ⟨hx', h₁, htable⟩ := h₁
    refine (ih (by omega) hx' h₁ (by rw [htable, hlen])).mono (fun _ _ h₂ => ?_) fun _ _ hE => hE
    exact ⟨h₂.1, h₂.2.1, h₂.2.2.trans htable⟩

/-- What a pass returns on a formed cache. -/
theorem wlp_forward_outputs (hm : Runs m dtype shaped) {ids : List UInt32} (hn : 0 < ids.length)
    {pos : ℕ} {t : Traced T} (h : Formed m.cfg dtype t.cache)
    (hlen : t.cache.kvs.table.len = pos) :
    wlp (m.forward ids pos) (fun logits _ => Outputs m shaped logits) (fun _ _ => True) t := by
  refine wlp_bind (Or.inr ?_)
  rw [wp_get]
  refine wlp_bind (Or.inr ?_)
  rw [record, wp_modify]
  refine wlp_bind (wlp_ofExcept (fun x hx => ?_) fun _ _ => trivial)
  refine wlp_bind (wlp_onCache (Or.inr ((Cache.wp_allocateKv h.owned ids.length).mono
    (fun _ c₁ hr => ?_) fun _ _ _ => trivial)))
  obtain ⟨⟨_, hr⟩, hmax, -⟩ := hr
  have h₁ : Formed m.cfg dtype c₁ := h.of_pool_eq hr.owned hr.pushed.pool hr.pushed.size hr.maxSeqLen
  have hlen₁ : c₁.kvs.table.len = pos + ids.length := by rw [hr.len, hlen]
  rw [hlen, h.maxSeqLen] at hmax
  rw [List.range_eq_range']
  refine wlp_bind (Or.inr ((wp_layersForward_runs hm (Nat.zero_add _) hn (hm.embed hx) h₁ hlen₁
    hmax).mono (fun x' t₂ h₂ => ?_) fun _ _ hE => hE.elim))
  exact wlp_ofExcept (fun logits ho => ⟨ids.length, x', hn, h₂.1, ho⟩) fun _ _ => trivial

/-- What a prefill returns, in a state that cache operations reach. -/
theorem wlp_prefill_outputs (hm : Runs m dtype shaped) {blockHash : BlockHash} {c₀ : Cache T}
    (hnew : Cache.new m.cfg dtype = .ok c₀) (fromSlice : List UInt8 → Except String KvBundleMeta)
    (s : KvSession) {t : Traced T} (hr : Reaches blockHash c₀ t.cache) :
    wlp (KvSession.prefill fromSlice blockHash m) (fun out _ => Outputs m shaped out.logits)
      (fun _ _ => True) (s, t) := by
  have hfit := (fit_new hnew).reached hr
  have hreset : wlp Cache.resetSequence (fun _ c => Reaches blockHash t.cache c ∧ Aligned c.kvs 0)
      (fun _ c => Reaches blockHash t.cache c) t.cache := wlp_resetSequence hfit.owned
  refine wlp_bind (Or.inr ?_)
  rw [wp_get]
  dsimp only
  refine wlp_bind (wlp_zoom (wlp_onCache (hreset.mono (fun _ c₁ h₁ => ?_) fun _ _ _ => trivial)))
  refine wlp_bind (wlp_zoom (wlp_onCache ((wlp_matchPrefix (hfit.reached h₁.1).owned h₁.2
    s.promptTokens).mono (fun matched c₂ h₂ => ?_) fun _ _ _ => trivial)))
  have hr₂ := h₁.1.trans h₂.1
  refine wlp_bind ((wlp_useRemote (hfit.reached hr₂).owned h₂.2).mono (fun reused st₃ h₃ => ?_)
    fun _ _ _ => trivial)
  obtain ⟨h₃, hlive⟩ := h₃
  obtain ⟨ops, hsteps⟩ := hr.trans (hr₂.trans h₃)
  refine wlp_bind (wlp_zoom ?_)
  unfold CausalLM.prefillSuffix
  refine wlp_guard (fun _ => trivial) fun hlt => ?_
  have hn : 0 < (s.promptTokens.drop reused).length := by
    rw [List.length_drop]
    omega
  refine (wlp_forward_outputs hm hn (formed_steps hnew hsteps) hlive.len).mono
    (fun logits t₄ hout => ?_) fun _ _ _ => trivial
  exact wlp_bind ((wlp_trivial _).mono (fun _ _ _ => Or.inr hout) fun _ _ _ => trivial)

end Runs

/-! ## 2. Resuming -/

section Resume

variable {T H O : Type} [Candle T] {m : CausalLM T H O} {dtype : DType} {shaped : ℕ → H → Prop}
  {blockHash : BlockHash} {prompt : List UInt32} {reused : ℕ} {t : Traced T}

/-- What lets a prefill run to its end when `reused` tokens are live. -/
structure Admits (m : CausalLM T H O) (c : Cache T) (prompt : List UInt32) (reused : ℕ) : Prop where
  lt : reused < prompt.length
  fits : prompt.length ≤ c.maxSeqLen
  free : c.missing (prompt.length - reused) ≤ c.kvs.allocator.numFree
  embeds : (m.embed (prompt.drop reused)).isOk

/-- The suffix of a prompt and its registration return, with a token left to compute. -/
def Resumes (blockHash : BlockHash) (m : CausalLM T H O) (prompt : List UInt32) (reused : ℕ)
    (t : Traced T) : Prop :=
  wp (m.prefillSuffix prompt reused) (fun _ =>
    wp (onCache (Cache.registerPrefix blockHash prompt)) (fun _ _ => reused < prompt.length)
      fun _ _ => False) (fun _ _ => False) t

/-- **Resuming** a formed cache in which `reused` tokens are live. -/
theorem resumes_iff [LawfulCandle T] (hm : Runs m dtype shaped) (h : Formed m.cfg dtype t.cache)
    (hlen : t.cache.kvs.table.len = reused) :
    Resumes blockHash m prompt reused t ↔ Admits m t.cache prompt reused := by
  unfold Resumes CausalLM.prefillSuffix
  by_cases hle : prompt.length ≤ reused
  · rw [if_pos hle, wp_fail]
    exact ⟨False.elim, fun ha => absurd ha.lt (Nat.not_lt_of_le hle)⟩
  have hlt : reused < prompt.length := Nat.lt_of_not_le hle
  have hn : (prompt.drop reused).length = prompt.length - reused := List.length_drop
  rw [if_neg hle, CausalLM.forward, wp_bind, wp_get, wp_bind, record, wp_modify, wp_bind, wp_ofExcept]
  cases hx : m.embed (prompt.drop reused) with
  | error e =>
    refine ⟨False.elim, fun ha => ?_⟩
    have hok := ha.embeds
    rw [hx] at hok
    cases hok
  | ok x =>
    dsimp only
    rw [wp_bind, wp_onCache, hn]
    rcases (Cache.wp_allocateKv h.owned (prompt.length - reused)).exists with
      ⟨_, c₁, halloc, ⟨ids, hr⟩, hmax, hfree⟩ | ⟨e, c₁, halloc, _, _, _, hno⟩
    · rw [hlen, Nat.add_sub_cancel' (Nat.le_of_lt hlt)] at hmax
      refine ⟨fun _ => ⟨hlt, hmax, hfree, by rw [hx]; rfl⟩, fun _ => (wp_of_ok halloc).mpr ?_⟩
      have h₁ : Formed m.cfg dtype c₁ :=
        h.of_pool_eq hr.owned hr.pushed.pool hr.pushed.size hr.maxSeqLen
      have hlen₁ : c₁.kvs.table.len = reused + (prompt.length - reused) := by rw [hr.len, hlen]
      have hx := hm.embed hx
      rw [hn] at hx
      rw [wp_bind, List.range_eq_range']
      refine (wp_layersForward_runs hm (Nat.zero_add _) (Nat.sub_pos_of_lt hlt) hx h₁ hlen₁ ?_).mono
        (fun x' t₂ h₂ => ?_) fun _ _ hE => hE
      · rw [Nat.add_sub_cancel' (Nat.le_of_lt hlt), ← h.maxSeqLen]
        exact hmax
      · obtain ⟨hx', h₂, htable⟩ := h₂
        obtain ⟨o, ho⟩ := hm.output hx' (Nat.sub_pos_of_lt hlt)
        have hcov := covers (n := prompt.length) h₂.owned (by
          show prompt.length ≤ t₂.cache.kvs.table.len
          rw [htable, hlen₁]
          omega)
        rw [wp_ofExcept, ho]
        exact wp_onCache.mpr ((Cache.wp_registerPrefix h₂.owned blockHash hcov).mono
          (fun _ _ _ => hlt) fun _ _ hE => hE)
    · refine ⟨fun hf => ((wp_of_error halloc).mp hf).elim, fun ha => ?_⟩
      have hfits := ha.fits
      have hfree := ha.free
      rw [hlen] at hno
      omega

end Resume

end Flour.Kv
