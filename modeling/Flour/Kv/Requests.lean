/-
  File:      Flour/Kv/Requests.lean
  Subject:   Histories of local-only requests on one cache.

  * `Request` -- a prompt and the tokens decoded after it, one pass each; `serve` runs it and lists
    its passes, each with the sequence it ends with and what its layers read.
  * `requestLts` -- any number of requests, successful or not, on a new cache.
  * `wlp_forward`, `wlp_prefill`, `wlp_serve` -- each of them is a run of cache operations
    (`Reaches`), whatever the model computes and the store answers; a pass that returned has
    extended the live sequence by its tokens.
  * **`history_reaches`** -- so is every history: what holds after every run of cache operations
    holds after every history of requests.
-/
import Flour.Kv.OwnershipRun
import Flour.Kv.Session

namespace Flour.Kv

open Candle Flour.Lib Flour.Lib.Prog

structure Request where
  prompt : List UInt32
  completion : List UInt32

/-- One forward pass: the sequence up to its last token, and what happened during it. -/
structure Pass (T : Type) where
  tokens : List UInt32
  events : List (Event T)

structure Serving (T : Type) where
  cache : Cache T
  passes : List (Pass T)

section Defs

variable {T H O : Type} [Candle T]

/-- A pass over the cache, with its events. -/
def pass {α : Type} (tokens : List UInt32) (x : Prog (Traced T) α) : Prog (Serving T) α := fun s =>
  (x { cache := s.cache, events := [] }).map fun r =>
    (r.1, { cache := r.2.cache, passes := s.passes ++ [{ tokens, events := r.2.events }] })

/-- The prefill of a session without a remote store. -/
def localPrefill (fromSlice : List UInt8 → Except String KvBundleMeta) (blockHash : BlockHash)
    (m : CausalLM T H O) (modelId : String) (prompt : List UInt32) :
    Prog (Traced T) (PrefillOutput O) :=
  Prog.within ((KvCacheManager.localOnly modelId).session prompt)
    (KvSession.prefill fromSlice blockHash m)

/-- The two steps of a local-only prefill before its suffix. -/
def resetAndMatch (blockHash : BlockHash) (prompt : List UInt32) : Prog (Cache T) ℕ := do
  Cache.resetSequence
  Cache.matchPrefix blockHash prompt

/-- The decode steps after the sequence `seq`. -/
def decode (m : CausalLM T H O) : List UInt32 → List UInt32 → Prog (Serving T) Unit
  | _, [] => pure ()
  | seq, token :: rest => do
    let _ ← pass (seq ++ [token]) (m.forward [token] seq.length)
    decode m (seq ++ [token]) rest

def serve (fromSlice : List UInt8 → Except String KvBundleMeta) (blockHash : BlockHash)
    (m : CausalLM T H O) (modelId : String) (r : Request) : Prog (Serving T) Unit := do
  let _ ← pass r.prompt (localPrefill fromSlice blockHash m modelId r.prompt)
  decode m r.prompt r.completion

/-- A request that ended: how, and its passes. -/
structure Served (T : Type) where
  request : Request
  reply : Except String Unit
  passes : List (Pass T)

/-- Histories of local-only requests on a new cache. -/
def requestLts (fromSlice : List UInt8 → Except String KvBundleMeta) (blockHash : BlockHash)
    (m : CausalLM T H O) (modelId : String) (dtype : DType) : Lts (Cache T) (Served T) where
  init c := Cache.new m.cfg dtype = .ok c
  step c e c' := serve fromSlice blockHash m modelId e.request { cache := c, passes := [] } =
    some (e.reply, { cache := c', passes := e.passes })

end Defs

/-! ## 1. Requests are runs of cache operations -/

section Reach

variable {T : Type} [Candle T] {blockHash : BlockHash} {c c' c'' : Cache T}

/-- `c'` is reached from `c` by cache operations. -/
def Reaches (blockHash : BlockHash) (c c' : Cache T) : Prop :=
  ∃ ops, (cacheLts T blockHash).Steps c ops c'

theorem Reaches.refl : Reaches blockHash c c := ⟨[], .refl⟩

theorem Reaches.trans (h : Reaches blockHash c c') (h' : Reaches blockHash c' c'') :
    Reaches blockHash c c'' := by
  obtain ⟨ops, h⟩ := h
  obtain ⟨ops', h'⟩ := h'
  exact ⟨_, h.trans h'⟩

/-- What no operation changes. -/
theorem Reaches.kept (h : Reaches blockHash c c') (hc : c.kvs.Owned) : Kept c c' := by
  obtain ⟨ops, h⟩ := h
  exact h.invariant (I := fun _ c' => Kept c c') (.refl hc)
    fun _ _ _ _ _ h hs => h.trans (kept_step h.owned hs).1

/-- A step of a request that is an operation of the cache. -/
theorem wlp_reaches (blockHash : BlockHash) {α : Type} {x : Prog (Cache T) α} (op : Op T)
    {Q : α → Cache T → Prop} {E : String → Cache T → Prop} (hop : op.allowed c)
    (hrun : ∀ r c', x c = some (r, c') → ∃ r', op.run blockHash c = some (r', c'))
    (h : wlp x Q E c) : wlp x (fun a c' => Q a c' ∧ Reaches blockHash c c')
      (fun e c' => E e c' ∧ Reaches blockHash c c') c := by
  have hreach : ∀ r c', x c = some (r, c') → Reaches blockHash c c' := by
    intro r c' hx
    obtain ⟨r', hr⟩ := hrun r c' hx
    exact ⟨[op], .step .refl ⟨hop, r', hr⟩⟩
  refine h.imp_right fun h => ?_
  rcases h.exists with ⟨a, c', hx, hQ⟩ | ⟨e, c', hx, hE⟩
  · exact (wp_of_ok hx).mpr ⟨hQ, hreach _ _ hx⟩
  · exact (wp_of_error hx).mpr ⟨hE, hreach _ _ hx⟩

end Reach

section Keep

variable {T H O : Type}

/-- The table covers the full blocks of a live sequence. -/
theorem covers {c : KvCache T} (h : c.Owned) {n : ℕ} (hn : n ≤ c.table.len) :
    n / blockSize ≤ c.table.blocks.length := by
  have hle := h.len_le
  unfold BlockTable.capacity at hle
  rw [h.blockSize] at hle
  exact Nat.div_le_of_le_mul (by rw [Nat.mul_comm]; omega)

/-- A pass starts with no events and adds its own. -/
theorem wp_pass {α : Type} {tokens : List UInt32} {x : Prog (Traced T) α} {s : Serving T}
    {Q : α → Serving T → Prop} {E : String → Serving T → Prop} :
    wp (pass tokens x) Q E s ↔ wp x
      (fun a t => Q a { cache := t.cache, passes := s.passes ++ [{ tokens, events := t.events }] })
      (fun e t => E e { cache := t.cache, passes := s.passes ++ [{ tokens, events := t.events }] })
      { cache := s.cache, events := [] } := by
  unfold wp pass
  rcases x { cache := s.cache, events := [] } with _ | ⟨_ | a, t⟩ <;> rfl

theorem wlp_pass {α : Type} {tokens : List UInt32} {x : Prog (Traced T) α} {s : Serving T}
    {Q : α → Serving T → Prop} {E : String → Serving T → Prop}
    (h : wlp x
      (fun a t => Q a { cache := t.cache, passes := s.passes ++ [{ tokens, events := t.events }] })
      (fun e t => E e { cache := t.cache, passes := s.passes ++ [{ tokens, events := t.events }] })
      { cache := s.cache, events := [] }) : wlp (pass tokens x) Q E s := by
  refine h.imp (fun h => ?_) wp_pass.mpr
  unfold pass
  rw [h]
  rfl

variable [Candle T] {blockHash : BlockHash}

/-- The cache after a pass over `n` tokens. -/
structure Extended (blockHash : BlockHash) (n : ℕ) (c c' : Cache T) : Prop where
  reaches : Reaches blockHash c c'
  len : c'.kvs.table.len = c.kvs.table.len + n

/-- A write to the last positions leaves the table as it is. -/
theorem wlp_writeKv_reaches {layer : ℕ} {k v : T} {c : Cache T} (hl : layer < c.kvs.pool.numLayers)
    (hn : ∃ n, (dims k)[2]? = some n ∧ n ≤ c.kvs.table.len) :
    wlp (Cache.writeKv layer k v)
      (fun _ c' => Reaches blockHash c c' ∧ c'.kvs.table = c.kvs.table)
      (fun _ c' => Reaches blockHash c c') c :=
  (wlp_reaches blockHash (.writeKv layer k v) ⟨hl, hn⟩ (fun r _ h => ⟨r, h⟩)
    (Cache.wlp_writeKv layer k v)).mono (fun _ _ hw => ⟨hw.2, hw.1.1.table⟩) fun _ _ hw => hw.2

/-- A reservation that returns has extended the live sequence. -/
theorem wlp_allocateKv_extended {c : Cache T} (h : c.kvs.Owned) (n : ℕ) :
    wlp (Cache.allocateKv n) (fun _ c' => Extended blockHash n c c')
      (fun _ c' => Reaches blockHash c c') c := by
  refine (wlp_reaches blockHash (.allocateKv n) trivial (fun r _ h => ⟨r, h⟩)
    (Or.inr (Cache.wp_allocateKv h n))).mono (fun _ _ hr => ?_) fun _ _ hr => hr.2
  obtain ⟨⟨⟨ids, hr⟩, _⟩, h₁⟩ := hr
  exact ⟨h₁, hr.len⟩

/-- **A layer** writes to the pool and reads it. -/
theorem wlp_layerForward (m : CausalLM T H O) (indexPos : ℕ) {layer : ℕ} (x : H) {t : Traced T}
    (hl : layer < t.cache.kvs.pool.numLayers) :
    wlp (m.layerForward indexPos layer x)
      (fun _ t' => Reaches blockHash t.cache t'.cache ∧ t'.cache.kvs.table = t.cache.kvs.table)
      (fun _ t' => Reaches blockHash t.cache t'.cache) t := by
  refine wlp_bind (wlp_ofExcept (fun kv _ => ?_) fun _ _ => .refl)
  obtain ⟨k, v⟩ := kv
  have hwrite := Cache.wlp_writeKv (c := t.cache) layer k v
  by_cases hn : ∃ n, (dims k)[2]? = some n ∧ n ≤ t.cache.kvs.table.len
  swap
  · -- more rows than are live: the subtraction panics
    refine wlp_bind (wlp_onCache (hwrite.mono (fun _ _ hw => absurd hw.2 hn) fun _ _ hw => ?_))
    exact absurd hw.2 hn
  refine wlp_bind (wlp_onCache ((wlp_writeKv_reaches hl hn).mono (fun _ c₁ hw => ?_)
    fun _ _ hw => hw))
  refine wlp_bind (wlp_onCache ((Cache.wlp_kvBlocks layer).mono (fun blocks c₂ he => ?_)
    fun _ c₂ he => ?_))
  · rw [he]
    refine wlp_bind (Or.inr ?_)
    rw [record, wp_modify]
    exact wlp_ofExcept (fun _ _ => hw) fun _ _ => hw.1
  · rw [he]
    exact hw.1

theorem wlp_layersForward (m : CausalLM T H O) (indexPos : ℕ) {layers : List ℕ} (x : H)
    {t : Traced T} (h : t.cache.kvs.Owned) (hl : ∀ l ∈ layers, l < t.cache.kvs.pool.numLayers) :
    wlp (m.layersForward indexPos layers x)
      (fun _ t' => Reaches blockHash t.cache t'.cache ∧ t'.cache.kvs.table = t.cache.kvs.table)
      (fun _ t' => Reaches blockHash t.cache t'.cache) t := by
  induction layers generalizing x t with
  | nil => exact Or.inr ⟨.refl, rfl⟩
  | cons layer rest ih =>
    obtain ⟨hlayer, hrest⟩ := List.forall_mem_cons.mp hl
    refine wlp_bind ((wlp_layerForward m indexPos x hlayer).mono (fun x' t₁ h₁ => ?_)
      fun _ _ hk => hk)
    have hkept := h₁.1.kept h
    have hrest' : ∀ l ∈ rest, l < t₁.cache.kvs.pool.numLayers := fun l hmem =>
      (hrest l hmem).trans_eq hkept.layout.kLen.symm
    exact (ih x' hkept.owned hrest').mono
      (fun _ _ h₂ => ⟨h₁.1.trans h₂.1, h₂.2.trans h₁.2⟩) fun _ _ h₂ => h₁.1.trans h₂

/-- The cache was made for the model. -/
structure Fit (m : CausalLM T H O) (c : Cache T) : Prop where
  owned : c.kvs.Owned
  numLayers : c.kvs.pool.numLayers = m.cfg.numHiddenLayers

theorem Fit.reached {m : CausalLM T H O} {c c' : Cache T} (h : Fit m c)
    (hr : Reaches blockHash c c') : Fit m c' :=
  ⟨(hr.kept h.owned).owned, (hr.kept h.owned).layout.kLen.trans h.numLayers⟩

/-- **A forward pass** that returns has extended the live sequence by its tokens. -/
theorem wlp_forward {m : CausalLM T H O} (tokenIds : List UInt32) (indexPos : ℕ) {t : Traced T}
    (h : Fit m t.cache) :
    wlp (m.forward tokenIds indexPos)
      (fun _ t' => Extended blockHash tokenIds.length t.cache t'.cache)
      (fun _ t' => Reaches blockHash t.cache t'.cache) t := by
  refine wlp_bind (Or.inr ?_)
  rw [wp_get]
  refine wlp_bind (Or.inr ?_)
  rw [record, wp_modify]
  refine wlp_bind (wlp_ofExcept (fun x _ => ?_) fun _ _ => .refl)
  refine wlp_bind (wlp_onCache ((wlp_allocateKv_extended h.owned tokenIds.length).mono
    (fun _ c₁ h₁ => ?_) fun _ _ hr => hr))
  have hfit := h.reached h₁.reaches
  refine wlp_bind ((wlp_layersForward m indexPos x hfit.owned fun l hl => ?_).mono
    (fun x' t₂ h₂ => ?_) fun _ _ h₂ => h₁.reaches.trans h₂)
  · rw [hfit.numLayers]
    exact List.mem_range.mp hl
  · have hlen : t₂.cache.kvs.table.len = t.cache.kvs.table.len + tokenIds.length := by
      rw [h₂.2]
      exact h₁.len
    exact wlp_ofExcept (fun _ _ => ⟨h₁.reaches.trans h₂.1, hlen⟩) fun _ _ => h₁.reaches.trans h₂.1

/-- **The steps of a prefill**, over any forward pass. -/
theorem wp_prefillWith_iff (fromSlice : List UInt8 → Except String KvBundleMeta)
    (blockHash : BlockHash) (forward : Forward T O) (s : KvSession)
    {Q : PrefillOutput O → Traced T → Prop} {E : String → Traced T → Prop} {t : Traced T} :
    wp (within s (prefillWith fromSlice blockHash forward)) Q E t ↔
      wp (onCache (resetAndMatch blockHash s.promptTokens)) (fun matched t₁ =>
        wp (KvSession.useRemote fromSlice blockHash s.promptTokens matched) (fun reused st =>
          wp (prefillSuffixWith forward s.promptTokens reused) (fun logits =>
            wp (onCache (Cache.registerPrefix blockHash s.promptTokens))
              (fun _ => Q { logits, reusedPrefixTokens := reused }) E) E st.2)
          (fun e st => E e st.2) (s, t₁)) E t := by
  unfold prefillWith resetAndMatch
  rw [wp_within, wp_bind, wp_get]
  dsimp only
  rw [wp_bind, KvSession.onTraced, wp_zoom, wp_onCache, wp_onCache, wp_bind]
  refine wp_congr (fun _ c₁ => ?_) fun _ _ => Iff.rfl
  rw [wp_bind, KvSession.onTraced, wp_zoom, wp_onCache]
  refine wp_congr (fun matched c₂ => ?_) fun _ _ => Iff.rfl
  rw [wp_bind]
  refine wp_congr (fun reused st => ?_) fun _ _ => Iff.rfl
  rw [wp_bind, KvSession.onTraced, wp_zoom]
  refine wp_congr (fun logits t₃ => ?_) fun _ _ => Iff.rfl
  rw [wp_bind, KvSession.onTraced, wp_zoom]
  refine wp_congr (fun _ t₄ => ?_) fun _ _ => Iff.rfl
  rw [wp_bind, KvSession.update, wp_modify]
  rfl

theorem wp_prefill_iff (fromSlice : List UInt8 → Except String KvBundleMeta)
    (blockHash : BlockHash) (m : CausalLM T H O) (s : KvSession)
    {Q : PrefillOutput O → Traced T → Prop} {E : String → Traced T → Prop} {t : Traced T} :
    wp (within s (KvSession.prefill fromSlice blockHash m)) Q E t ↔
      wp (onCache (resetAndMatch blockHash s.promptTokens)) (fun matched t₁ =>
        wp (KvSession.useRemote fromSlice blockHash s.promptTokens matched) (fun reused st =>
          wp (m.prefillSuffix s.promptTokens reused) (fun logits =>
            wp (onCache (Cache.registerPrefix blockHash s.promptTokens))
              (fun _ => Q { logits, reusedPrefixTokens := reused }) E) E st.2)
          (fun e st => E e st.2) (s, t₁)) E t := by
  rw [← prefillWith_forward]
  exact wp_prefillWith_iff fromSlice blockHash m.forward s

/-- Without a store nothing is fetched. -/
theorem wp_localPrefill_iff (fromSlice : List UInt8 → Except String KvBundleMeta)
    (blockHash : BlockHash) (m : CausalLM T H O) (modelId : String) (prompt : List UInt32)
    {Q : PrefillOutput O → Traced T → Prop} {E : String → Traced T → Prop} {t : Traced T} :
    wp (localPrefill fromSlice blockHash m modelId prompt) Q E t ↔
      wp (onCache (resetAndMatch blockHash prompt)) (fun matched =>
        wp (m.prefillSuffix prompt matched) (fun logits =>
          wp (onCache (Cache.registerPrefix blockHash prompt))
            (fun _ => Q { logits, reusedPrefixTokens := matched }) E) E) E t :=
  wp_prefill_iff fromSlice blockHash m _

/-- The first `n` tokens are live, in whole blocks. -/
structure Aligned (c : KvCache T) (n : ℕ) : Prop where
  len : c.table.len = n
  blocks : c.table.blocks.length * blockSize = n

theorem wlp_resetSequence {c : Cache T} (h : c.kvs.Owned) :
    wlp Cache.resetSequence (fun _ c' => Reaches blockHash c c' ∧ Aligned c'.kvs 0)
      (fun _ c' => Reaches blockHash c c') c :=
  (wlp_reaches blockHash .resetSequence trivial (fun r _ h => ⟨r, h⟩)
    (Or.inr (Cache.wp_resetSequence h (E := fun _ _ => False)))).mono
    (fun _ _ hr => ⟨hr.2, hr.1.1.len, by rw [hr.1.1.blocks]; exact Nat.zero_mul _⟩) fun _ _ hr => hr.2

/-- A match of a sequence that was reset leaves what it returns live. -/
theorem wlp_matchPrefix {c : Cache T} (h : c.kvs.Owned) (hreset : Aligned c.kvs 0)
    (prompt : List UInt32) :
    wlp (Cache.matchPrefix blockHash prompt)
      (fun matched c' => Reaches blockHash c c' ∧ Aligned c'.kvs matched)
      (fun _ c' => Reaches blockHash c c') c := by
  refine (wlp_reaches blockHash (.matchPrefix prompt) trivial (fun _ _ h => discard_run h)
    (Or.inr (Cache.wp_matchPrefix h blockHash prompt (E := fun _ _ => False)))).mono
    (fun matched c' hr => ?_) fun _ _ hr => hr.2
  obtain ⟨⟨⟨ids, hm⟩, _⟩, hr⟩ := hr
  refine ⟨hr, by rw [hm.len, hreset.len, Nat.zero_add], ?_⟩
  rw [hm.pushed.blocks, List.length_append, Nat.add_mul, hreset.blocks, Nat.zero_add, hm.tokens]

/-- An import that returns leaves as many tokens live as it says. -/
theorem wlp_importPrefixBundle {c : Cache T} (h : c.kvs.Owned) (bundle : KvBundle T)
    (prompt : List UInt32) :
    wlp (Cache.importPrefixBundle blockHash bundle prompt)
      (fun imported c' => Reaches blockHash c c' ∧ Aligned c'.kvs imported)
      (fun _ c' => Reaches blockHash c c') c := by
  have himport : wlp (KvCache.importPrefixBundle blockHash bundle prompt)
      (fun imported c' => Aligned c' imported) (fun _ _ => True) c.kvs := by
    by_cases hl : c.kvs.pool.numLayers = 0
    · have hno := KvCache.not_accepts_without_layers hl bundle prompt
      exact wlp_bind ((KvCache.wlp_checkBundle bundle prompt).mono (fun _ _ ha => absurd ha.2 hno)
        fun _ _ _ => trivial)
    · refine Or.inr ((KvCache.wp_importPrefixBundle h hl blockHash bundle prompt).mono
        (fun imported c' hi => ?_) fun _ _ _ => trivial)
      obtain ⟨rfl, ha, _, _, _, hi⟩ := hi
      have hal := ha.aligned
      rw [h.blockSize] at hal
      refine ⟨hi.len, ?_⟩
      rw [hi.blocks, hi.length, Nat.div_mul_cancel (Nat.dvd_of_mod_eq_zero hal)]
  exact (wlp_reaches blockHash (.importPrefixBundle bundle prompt) (E := fun _ _ => True) trivial
    (fun _ _ h => discard_run h) (Cache.wlp_onKvs himport)).mono (fun _ _ hr => ⟨hr.2, hr.1⟩)
    fun _ _ hr => hr.2

theorem wlp_registerPrefix {c : Cache T} (h : c.kvs.Owned) {prompt : List UInt32}
    (hcov : prompt.length ≤ c.kvs.table.len) :
    wlp (Cache.registerPrefix blockHash prompt)
      (fun _ c' => Reaches blockHash c c' ∧ c'.kvs.table.len = c.kvs.table.len)
      (fun _ c' => Reaches blockHash c c') c :=
  (wlp_reaches blockHash (.registerPrefix prompt) (covers h hcov) (fun r _ h => ⟨r, h⟩)
    (Or.inr (Cache.wp_registerPrefix h blockHash (covers h hcov) (E := fun _ _ => False)))).mono
    (fun _ _ hr => ⟨hr.2, by rw [hr.1.1.table]⟩) fun _ _ hr => hr.2

end Keep

/-! ## 2. Sessions -/

section Session

variable {T H O : Type} [Candle T] {blockHash : BlockHash}

/-- What the parts of a prefill that find a prefix leave: what they return is live, in whole blocks. -/
abbrev PrefixLive (blockHash : BlockHash) (c : Cache T) (reused : ℕ) (st : KvSession.State T) : Prop :=
  Reaches blockHash c st.2.cache ∧ Aligned st.2.cache.kvs reused

/-- The fallback after a failed import. -/
theorem wlp_fallBack {prompt : List UInt32} (e : String) {st : KvSession.State T}
    (h : st.2.cache.kvs.Owned) :
    wlp (KvSession.fallBack blockHash prompt e) (PrefixLive blockHash st.2.cache)
      (fun _ st' => Reaches blockHash st.2.cache st'.2.cache) st := by
  refine wlp_bind (Or.inr ?_)
  rw [KvSession.update, wp_modify]
  refine wlp_bind (wlp_zoom (wlp_onCache ((wlp_resetSequence h).mono (fun _ c₁ h₁ => ?_)
    fun _ _ hE => hE)))
  have hk := h₁.1.kept h
  refine wlp_bind (wlp_zoom (wlp_onCache ((wlp_matchPrefix hk.owned h₁.2 prompt).mono
    (fun matched c₂ h₂ => ?_) fun _ _ hE => h₁.1.trans hE)))
  exact Or.inr ⟨h₁.1.trans h₂.1, h₂.2⟩

/-- The import of fetched bytes. -/
theorem wlp_tryImport {fromSlice : List UInt8 → Except String KvBundleMeta} (bytes : List UInt8)
    {prompt : List UInt32} {st : KvSession.State T} (h : st.2.cache.kvs.Owned) :
    wlp (KvSession.tryImport fromSlice blockHash bytes prompt) (PrefixLive blockHash st.2.cache)
      (fun _ st' => Reaches blockHash st.2.cache st'.2.cache) st := by
  have hfall : ∀ e (st' : KvSession.State T), Reaches blockHash st.2.cache st'.2.cache →
      wlp (KvSession.fallBack blockHash prompt e) (PrefixLive blockHash st.2.cache)
        (fun _ st' => Reaches blockHash st.2.cache st'.2.cache) st' := fun e st' hr =>
    (wlp_fallBack e (hr.kept h).owned).mono (fun _ _ hf => ⟨hr.trans hf.1, hf.2⟩)
      fun _ _ hE => hr.trans hE
  refine wlp_bind (wlp_catching (wlp_bind (wlp_zoom ((wlp_trivial _).mono (fun bundle _ _ => ?_)
    fun e _ _ => hfall e st .refl))))
  refine wlp_bind (Or.inr ?_)
  rw [wp_get]
  refine wlp_guard (fun _ => hfall _ st .refl) fun _ => ?_
  refine wlp_zoom (wlp_onCache ((wlp_importPrefixBundle h bundle prompt).mono
    (fun imported c' hi => ?_) fun e c' hr => hfall e _ hr))
  refine wlp_bind (Or.inr ?_)
  rw [KvSession.update, wp_modify]
  exact Or.inr hi

/-- **The remote part** of a prefill, whatever the store answers. -/
theorem wlp_useRemote {fromSlice : List UInt8 → Except String KvBundleMeta} {prompt : List UInt32}
    {reused : ℕ} {st : KvSession.State T} (h : st.2.cache.kvs.Owned)
    (hlive : Aligned st.2.cache.kvs reused) :
    wlp (KvSession.useRemote fromSlice blockHash prompt reused) (PrefixLive blockHash st.2.cache)
      (fun _ st' => Reaches blockHash st.2.cache st'.2.cache) st := by
  have hstay : ∀ f : KvSession → KvSession,
      wlp (KvSession.update f >>= fun _ => pure reused) (PrefixLive blockHash st.2.cache)
        (fun _ st' => Reaches blockHash st.2.cache st'.2.cache) st := fun _ =>
    Or.inr ⟨.refl, hlive⟩
  obtain ⟨s, t⟩ := st
  refine wlp_bind (Or.inr ?_)
  rw [wp_get]
  dsimp only
  rcases s.remoteStore with _ | store
  · exact Or.inr ⟨.refl, hlive⟩
  rcases s.remoteKey with _ | key
  · exact Or.inr ⟨.refl, hlive⟩
  dsimp only
  rcases store key with e | _ | bytes
  · exact hstay _
  · exact hstay _
  dsimp only
  split
  · exact hstay _
  · exact wlp_tryImport bytes h

variable {m : CausalLM T H O}

/-- **A prefill** that returns leaves the prompt live; it is a run of cache operations. -/
theorem wlp_prefill (fromSlice : List UInt8 → Except String KvBundleMeta) (s : KvSession)
    {t : Traced T} (h : Fit m t.cache) :
    wlp (within s (KvSession.prefill fromSlice blockHash m))
      (fun _ t' => Reaches blockHash t.cache t'.cache ∧
        t'.cache.kvs.table.len = s.promptTokens.length)
      (fun _ t' => Reaches blockHash t.cache t'.cache) t := by
  refine wlp_within (wlp_bind (Or.inr ?_))
  rw [wp_get]
  refine wlp_bind (wlp_zoom (wlp_onCache ((wlp_resetSequence h.owned).mono (fun _ c₁ h₁ => ?_)
    fun _ _ hE => hE)))
  have hf₁ := h.reached h₁.1
  refine wlp_bind (wlp_zoom (wlp_onCache ((wlp_matchPrefix hf₁.owned h₁.2 s.promptTokens).mono
    (fun matched c₂ h₂ => ?_) fun _ _ hE => h₁.1.trans hE)))
  have hr₂ := h₁.1.trans h₂.1
  refine wlp_bind ((wlp_useRemote (h.reached hr₂).owned h₂.2).mono (fun reused st₃ h₃ => ?_)
    fun _ _ hE => hr₂.trans hE)
  have hr₃ := hr₂.trans h₃.1
  refine wlp_bind (wlp_zoom ?_)
  unfold CausalLM.prefillSuffix
  refine wlp_guard (fun _ => hr₃) fun hlt => ?_
  refine (wlp_forward _ reused (h.reached hr₃)).mono (fun logits t₄ h₄ => ?_)
    fun _ _ hE => hr₃.trans hE
  have hr₄ := hr₃.trans h₄.reaches
  have hlive : t₄.cache.kvs.table.len = s.promptTokens.length := by
    rw [h₄.len, h₃.2.len, List.length_drop]
    omega
  refine wlp_bind (wlp_zoom (wlp_onCache ((wlp_registerPrefix (h.reached hr₄).owned
    (le_of_eq hlive.symm)).mono (fun _ c₅ h₅ => ?_) fun _ _ hE => hr₄.trans hE)))
  exact Or.inr ⟨hr₄.trans h₅.1, h₅.2.trans hlive⟩

/-- **A request** is a run of cache operations, whatever happens. -/
theorem wlp_serve (fromSlice : List UInt8 → Except String KvBundleMeta) (modelId : String)
    (r : Request) {s : Serving T} (h : Fit m s.cache) :
    wlp (serve fromSlice blockHash m modelId r)
      (fun _ s' => Reaches blockHash s.cache s'.cache)
      (fun _ s' => Reaches blockHash s.cache s'.cache) s := by
  have hdecode : ∀ (completion seq : List UInt32) (s : Serving T), Fit m s.cache →
      wlp (decode m seq completion) (fun _ s' => Reaches blockHash s.cache s'.cache)
        (fun _ s' => Reaches blockHash s.cache s'.cache) s := by
    intro completion
    induction completion with
    | nil => exact fun seq s h => Or.inr .refl
    | cons token rest ih =>
      intro seq s h
      refine wlp_bind (wlp_pass ((wlp_forward [token] seq.length h).mono (fun _ t h₁ => ?_)
        fun _ _ h₁ => h₁))
      exact (ih (seq ++ [token]) _ (h.reached h₁.reaches)).mono
        (fun _ _ h₂ => h₁.reaches.trans h₂) fun _ _ h₂ => h₁.reaches.trans h₂
  refine wlp_bind (wlp_pass ((wlp_prefill fromSlice _ h).mono (fun _ t h₁ => ?_) fun _ _ h₁ => h₁))
  exact (hdecode r.completion r.prompt _ (h.reached h₁.1)).mono (fun _ _ h₂ => h₁.1.trans h₂)
    fun _ _ h₂ => h₁.1.trans h₂

theorem fit_new {dtype : DType} {c : Cache T} (h : Cache.new m.cfg dtype = .ok c) : Fit m c :=
  ⟨(sized_new h).owned, numLayers_new h⟩

/-- **Every history of requests is a run of cache operations.** -/
theorem history_reaches {fromSlice : List UInt8 → Except String KvBundleMeta} {modelId : String}
    {dtype : DType} {history : List (Served T)} {c : Cache T}
    (hr : (requestLts fromSlice blockHash m modelId dtype).Run history c) :
    ∃ c₀, Cache.new m.cfg dtype = .ok c₀ ∧ Reaches blockHash c₀ c := by
  refine hr.invariant (I := fun _ c => ∃ c₀, Cache.new m.cfg dtype = .ok c₀ ∧
    Reaches blockHash c₀ c) (fun c h => ⟨c, h, .refl⟩) fun _ s e s' _ h hs => ?_
  obtain ⟨c₀, hnew, h⟩ := h
  have hfit := (fit_new hnew).reached h
  have hstep := (wlp_serve fromSlice modelId e.request (s := { cache := s, passes := [] }) hfit).of_end
    (I := fun s' => Reaches blockHash s s'.cache) hs
  exact ⟨c₀, hnew, h.trans hstep⟩

/-- Every history keeps the number of blocks and of tokens. -/
theorem sized_run {fromSlice : List UInt8 → Except String KvBundleMeta} {modelId : String}
    {dtype : DType} {history : List (Served T)} {c : Cache T}
    (hr : (requestLts fromSlice blockHash m modelId dtype).Run history c) : Sized m.cfg c := by
  obtain ⟨c₀, hnew, h⟩ := history_reaches hr
  have h₀ := sized_new hnew
  have hk := h.kept h₀.owned
  exact ⟨hk.owned, hk.size.trans h₀.size, hk.maxSeqLen.trans h₀.maxSeqLen⟩

end Session

end Flour.Kv
