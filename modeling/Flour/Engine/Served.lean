/-
  File:      Flour/Engine/Served.lean
  Subject:   A chat that fits is served: the generation returns, with what generation without a cache
             delivers.

  * `Speaks` -- what the tokenizer, the sampler and the embedding promise of a vocabulary;
  * `wp_prefill_served`, `wp_decodeLoop_served` -- on a cache whose blocks are available, nothing fails
    as long as the prompt and the budget fit;
  * **`wp_generate_served`** -- so without a store a generation returns, with the ideal answer.
-/
import Flour.Engine.Ideal
import Flour.Engine.Window

namespace Flour

open Kv Candle Flour.Lib Flour.Lib.Prog

section Served

variable {T H O F D R : Type} [Candle T] [LawfulCandle T] [BEq F] [OfNat F 1]
  {e : Engine T H O F D R} {params : SamplingParams F D} {vocab : ℕ} {known : UInt32 → Prop}
  {dtype : DType}
  {rowOf : RowOf} {hidden : ℕ → List UInt32 → List UInt32 → H → Prop}
  {logits : List UInt32 → List UInt32 → O → Prop} {ref : List UInt32 → List F}
  {blockHash : BlockHash} {prompts : List UInt32 → Prop} {before ids prompt : List UInt32}
  {fromSlice : List UInt8 → Except String KvBundleMeta}

/-! ## 1. Passes and prefills -/

/-- An engine with a vocabulary of `vocab` tokens, all of which it embeds and decodes, and of which it
    samples. -/
structure Speaks (e : Engine T H O F D R) (params : SamplingParams F D) (vocab : ℕ)
    (known : UInt32 → Prop) : Prop where
  embed {ids : List UInt32} (h : ∀ id ∈ ids, known id) : ∃ x, e.model.embed ids = .ok x
  decode {id : UInt32} (h : known id) : ∃ piece, e.tokenizer.decode [id] = .ok piece
  stays : e.sampling.Stays params vocab known

omit [BEq F] [OfNat F 1] in
/-- **A pass** over tokens of the vocabulary that fit, while all blocks are in the table or free. -/
theorem wp_forward_served (hm : Evaluates e.model dtype rowOf hidden logits)
    (hs : Speaks e params vocab known) (hknown : ∀ id ∈ ids, known id) (hn : 0 < ids.length)
    {t : Traced T} (h : Live e.model.cfg dtype blockHash prompts rowOf before t.cache)
    (hall : AllIn t.cache.kvs) (hfit : before.length + ids.length ≤ e.model.cfg.maxSeqLen)
    (hsafe : e.model.writes ids before.length t.cache →
      RunsSafe 0 (nextSlots t.cache ids.length)) :
    wp (e.model.forward ids before.length)
      (fun o t' => (Live e.model.cfg dtype blockHash prompts rowOf (before ++ ids) t'.cache ∧
        logits before ids o) ∧ AllIn t'.cache.kvs) (fun _ _ => False) t := by
  obtain ⟨x, hx⟩ := hs.embed hknown
  have hlen : t.cache.kvs.table.len + ids.length ≤ e.model.cfg.maxSeqLen := by rwa [h.len]
  have hpass : Passable e.model t.cache ids :=
    ⟨by rw [hx]; rfl, by rwa [h.formed.maxSeqLen], hall.missing_le h.formed.toSized hlen⟩
  refine ((wp_forward_logits hm hn h hsafe).and_wlp
    (wlp_forward_allIn ids before.length h.formed.owned hall)).mono (fun o t' ht => ⟨ht.1, ht.2.2⟩)
    fun _ _ hE => hE.1.2 hpass

omit [BEq F] [OfNat F 1] in
/-- **A prefill** without a store, on a cache whose blocks are available. -/
theorem wp_prefill_served (hm : Evaluates e.model dtype rowOf hidden logits)
    (hs : Speaks e params vocab known) (hc : NoCollision blockHash blockSize prompts)
    (hns : NoSeed blockHash blockSize prompts) {session : KvSession}
    (hp : prompts session.promptTokens) (hknown : ∀ id ∈ session.promptTokens, known id)
    (hn : 0 < session.promptTokens.length)
    (hfit : session.promptTokens.length ≤ e.model.cfg.maxSeqLen) (hstore : session.fetched = none)
    {t : Traced T} (h : Clean e.model.cfg dtype blockHash prompts rowOf t.cache)
    (hheld : heldBlocks t.cache.kvs.registry = 0)
    (hstep : InStep (suffixBlocks fromSlice blockHash e.model session t)) :
    wp (Prog.within session (KvSession.prefill fromSlice blockHash e.model))
      (fun out t' => (Live e.model.cfg dtype blockHash prompts rowOf session.promptTokens t'.cache ∧
        ∃ before ids, before ++ ids = session.promptTokens ∧ 0 < ids.length ∧
          logits before ids out.logits) ∧ AllIn t'.cache.kvs) (fun _ _ => False) t := by
  have havail : Available t.cache.kvs := ⟨h.formed.owned, hheld⟩
  have hreuse : wp (reuse fromSlice blockHash session)
      (fun reused t₁ => Reuses e.model.cfg dtype blockHash prompts rowOf session.promptTokens reused
          t₁.cache ∧ reused < session.promptTokens.length ∧ AllIn t₁.cache.kvs)
      (fun _ _ => False) t := by
    rw [reuse, wp_within, wp_bind, KvSession.onTraced, wp_zoom, wp_onCache]
    refine ((wp_resetAndMatch_reuses h hc hns hp).and (wp_resetAndMatch h.formed.owned blockHash
      session.promptTokens (E := fun _ _ => False))).mono (fun matched c₁ hm₁ => ?_) fun _ _ hE => hE.1
    refine (KvSession.wp_useRemote_iff (P := fun reused (t' : Traced T) =>
      Reuses e.model.cfg dtype blockHash prompts rowOf session.promptTokens reused t'.cache ∧
        reused < session.promptTokens.length ∧ AllIn t'.cache.kvs)).mpr ?_
    rw [hstore]
    exact ⟨hm₁.1, hm₁.2.lt hn, havail.ready hm₁.2⟩
  obtain ⟨reused, t₁, hrun, h₁, hlt, hall⟩ := hreuse.returns
  unfold suffixBlocks at hstep
  rw [hrun] at hstep
  refine (wp_prefill_reuse session).mpr ((wp_of_ok hrun).mpr ?_)
  unfold CausalLM.prefillSuffix
  refine wp_guard (fun hle => absurd hlt (Nat.not_lt.mpr hle)) fun _ => ?_
  have hbefore : (session.promptTokens.take reused).length = reused := by
    rw [List.length_take, Nat.min_eq_left h₁.le]
  have hsplit : session.promptTokens.take reused ++ session.promptTokens.drop reused =
      session.promptTokens := List.take_append_drop _ _
  have hdrop : (session.promptTokens.drop reused).length = session.promptTokens.length - reused :=
    List.length_drop
  have hpos : 0 < (session.promptTokens.drop reused).length := by omega
  have hforward := wp_forward_served hm hs
    (fun id hid => hknown id (List.mem_of_mem_drop hid)) hpos h₁.toLive hall (by omega) fun hwrites => by
      rw [hbefore] at hwrites
      exact (nextSlots_safe_iff h₁.tableLen h₁.blocks hlt hwrites).mpr hstep
  rw [hbefore, hsplit] at hforward
  refine hforward.mono (fun o t₂ h₂ => ?_) fun _ _ hE => hE
  obtain ⟨⟨hlive, hlogits⟩, hall₂⟩ := h₂
  have hcov := covers hlive.formed.owned (le_of_eq hlive.len.symm)
  refine wp_onCache.mpr ((Cache.wp_registerPrefix hlive.formed.owned blockHash hcov).mono
    (fun _ c₃ hr => ?_) fun _ _ hE => hE)
  refine ⟨⟨hlive.registered hp hr.1 hr.2, _, _, hsplit, hpos, hlogits⟩, ?_⟩
  have hfree := congrArg List.length hr.1.free
  unfold AllIn BlockAllocator.numFree at *
  rw [hr.1.table, hr.1.size, hfree]
  exact hall₂

/-! ## 2. The decode loop -/

/-- **The decode loop** returns, as long as its budget fits. -/
theorem wp_decodeLoop_served (hm : Evaluates e.model dtype rowOf hidden logits)
    (hp : Predicts e.sampling logits ref) (hs : Speaks e params vocab known)
    (hlen : ∀ seq, (ref seq).length = vocab) {n : ℕ} {v : Decoding O R} (hn : 0 < ids.length)
    (hseq : before ++ ids = v.allTokens) (hv : logits before ids v.logits)
    {s : EngineState T}
    (h : Live e.model.cfg dtype blockHash prompts rowOf v.allTokens s.traced.cache)
    (hall : AllIn s.traced.cache.kvs) (hfit : v.allTokens.length + n ≤ e.model.cfg.maxSeqLen) :
    wp (e.decodeLoop e.model.forward params n v.allTokens.length v) (fun _ _ => True)
      (fun _ _ => False) s := by
  induction n generalizing v s before ids with
  | zero => exact trivial
  | succ n ih =>
    obtain ⟨hdim, hrow⟩ := hp before ids v.logits hn hv
    obtain ⟨id, r, hnext, hknown⟩ := nextToken_known hs.stays hn hdim hrow (hlen _) s
    rw [Engine.decodeLoop, wp_bind]
    refine (wp_of_ok hnext).mpr ?_
    dsimp only
    split
    · exact trivial
    obtain ⟨piece, hpiece⟩ := hs.decode hknown
    rw [wp_bind, wp_ofExcept, hpiece]
    dsimp only
    split
    · exact trivial
    rw [wp_bind, wp_modify, wp_bind, onTraced, wp_zoom]
    have hpos : 0 < [id].length := Nat.one_pos
    have hone : ∀ id' ∈ [id], known id' := fun _ hid => List.mem_singleton.mp hid ▸ hknown
    refine (wp_forward_served hm hs hone hpos h hall (by rw [List.length_singleton]; omega)
      fun _ => nextSlots_one s.traced.cache).mono (fun o t ht => ?_) fun _ _ hE => hE
    have hrest := ih (v := ⟨o, v.allTokens ++ [id], v.generated ++ piece, v.completionTokens + 1, r⟩)
      hpos rfl ht.1.2 (s := { s with delivered := s.delivered ++ [piece], traced := t }) ht.1.1
      ht.2 (by rw [List.length_append, List.length_singleton]; omega)
    rwa [List.length_append] at hrest

/-! ## 3. Generations -/

variable [HostCandle T] {toVec : KvBundleMeta → Except String (List UInt8)}
  {messages : List ChatMessage}

/-- **A chat that fits is served.** An engine without a store, in whose cache nothing is registered,
    answers every chat whose prompt and budget fit in the window, and the answer is that of generation
    without a cache. -/
theorem wp_generate_served (hm : Evaluates e.model dtype rowOf hidden logits)
    (hp : Predicts e.sampling logits ref) (hs : Speaks e params vocab known)
    (hlen : ∀ seq, (ref seq).length = vocab) (hc : NoCollision blockHash blockSize prompts)
    (hns : NoSeed blockHash blockSize prompts)
    (hlayers : e.model.cfg.numHiddenLayers ≠ 0) (hremote : e.kvCache.remote = none)
    {s : EngineState T} (h : Usable e.model.cfg dtype blockHash prompts rowOf s)
    (hpoisoned : s.poisoned = false) (hheld : heldBlocks s.traced.cache.kvs.registry = 0)
    (hprompt : e.tokenizer.encode (e.chatTemplate.render messages) = .ok prompt)
    (hsound : Sound e blockHash prompts rowOf fromSlice messages s) (hn : 0 < prompt.length)
    (hknown : ∀ id ∈ prompt, known id)
    (hfit : prompt.length + params.maxTokens ≤ e.model.cfg.maxSeqLen) :
    wp (e.generate fromSlice toVec blockHash messages params)
      (fun stats s' => Answered e ref messages params s stats s' ∧
        Usable e.model.cfg dtype blockHash prompts rowOf s') (fun _ _ => False) s := by
  have hfetched : (e.kvCache.session prompt).fetched = none := by
    cases hf : (e.kvCache.session prompt).fetched with
    | none => rfl
    | some bytes =>
      obtain ⟨store, _, hstore, -⟩ := fetched_session hf
      rw [hremote] at hstore
      cases hstore
  have hreturns : wp (e.generate fromSlice toVec blockHash messages params) (fun _ _ => True)
      (fun _ _ => False) s := by
    refine (wp_generate_iff hprompt hpoisoned).mpr ?_
    have hpass : wp (e.prefillAndDecode fromSlice blockHash e.model.forward params prompt)
        (fun _ _ => True) (fun _ _ => False) (e.kvCache.session prompt, s) := by
      have hprefill := wp_prefill_served hm hs hc hns
        (show prompts (e.kvCache.session prompt).promptTokens from hsound.prompt hprompt) hknown hn
        (Nat.le_of_add_right_le hfit) hfetched (h hpoisoned) hheld (hsound.inStep hprompt)
      rw [wp_within] at hprefill
      unfold Engine.prefillAndDecode
      rw [wp_bind, onSession, wp_zoom]
      refine hprefill.mono (fun out st hst => ?_) fun _ _ hE => hE
      obtain ⟨⟨hlive, before, ids, hsplit, hpos, hlogits⟩, hall⟩ := hst
      rw [onEngine, wp_zoom]
      exact wp_decodeLoop_served hm hp hs hlen
        (v := ⟨out.logits, prompt, "", 0, e.sampling.new params.seed⟩) hpos hsplit hlogits
        (s := { s with traced := st.2 }) hlive hall hfit
    have hnoStore : wlp (e.prefillAndDecode fromSlice blockHash e.model.forward params prompt)
        (fun _ st => st.1.remoteStore = none) (fun _ _ => True) (e.kvCache.session prompt, s) :=
      wlp_prefillAndDecode_noStore (e.kvCache.session prompt) hremote s
    refine (hpass.and_wlp hnoStore).mono (fun _ st hst => ?_) fun _ _ hE => hE.1
    unfold KvSession.finish
    rw [wp_bind, wp_get]
    dsimp only
    rw [hst.2]
    trivial
  exact (hreturns.and_wlp (wlp_generate_ideal params hm hp hc hns hlayers fromSlice toVec h hsound)).mono
    (fun _ _ hq => hq.2.1) fun _ _ hE => hE.1

end Served

end Flour
