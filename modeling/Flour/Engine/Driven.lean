/-
  File:      Flour/Engine/Driven.lean
  Subject:   Prefills and generations are runs of the driver of their cache.

  * `Drives`, `wlp_call` -- a call of the cache is a step of the driver, whether it returns or fails;
  * `Feeds` -- what the layers promise: K and V tensors with the rows of their pass;
  * `wlp_forward_drives`, `wlp_useRemote_drives`, `wlp_prefill_drives`, `wlp_decodeLoop_drives` -- so
    the parts of a request make their calls in the order of the driver;
  * **`generate_driven`** -- what holds in every state that the driver reaches holds after every
    generation, in whichever way it ended.
-/
import Flour.Engine.Generate
import Flour.Kv.Sealed

namespace Flour

open Kv Candle Flour.Lib Flour.Lib.Prog

/-! ## 1. Calls -/

section Call

variable {T : Type} [Candle T] {cfg : Config} {dtype : DType} {blockHash : BlockHash}
  {s s' s'' : Driver T} {c c' : Cache T} {phase next : Phase} {op : Op T}

/-- The driver leads from `s` to `s'`. -/
def Drives (cfg : Config) (dtype : DType) (blockHash : BlockHash) (s s' : Driver T) : Prop :=
  ∃ ops, (driverLts cfg dtype blockHash).Steps s ops s'

/-- The driver leads from `s` to the cache `c`, in some phase. -/
def DrivesTo (cfg : Config) (dtype : DType) (blockHash : BlockHash) (s : Driver T) (c : Cache T) :
    Prop :=
  ∃ phase, Drives cfg dtype blockHash s ⟨c, phase⟩

theorem Drives.refl : Drives cfg dtype blockHash s s := ⟨[], .refl⟩

theorem Drives.trans (h : Drives cfg dtype blockHash s s') (h' : Drives cfg dtype blockHash s' s'') :
    Drives cfg dtype blockHash s s'' := by
  obtain ⟨ops, h⟩ := h
  obtain ⟨ops', h'⟩ := h'
  exact ⟨_, h.trans h'⟩

theorem Drives.to (h : Drives cfg dtype blockHash s ⟨c, phase⟩) : DrivesTo cfg dtype blockHash s c :=
  ⟨phase, h⟩

theorem Drives.trans_to (h : Drives cfg dtype blockHash s s') (h' : DrivesTo cfg dtype blockHash s' c) :
    DrivesTo cfg dtype blockHash s c := by
  obtain ⟨phase, h'⟩ := h'
  exact (h.trans h').to

theorem Drives.orderly [LawfulCandle T] (h : Drives cfg dtype blockHash s s')
    (hs : Orderly cfg dtype s) : Orderly cfg dtype s' := by
  obtain ⟨ops, h⟩ := h
  exact h.invariant (I := fun _ s => Orderly cfg dtype s) hs
    fun _ _ _ _ _ h hs => (follows_step h hs).orderly

/-- **A call** is a step, whether it returns or fails. -/
theorem wlp_call {α : Type} {x : Prog (Cache T) α} (hcall : Calls cfg dtype c phase op next)
    (hrun : ∀ r c', x c = some (r, c') → op.run blockHash c = some (r.map fun _ => (), c')) :
    wlp x (fun _ c' => Drives cfg dtype blockHash ⟨c, phase⟩ ⟨c', next⟩)
      (fun _ c' => DrivesTo cfg dtype blockHash ⟨c, phase⟩ c') c := by
  rcases hx : x c with _ | ⟨e | a, c'⟩
  · exact Or.inl hx
  · exact Or.inr ((wp_of_error hx).mpr
      ⟨.idle, [op], .step .refl ⟨next, .error e, hcall, hrun _ _ hx, rfl⟩⟩)
  · exact Or.inr ((wp_of_ok hx).mpr ⟨[op], .step .refl ⟨next, .ok (), hcall, hrun _ _ hx, rfl⟩⟩)

/-- The same for an operation as it is. -/
theorem wlp_call_unit (hcall : Calls cfg dtype c phase op next) :
    wlp (op.run blockHash) (fun _ c' => Drives cfg dtype blockHash ⟨c, phase⟩ ⟨c', next⟩)
      (fun _ c' => DrivesTo cfg dtype blockHash ⟨c, phase⟩ c') c := by
  refine wlp_call hcall fun r c' h => h.trans ?_
  cases r <;> rfl

end Call

/-! ## 2. Passes -/

section Pass

variable {T H O : Type} [Candle T]

/-- What the layers promise: hidden states of `n` positions, of which the K and V tensors have the
    rows, and whose number attention keeps. -/
structure Feeds (m : CausalLM T H O) (dtype : DType) (shaped : ℕ → H → Prop) : Prop where
  embed {ids : List UInt32} {x : H} (h : m.embed ids = .ok x) : shaped ids.length x
  keyValue {layer n pos : ℕ} {x : H} {k v : T} (hl : layer < m.cfg.numHiddenLayers) (hx : shaped n x)
    (h : m.keyValue layer x pos = .ok (k, v)) : OfShape m.cfg dtype n k v
  attend {layer n pos : ℕ} {x x' : H} {blocks : List (T × T)} (hx : shaped n x)
    (h : m.attend layer x pos blocks = .ok x') : shaped n x'

variable {m : CausalLM T H O} {dtype : DType} {shaped : ℕ → H → Prop} {blockHash : BlockHash}
  {t : Traced T}

/-- **A layer** writes its rows, and reads. -/
theorem wlp_layerForward_drives (hm : Feeds m dtype shaped) {layer n pos : ℕ}
    (hl : layer < m.cfg.numHiddenLayers) {x : H} (hx : shaped n x) :
    wlp (m.layerForward pos layer x)
      (fun x' t' => shaped n x' ∧
        Drives m.cfg dtype blockHash ⟨t.cache, .pass n⟩ ⟨t'.cache, .pass n⟩)
      (fun _ t' => DrivesTo m.cfg dtype blockHash ⟨t.cache, .pass n⟩ t'.cache) t := by
  refine wlp_bind (wlp_ofExcept (fun kv hkv => ?_) fun _ _ => Drives.refl.to)
  obtain ⟨k, v⟩ := kv
  have hwrite : Calls m.cfg dtype t.cache (.pass n) (.writeKv layer k v) (.pass n) :=
    .write hl (hm.keyValue hl hx hkv)
  refine wlp_bind (wlp_onCache ((wlp_call_unit hwrite).mono (fun _ c₁ h₁ => ?_) fun _ _ hE => hE))
  have hread : Calls m.cfg dtype c₁ (.pass n) (.kvBlocks layer) (.pass n) := .read hl n
  refine wlp_bind (wlp_onCache ((wlp_call hread fun r c' h => discard_eq_some.mpr ⟨r, h, rfl⟩).mono
    (fun blocks c₂ h₂ => ?_) fun _ _ hE => h₁.trans_to hE))
  refine wlp_bind (Or.inr ?_)
  rw [record, wp_modify]
  exact wlp_ofExcept (fun x' hx' => ⟨hm.attend hx hx', h₁.trans h₂⟩) fun _ _ => (h₁.trans h₂).to

theorem wlp_layersForward_drives (hm : Feeds m dtype shaped) {n pos : ℕ} {layers : List ℕ}
    (hl : ∀ l ∈ layers, l < m.cfg.numHiddenLayers) {x : H} (hx : shaped n x) :
    wlp (m.layersForward pos layers x)
      (fun _ t' => Drives m.cfg dtype blockHash ⟨t.cache, .pass n⟩ ⟨t'.cache, .pass n⟩)
      (fun _ t' => DrivesTo m.cfg dtype blockHash ⟨t.cache, .pass n⟩ t'.cache) t := by
  induction layers generalizing x t with
  | nil => exact Or.inr .refl
  | cons layer rest ih =>
    obtain ⟨hlayer, hrest⟩ := List.forall_mem_cons.mp hl
    refine wlp_bind ((wlp_layerForward_drives hm hlayer hx).mono (fun x' t₁ h₁ => ?_) fun _ _ hE => hE)
    exact (ih hrest h₁.1).mono (fun _ _ h₂ => h₁.2.trans h₂) fun _ _ hE => h₁.2.trans_to hE

/-- **A pass** reserves its slots, and its layers write. -/
theorem wlp_forward_drives (hm : Feeds m dtype shaped) {phase : Phase}
    (hphase : ∀ (c : Cache T) n, Calls m.cfg dtype c phase (.allocateKv n) (.pass n))
    (ids : List UInt32) (pos : ℕ) :
    wlp (m.forward ids pos)
      (fun _ t' => Drives m.cfg dtype blockHash ⟨t.cache, phase⟩ ⟨t'.cache, .pass ids.length⟩)
      (fun _ t' => DrivesTo m.cfg dtype blockHash ⟨t.cache, phase⟩ t'.cache) t := by
  refine wlp_bind (Or.inr ?_)
  rw [wp_get]
  refine wlp_bind (Or.inr ?_)
  rw [record, wp_modify]
  refine wlp_bind (wlp_ofExcept (fun x hx => ?_) fun _ _ => Drives.refl.to)
  refine wlp_bind (wlp_onCache ((wlp_call_unit (hphase t.cache ids.length)).mono (fun _ c₁ h₁ => ?_)
    fun _ _ hE => hE))
  refine wlp_bind ((wlp_layersForward_drives hm (fun l hl => List.mem_range.mp hl)
    (hm.embed hx)).mono (fun x' t₂ h₂ => ?_) fun _ _ hE => h₁.trans_to hE)
  exact wlp_ofExcept (fun _ _ => h₁.trans h₂) fun _ _ => (h₁.trans h₂).to

end Pass

/-! ## 3. Prefill and decode -/

section Prefill

variable {T H O : Type} [Candle T] [LawfulCandle T] {m : CausalLM T H O} {dtype : DType}
  {shaped : ℕ → H → Prop} {blockHash : BlockHash} {cfg : Config}

omit [LawfulCandle T] in
theorem Kv.Orderly.fit {s : Driver T} (h : Orderly m.cfg dtype s) : Fit m s.cache :=
  ⟨h.formed.owned, h.formed.pool.kLen⟩

omit [LawfulCandle T] in
/-- A reset and a match. -/
theorem wlp_fallBack_drives {prompt : List UInt32} (e : String) {st : KvSession.State T}
    (phase : Phase) : wlp (KvSession.fallBack blockHash prompt e)
      (fun _ st' => Drives cfg dtype blockHash ⟨st.2.cache, phase⟩ ⟨st'.2.cache, .ready⟩)
      (fun _ st' => DrivesTo cfg dtype blockHash ⟨st.2.cache, phase⟩ st'.2.cache) st := by
  refine wlp_bind (Or.inr ?_)
  rw [KvSession.update, wp_modify]
  refine wlp_bind (wlp_zoom (wlp_onCache ((wlp_call_unit (.reset phase)).mono (fun _ c₁ h₁ => ?_)
    fun _ _ hE => hE)))
  refine wlp_bind (wlp_zoom (wlp_onCache ((wlp_call (.matchPrefix prompt)
    fun r c' h => discard_eq_some.mpr ⟨r, h, rfl⟩).mono (fun matched c₂ h₂ => ?_)
      fun _ _ hE => h₁.trans_to hE)))
  exact Or.inr (h₁.trans h₂)

/-- The import of fetched bytes, which were decoded. -/
theorem wlp_tryImport_drives {fromSlice : List UInt8 → Except String KvBundleMeta}
    (bytes : List UInt8) {prompt : List UInt32} {st : KvSession.State T} :
    wlp (KvSession.tryImport fromSlice blockHash bytes prompt)
      (fun _ st' => Drives cfg dtype blockHash ⟨st.2.cache, .ready⟩ ⟨st'.2.cache, .ready⟩)
      (fun _ st' => DrivesTo cfg dtype blockHash ⟨st.2.cache, .ready⟩ st'.2.cache) st := by
  have hfall : ∀ e (st' : KvSession.State T),
      DrivesTo cfg dtype blockHash ⟨st.2.cache, .ready⟩ st'.2.cache →
      wlp (KvSession.fallBack blockHash prompt e)
        (fun _ st'' => Drives cfg dtype blockHash ⟨st.2.cache, .ready⟩ ⟨st''.2.cache, .ready⟩)
        (fun _ st'' => DrivesTo cfg dtype blockHash ⟨st.2.cache, .ready⟩ st''.2.cache) st' :=
    fun e st' ⟨phase, hr⟩ => (wlp_fallBack_drives e phase).mono (fun _ _ hf => hr.trans hf)
      fun _ _ hE => hr.trans_to hE
  have hdecode : wlp (KvBundleCodec.decode (T := T) fromSlice bytes) (fun bundle _ => bundle.Valid)
      (fun _ _ => True) () := by
    rcases hd : KvBundleCodec.decode (T := T) fromSlice bytes () with _ | ⟨e | bundle, u⟩
    · exact Or.inl hd
    · exact Or.inr ((wp_of_error hd).mpr trivial)
    · exact Or.inr ((wp_of_ok hd).mpr (KvBundleCodec.decode_valid hd))
  refine wlp_bind (wlp_catching (wlp_bind (wlp_zoom (hdecode.mono (fun bundle _ hv => ?_)
    fun e _ _ => hfall e st Drives.refl.to))))
  refine wlp_bind (Or.inr ?_)
  rw [wp_get]
  refine wlp_guard (fun _ => hfall _ st Drives.refl.to) fun _ => ?_
  refine wlp_zoom (wlp_onCache ((wlp_call (.importBundle hv prompt)
    fun r c' h => discard_eq_some.mpr ⟨r, h, rfl⟩).mono (fun imported c' hi => ?_)
      fun e c' hr => hfall e (st.1, { st.2 with cache := c' }) hr))
  refine wlp_bind (Or.inr ?_)
  rw [KvSession.update, wp_modify]
  exact Or.inr hi

/-- **The remote part** of a prefill, whatever the store answers. -/
theorem wlp_useRemote_drives {fromSlice : List UInt8 → Except String KvBundleMeta}
    {prompt : List UInt32} {reused : ℕ} {st : KvSession.State T} :
    wlp (KvSession.useRemote fromSlice blockHash prompt reused)
      (fun _ st' => Drives cfg dtype blockHash ⟨st.2.cache, .ready⟩ ⟨st'.2.cache, .ready⟩)
      (fun _ st' => DrivesTo cfg dtype blockHash ⟨st.2.cache, .ready⟩ st'.2.cache) st := by
  have hstay : ∀ f : KvSession → KvSession, wlp (KvSession.update f >>= fun _ => pure reused)
      (fun _ st' => Drives cfg dtype blockHash ⟨st.2.cache, .ready⟩ ⟨st'.2.cache, .ready⟩)
      (fun _ st' => DrivesTo cfg dtype blockHash ⟨st.2.cache, .ready⟩ st'.2.cache) st :=
    fun _ => Or.inr Drives.refl
  obtain ⟨s, t⟩ := st
  refine wlp_bind (Or.inr ?_)
  rw [wp_get]
  dsimp only
  rcases s.remoteStore with _ | store
  · exact Or.inr .refl
  rcases s.remoteKey with _ | key
  · exact Or.inr .refl
  dsimp only
  rcases store key with e | _ | bytes
  · exact hstay _
  · exact hstay _
  dsimp only
  split
  · exact hstay _
  · exact wlp_tryImport_drives bytes

/-- **A prefill**, from any phase: it begins with a reset. -/
theorem wlp_prefill_drives (hm : Feeds m dtype shaped)
    (fromSlice : List UInt8 → Except String KvBundleMeta) (s : KvSession) {t : Traced T}
    {phase : Phase} (h : Orderly m.cfg dtype ⟨t.cache, phase⟩) :
    wlp (KvSession.prefill fromSlice blockHash m)
      (fun _ st' => Drives m.cfg dtype blockHash ⟨t.cache, phase⟩ ⟨st'.2.cache, .ready⟩)
      (fun _ st' => DrivesTo m.cfg dtype blockHash ⟨t.cache, phase⟩ st'.2.cache) (s, t) := by
  refine wlp_bind (Or.inr ?_)
  rw [wp_get]
  have hreset : wlp Cache.resetSequence
      (fun _ c' => Reaches blockHash t.cache c' ∧ Aligned c'.kvs 0)
      (fun _ c' => Reaches blockHash t.cache c') t.cache := wlp_resetSequence h.fit.owned
  refine wlp_bind (wlp_zoom (wlp_onCache ((hreset.and (wlp_call_unit (.reset phase))).mono
    (fun _ c₁ h₁ => ?_) fun _ _ hE => hE.2)))
  obtain ⟨⟨-, hlive₁⟩, hd₁⟩ := h₁
  have hmatch : wlp (Cache.matchPrefix blockHash s.promptTokens)
      (fun matched c' => Reaches blockHash c₁ c' ∧ Aligned c'.kvs matched)
      (fun _ c' => Reaches blockHash c₁ c') c₁ :=
    wlp_matchPrefix (hd₁.orderly h).fit.owned hlive₁ _
  refine wlp_bind (wlp_zoom (wlp_onCache ((hmatch.and (wlp_call (.matchPrefix s.promptTokens)
    fun r c' h => discard_eq_some.mpr ⟨r, h, rfl⟩)).mono (fun matched c₂ h₂ => ?_)
      fun _ _ hE => hd₁.trans_to hE.2)))
  obtain ⟨⟨-, hlive₂⟩, hd₂⟩ := h₂
  have hd₂ := hd₁.trans hd₂
  refine wlp_bind (((wlp_useRemote (hd₂.orderly h).fit.owned hlive₂).and
    wlp_useRemote_drives).mono (fun reused st₃ h₃ => ?_) fun _ _ hE => hd₂.trans_to hE.2)
  obtain ⟨⟨-, hlive₃⟩, hd₃⟩ := h₃
  have hd₃ := hd₂.trans hd₃
  refine wlp_bind (wlp_zoom ?_)
  unfold CausalLM.prefillSuffix
  refine wlp_guard (fun _ => hd₃.to) fun hlt => ?_
  have hforward : wlp (m.forward (s.promptTokens.drop reused) reused)
      (fun _ t₄ => Extended blockHash (s.promptTokens.drop reused).length st₃.2.cache t₄.cache)
      (fun _ t₄ => Reaches blockHash st₃.2.cache t₄.cache) st₃.2 :=
    wlp_forward _ reused (hd₃.orderly h).fit
  refine (hforward.and (wlp_forward_drives hm (fun _ n => .firstPass n) _ reused)).mono
    (fun logits t₄ h₄ => ?_) fun _ _ hE => hd₃.trans_to hE.2
  obtain ⟨hext, hd₄⟩ := h₄
  have hd₄ := hd₃.trans hd₄
  have hlive : s.promptTokens.length ≤ t₄.cache.kvs.table.len := by
    rw [hext.len, hlive₃.len, List.length_drop]
    omega
  refine wlp_bind (wlp_zoom (wlp_onCache ((wlp_call_unit (.register _ hlive)).mono
    (fun _ c₅ h₅ => ?_) fun _ _ hE => hd₄.trans_to hE)))
  exact Or.inr (hd₄.trans h₅)

end Prefill

section Generate

variable {T H O F D R : Type} [Candle T] [LawfulCandle T] [BEq F] [OfNat F 1]
  {e : Engine T H O F D R} {params : SamplingParams F D} {dtype : DType} {shaped : ℕ → H → Prop}
  {blockHash : BlockHash}

omit [LawfulCandle T] in
/-- **The decode steps.** -/
theorem wlp_decodeLoop_drives (hm : Feeds e.model dtype shaped) {n indexPos : ℕ}
    {v : Decoding O R} {s : EngineState T} {phase : Phase}
    (hphase : ∀ (c : Cache T) n, Calls e.model.cfg dtype c phase (.allocateKv n) (.pass n)) :
    wlp (e.decodeLoop e.model.forward params n indexPos v)
      (fun _ s' => DrivesTo e.model.cfg dtype blockHash ⟨s.traced.cache, phase⟩ s'.traced.cache)
      (fun _ s' => DrivesTo e.model.cfg dtype blockHash ⟨s.traced.cache, phase⟩ s'.traced.cache)
      s := by
  induction n generalizing indexPos v s phase with
  | zero => exact Or.inr Drives.refl.to
  | succ n ih =>
    refine wlp_bind ((wlp_nextToken v s).mono (fun r s₁ hs => ?_) fun _ _ hs => ?_)
    swap
    · rw [hs]
      exact Drives.refl.to
    rw [hs]
    dsimp only
    split
    · exact Or.inr Drives.refl.to
    refine wlp_bind (wlp_ofExcept (fun piece _ => ?_) fun _ _ => Drives.refl.to)
    split
    · exact Or.inr Drives.refl.to
    refine wlp_bind (Or.inr ?_)
    rw [wp_modify]
    refine wlp_bind (wlp_zoom ((wlp_forward_drives hm hphase [r.1] indexPos).mono
      (fun logits t ht => ?_) fun _ _ hE => hE))
    exact (ih fun _ n => .nextPass _ n).mono (fun _ _ hd => ht.trans_to hd)
      fun _ _ hd => ht.trans_to hd

/-- **A generation is a run of the driver.** From every state that the driver reaches, whatever the
    messages and the answer of the store, a generation that ends leads to a state that the driver
    reaches; it may have returned, or failed anywhere. -/
theorem generate_driven [HostCandle T] (hm : Feeds e.model dtype shaped)
    (fromSlice : List UInt8 → Except String KvBundleMeta)
    (toVec : KvBundleMeta → Except String (List UInt8)) (messages : List ChatMessage)
    {ops : List (Op T)} {s s' : EngineState T} {phase : Phase}
    (hr : (driverLts e.model.cfg dtype blockHash).Run ops ⟨s.traced.cache, phase⟩)
    {r : Except String GenerationStats}
    (h : e.generate fromSlice toVec blockHash messages params s = some (r, s')) :
    ∃ ops' phase', (driverLts e.model.cfg dtype blockHash).Run (ops' ++ ops)
      ⟨s'.traced.cache, phase'⟩ := by
  have ho := orderly_run hr
  suffices hw : wlp (e.generate fromSlice toVec blockHash messages params)
      (fun _ s' => DrivesTo e.model.cfg dtype blockHash ⟨s.traced.cache, phase⟩ s'.traced.cache)
      (fun _ s' => DrivesTo e.model.cfg dtype blockHash ⟨s.traced.cache, phase⟩ s'.traced.cache) s by
    obtain ⟨phase', ops', hsteps⟩ := hw.of_end (I := fun s' : EngineState T =>
      DrivesTo e.model.cfg dtype blockHash ⟨s.traced.cache, phase⟩ s'.traced.cache) h
    exact ⟨ops', phase', hr.trans hsteps⟩
  refine wlp_bind (wlp_ofExcept (fun prompt hprompt => ?_) fun _ _ => Drives.refl.to)
  refine wlp_bind (Or.inr ?_)
  rw [wp_get]
  split
  · exact Or.inr Drives.refl.to
  refine wlp_within (wlp_bind (wlp_zoom ((wlp_prefill_drives hm fromSlice _ ho).mono
    (fun out st hp => ?_) fun _ _ hE => hE)))
  obtain ⟨session, t⟩ := st
  refine wlp_bind (Or.inr ?_)
  rw [wp_get]
  refine wlp_bind (wlp_zoom ((wlp_decodeLoop_drives hm fun _ n => .firstPass n).mono
    (fun _ s₂ hd => ?_) fun _ _ hE => hp.trans_to hE))
  obtain ⟨phase₂, hd⟩ := hp.trans_to hd
  refine wlp_bind (wlp_zoom ((wlp_finish (hd.orderly ho).formed).mono (fun publish st hf => ?_)
    fun _ _ hE => hE.elim))
  rw [hf.1]
  refine wlp_bind (wlp_zoom (Or.inr ?_))
  unfold publishBestEffort
  split
  · exact Or.inr hd.to
  · exact Or.inr hd.to

end Generate

end Flour
