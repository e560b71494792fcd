/-
  File:      Flour/Engine/Positions.lean
  Subject:   The positions that a forward pass refers to: those of its rotations, the slots that its
             layers write, and the offset of its causal mask.

  The code does not check that these agree. Here it is run with assertions in it, which fail with a
  text of one's choice; code that runs alike with and without them, for every such text, never
  reaches one that does not hold, also when it panics later:

  * `assertedForward` -- a pass that fails with an alarm unless `index_pos` is the live length at
    the call, every layer computes rows for the positions from `index_pos` on and starts to write
    there, and the queries of its attention are these positions; a strict one, also unless the rows
    go to the slots of these positions. `writtenSlots` are the slots they go to, and
    `wp_writeKv_writtenSlots` says that the write fills these;
  * `assertedForward_eq` -- in a state reached by cache operations, with as many live tokens as
    `index_pos` says, no assertion fails, a strict one only if the runs of the write misplace a row
    (`wp_assertedForward_alarm`); `assertedPrefill_eq`, `assertedDecode_eq` -- so it is at each of
    the calls of a prefill and of the decode loop;
  * **`positions_aligned_iff`** -- for every prompt, every answer of the store and every number of
    decode steps, a generation with the assertions runs as it does without them, in whichever way it
    ends, and so does a strict one iff the blocks that its prefill takes are in step;
  * `positions_misaligned` -- they are not, after one request.
-/
import Flour.Engine.Generate
import Flour.Kv.Logits

namespace Flour

open Kv Candle Flour.Lib Flour.Lib.Prog

/-! ## 1. Assertions -/

section Asserted

variable {T H O : Type} [Candle T]

/-- Where `write_current` starts to write the rows of `k`; none is a panic. -/
def writeStart (c : KvCache T) (k : T) : Option ℕ :=
  (dims k)[2]?.bind fun seqLen => if c.table.len < seqLen then none else some (c.table.len - seqLen)

/-- `kv_len` of the attention over blocks. -/
def kvLen : List (T × T) → Option ℕ
  | [] => some 0
  | (k, _) :: rest => do
    let n ← (dims k)[2]?
    let total ← kvLen rest
    some (n + total)

/-- The position of the first of `seqQ` queries of the attention over blocks. -/
def causalOffset (blocks : List (T × T)) (seqQ : ℕ) : Option ℕ :=
  (kvLen blocks).bind fun total => if total < seqQ then none else some (total - seqQ)

/-- The slots that the rows of `k` go to in a write to the last positions. -/
def writtenSlots (c : KvCache T) (k : T) : Option (List ℕ) := do
  let start ← writeStart c k
  let slots ← c.table.slots start c.table.len
  some (runSlots 0 0 slots)

/-- `CausalLM.layerForward` of a pass over `n` tokens, with assertions. -/
def assertedLayer (alarm : String) (strict : Bool) (m : CausalLM T H O) (n indexPos layer : ℕ)
    (x : H) : Prog (Traced T) H := do
  let (k, v) ← Prog.ofExcept (m.keyValue layer x indexPos)
  let t ← Prog.get
  Prog.ensure ((dims k)[2]? = some n ∧ writeStart t.cache.kvs k = some indexPos) alarm
  Prog.ensure (strict = true → writtenSlots t.cache.kvs k =
    t.cache.kvs.table.slots indexPos (indexPos + n)) alarm
  onCache (Cache.writeKv layer k v)
  let blocks ← onCache (Cache.kvBlocks layer)
  Prog.ensure (causalOffset blocks n = some indexPos) alarm
  record (.read layer blocks)
  Prog.ofExcept (m.attend layer x indexPos blocks)

def assertedLayers (alarm : String) (strict : Bool) (m : CausalLM T H O) (n indexPos : ℕ) :
    List ℕ → H → Prog (Traced T) H
  | [], x => pure x
  | layer :: rest, x => do
    let x ← assertedLayer alarm strict m n indexPos layer x
    assertedLayers alarm strict m n indexPos rest x

/-- `CausalLM.forward`, with assertions. -/
def assertedForward (alarm : String) (strict : Bool) (m : CausalLM T H O) : Forward T O :=
  fun tokenIds indexPos => do
  let t ← Prog.get
  Prog.ensure (indexPos = t.cache.kvs.table.len) alarm
  record (.forward tokenIds indexPos t.cache.kvs.table.len)
  let x ← Prog.ofExcept (m.embed tokenIds)
  onCache (Cache.allocateKv tokenIds.length)
  let x ← assertedLayers alarm strict m tokenIds.length indexPos (List.range m.cfg.numHiddenLayers) x
  Prog.ofExcept (m.output x)

/-- What the layers promise: hidden states of `n` positions have K rows for `n` positions, and
    attention keeps their number. -/
structure Shapes (m : CausalLM T H O) (shaped : ℕ → H → Prop) : Prop where
  embed {ids : List UInt32} {x : H} (h : m.embed ids = .ok x) : shaped ids.length x
  keyValue {layer n pos : ℕ} {x : H} {k v : T} (hx : shaped n x)
    (h : m.keyValue layer x pos = .ok (k, v)) : (dims k)[2]? = some n
  attend {layer n pos : ℕ} {x x' : H} {blocks : List (T × T)} (hx : shaped n x)
    (h : m.attend layer x pos blocks = .ok x') : shaped n x'

end Asserted

/-! ## 2. A pass -/

section Pass

variable {T H O : Type} [Candle T] {m : CausalLM T H O} {shaped : ℕ → H → Prop}
  {blockHash : BlockHash} {dtype : DType} {c₀ : Cache T}

/-- The attention of a layer is over as many positions as its views have rows. -/
theorem kvLen_eq {blocks : List (T × T)} {cfg : Config}
    (h : ∀ view ∈ blocks, ∃ j, 0 < j ∧ OfShape cfg dtype j view.1 view.2) :
    kvLen blocks = some (liveRows blocks).length := by
  induction blocks with
  | nil => rfl
  | cons view rest ih =>
    obtain ⟨⟨j, -, hs⟩, hrest⟩ := List.forall_mem_cons.mp h
    obtain ⟨k, v⟩ := view
    have hk : (dims k)[2]? = some j := by
      rw [hs.kDims]
      rfl
    show ((dims k)[2]?.bind fun n => (kvLen rest).bind fun total => some (n + total)) = _
    rw [hk, ih hrest]
    show some (j + _) = some ((PagedKvPool.viewKv (k, v) ++ liveRows rest).length)
    rw [List.length_append, hs.length_viewKv]

/-- A layer keeps the number of positions. -/
theorem wlp_layerForward_shaped (hm : Shapes m shaped) {layer n pos : ℕ} {x : H} (hx : shaped n x)
    (t : Traced T) :
    wlp (m.layerForward pos layer x) (fun x' _ => shaped n x') (fun _ _ => True) t := by
  refine wlp_bind ((wlp_trivial _).mono (fun kv _ _ => ?_) fun _ _ _ => trivial)
  refine wlp_bind ((wlp_trivial _).mono (fun _ _ _ => ?_) fun _ _ _ => trivial)
  refine wlp_bind ((wlp_trivial _).mono (fun blocks _ _ => ?_) fun _ _ _ => trivial)
  refine wlp_bind ((wlp_trivial _).mono (fun _ _ _ => ?_) fun _ _ _ => trivial)
  exact wlp_ofExcept (fun _ h => hm.attend hx h) fun _ _ => trivial

variable [LawfulCandle T]

/-- Attention is over the live positions. -/
theorem wp_kvLen {cfg : Config} {layer : ℕ} {t : Traced T} (h : Formed cfg dtype t.cache)
    (hl : layer < cfg.numHiddenLayers) :
    wp (onCache (Cache.kvBlocks layer))
      (fun blocks _ => kvLen blocks = some t.cache.kvs.table.len) (fun _ _ => False) t := by
  refine wp_onCache.mpr ((wp_kvBlocks_rows h hl).mono (fun blocks _ hb => ?_) fun _ _ hE => hE)
  rw [kvLen_eq hb.2.1, hb.2.2, liveKv, List.length_map, List.length_range]

omit [LawfulCandle T] in
theorem writeStart_eq {c : KvCache T} {k : T} {n pos : ℕ} (hk : (dims k)[2]? = some n)
    (hlen : c.table.len = pos + n) : writeStart c k = some pos := by
  rw [writeStart, hk, hlen]
  show (if pos + n < n then none else some (pos + n - n)) = _
  rw [if_neg (by omega), Nat.add_sub_cancel]

omit [LawfulCandle T] in
/-- The slots of the last positions are those of the table, and the rows go to them as far as the
    runs of the write keep to the list. -/
theorem writtenSlots_eq {cfg : Config} {c : Cache T} (h : Formed cfg dtype c) {k : T} {n pos : ℕ}
    (hk : (dims k)[2]? = some n) (hlen : c.kvs.table.len = pos + n) :
    writtenSlots c.kvs k = some (runSlots 0 0 (lastSlots c.kvs.table n)) ∧
      c.kvs.table.slots pos (pos + n) = some (lastSlots c.kvs.table n) := by
  have hslots : c.kvs.table.slots pos c.kvs.table.len = some (lastSlots c.kvs.table n) := by
    rw [h.slots pos h.owned.len_le, lastSlots, hlen, Nat.add_sub_cancel, Nat.add_sub_cancel_left]
  refine ⟨?_, hlen ▸ hslots⟩
  show ((writeStart c.kvs k).bind fun start => (c.kvs.table.slots start c.kvs.table.len).bind
    fun slots => some (runSlots 0 0 slots)) = _
  rw [writeStart_eq hk hlen, Option.bind_some, hslots, Option.bind_some]

omit [LawfulCandle T] in
theorem writtenSlots_eq_iff {cfg : Config} {c : Cache T} (h : Formed cfg dtype c) {k : T} {n pos : ℕ}
    (hk : (dims k)[2]? = some n) (hlen : c.kvs.table.len = pos + n) :
    writtenSlots c.kvs k = c.kvs.table.slots pos (pos + n) ↔
      RunsSafe 0 (lastSlots c.kvs.table n) := by
  obtain ⟨hwritten, hslots⟩ := writtenSlots_eq h hk hlen
  rw [hwritten, hslots, Option.some.injEq, runSlots_eq_iff]

/-- **The write fills these slots**, with one row each and in order, and nothing else. -/
theorem wp_writeKv_writtenSlots {cfg : Config} {c : Cache T} (h : Formed cfg dtype c) {layer n : ℕ}
    (hl : layer < cfg.numHiddenLayers) {k v : T} (hs : OfShape cfg dtype n k v)
    (hn : n ≤ c.kvs.table.len) (hmax : n ≤ cfg.maxSeqLen) :
    ∃ slots, writtenSlots c.kvs k = some slots ∧
      wp (Cache.writeKv layer k v) (fun _ c' => ∀ l s, s < numSlots cfg → c'.kvs.pool.kv l s =
        if l = layer then scatter (c.kvs.pool.batchKv k v) 0 slots (c.kvs.pool.kv layer) s
        else c.kvs.pool.kv l s) (fun _ _ => False) c := by
  have hk : (dims k)[2]? = some n := by
    rw [hs.kDims]
    rfl
  refine ⟨_, (writtenSlots_eq h hk (Nat.sub_add_cancel hn).symm).1, ?_⟩
  refine (wp_writeKv_rows h hl hs hn hmax).mono (fun _ c' hw l s hlt => ?_) fun _ _ hE => hE
  rw [hw.kv l s hlt, writeRows_eq_runSlots]

/-- **A layer** of a pass whose tokens are the last of the live ones. -/
theorem assertedLayer_eq (hm : Shapes m shaped) (hnew : Cache.new m.cfg dtype = .ok c₀)
    {alarm : String} {strict : Bool} {layer n pos : ℕ} (hl : layer < m.cfg.numHiddenLayers) {x : H}
    (hx : shaped n x) {t : Traced T} (hr : Reaches blockHash c₀ t.cache)
    (hlen : t.cache.kvs.table.len = pos + n)
    (hsafe : strict = true → (∃ kv, m.keyValue layer x pos = .ok kv) →
      RunsSafe 0 (lastSlots t.cache.kvs.table n)) :
    assertedLayer alarm strict m n pos layer x t = m.layerForward pos layer x t := by
  have hfit := (fit_new hnew).reached hr
  obtain ⟨ops, hsteps⟩ := hr
  have hformed := formed_steps hnew hsteps
  refine bind_congr_run rfl fun kv t₁ hrun₁ => ?_
  obtain ⟨hkv, rfl⟩ := ofExcept_eq_ok.mp hrun₁
  obtain ⟨k, v⟩ := kv
  have hk := hm.keyValue hx hkv
  refine (ensure_bind ⟨hk, writeStart_eq hk hlen⟩).trans ((ensure_bind fun hstrict => ?_).trans
    (bind_congr_run rfl fun _ t₂ hwrite => ?_))
  · exact (writtenSlots_eq_iff hformed hk hlen).mpr (hsafe hstrict ⟨_, hkv⟩)
  have hlast : ∃ j, (dims k)[2]? = some j ∧ j ≤ t.cache.kvs.table.len := ⟨n, hk, by omega⟩
  obtain ⟨c₂, hrun, rfl⟩ := zoom_eq_some.mp hwrite
  obtain ⟨h₁, htable⟩ : Reaches blockHash t.cache c₂ ∧ _ :=
    (wlp_writeKv_reaches (by rwa [hfit.numLayers]) hlast).of_ok hrun
  refine bind_congr_run rfl fun blocks t₃ hread => ?_
  obtain ⟨ops, hsteps⟩ := Reaches.trans ⟨ops, hsteps⟩ h₁
  have hkvLen := (wp_kvLen (formed_steps hnew hsteps) hl).of_ok hread
  have hoff : causalOffset blocks n = some pos := by
    rw [causalOffset, hkvLen, htable, hlen]
    show (if pos + n < n then none else some (pos + n - n)) = _
    rw [if_neg (by omega), Nat.add_sub_cancel]
  exact ensure_bind hoff

/-- **The layers** of such a pass. -/
theorem assertedLayers_eq (hm : Shapes m shaped) (hnew : Cache.new m.cfg dtype = .ok c₀)
    {alarm : String} {strict : Bool} {n pos : ℕ} {layers : List ℕ}
    (hl : ∀ l ∈ layers, l < m.cfg.numHiddenLayers) {x : H} (hx : shaped n x) {t : Traced T}
    (hr : Reaches blockHash c₀ t.cache) (hlen : t.cache.kvs.table.len = pos + n)
    (hsafe : strict = true → (∃ layer kv, layers.head? = some layer ∧ m.keyValue layer x pos = .ok kv) →
      RunsSafe 0 (lastSlots t.cache.kvs.table n)) :
    assertedLayers alarm strict m n pos layers x t = m.layersForward pos layers x t := by
  induction layers generalizing x t with
  | nil => rfl
  | cons layer rest ih =>
    obtain ⟨hlayer, hrest⟩ := List.forall_mem_cons.mp hl
    have hone : assertedLayer alarm strict m n pos layer x t = _ :=
      assertedLayer_eq hm hnew hlayer hx hr hlen
        fun hstrict ⟨kv, hkv⟩ => hsafe hstrict ⟨layer, kv, rfl, hkv⟩
    refine bind_congr_run hone fun x' t₁ hrun => ?_
    rw [hone] at hrun
    obtain ⟨h₁, htable⟩ : Reaches blockHash t.cache t₁.cache ∧ _ :=
      (wlp_layerForward m pos x (by rwa [((fit_new hnew).reached hr).numLayers])).of_ok hrun
    obtain ⟨kv, _, hkv, -⟩ := Prog.bind_eq_ok.mp hrun
    refine ih hrest ((wlp_layerForward_shaped hm hx t).of_ok hrun) (hr.trans h₁) (htable ▸ hlen)
      fun hstrict _ => ?_
    rw [htable]
    exact hsafe hstrict ⟨layer, kv, rfl, (ofExcept_eq_ok.mp hkv).1⟩

omit [LawfulCandle T] in
/-- **The first layer raises the alarm**, if the runs of its write misplace a row. -/
theorem wp_assertedLayers_alarm {alarm : String} {n pos : ℕ} {x : H} {k v : T} {t : Traced T}
    (h : Formed m.cfg dtype t.cache) (hlen : t.cache.kvs.table.len = pos + n)
    (hpos : 0 < m.cfg.numHiddenLayers) (hkv : m.keyValue 0 x pos = .ok (k, v))
    (hk : (dims k)[2]? = some n) (hbad : ¬ RunsSafe 0 (lastSlots t.cache.kvs.table n)) :
    wp (assertedLayers alarm true m n pos (List.range m.cfg.numHiddenLayers) x) (fun _ _ => False)
      (fun e _ => e = alarm) t := by
  rw [← Nat.sub_add_cancel hpos, List.range_eq_range', List.range'_succ, assertedLayers, wp_bind,
    assertedLayer, wp_bind, wp_ofExcept, hkv]
  dsimp only
  rw [wp_bind, wp_get]
  unfold wp
  rw [ensure_bind ⟨hk, writeStart_eq hk hlen⟩]
  refine (wp_ensure_bind fun hstrict => hbad ?_).mpr rfl
  exact (writtenSlots_eq_iff h hk hlen).mp (hstrict rfl)

/-- **A pass** at the live length. -/
theorem assertedForward_eq (hm : Shapes m shaped) (hnew : Cache.new m.cfg dtype = .ok c₀)
    {alarm : String} {strict : Bool} {ids : List UInt32} {pos : ℕ} {t : Traced T}
    (hr : Reaches blockHash c₀ t.cache) (hlen : t.cache.kvs.table.len = pos)
    (hsafe : strict = true → m.writes ids pos t.cache → RunsSafe 0 (nextSlots t.cache ids.length)) :
    assertedForward alarm strict m ids pos t = m.forward ids pos t := by
  refine bind_congr_run rfl fun t' _ hget => ?_
  cases hget
  refine (ensure_bind hlen.symm).trans (bind_congr_run rfl fun _ t₁ hrec => ?_)
  cases hrec
  refine bind_congr_run rfl fun x t₂ hembed => ?_
  obtain ⟨hx, rfl⟩ := ofExcept_eq_ok.mp hembed
  have hfit := (fit_new hnew).reached hr
  refine bind_congr_run rfl fun _ t₃ halloc => ?_
  obtain ⟨c₃, hrun, rfl⟩ := zoom_eq_some.mp halloc
  obtain ⟨⟨taken, hreserved⟩, hmax, hfree⟩ := (Cache.wp_allocateKv hfit.owned ids.length).of_ok hrun
  have h₃ : Extended blockHash ids.length t.cache c₃ :=
    (wlp_allocateKv_extended hfit.owned ids.length).of_ok hrun
  refine bind_congr_run (assertedLayers_eq hm hnew (fun l hl => List.mem_range.mp hl)
    (hm.embed hx) (hr.trans h₃.reaches) ?_ fun hstrict hfirst => ?_) fun _ _ _ => rfl
  · rw [h₃.len]
    exact congrArg (· + ids.length) hlen
  · obtain ⟨layer, kv, hlayer, hkv⟩ := hfirst
    have hpos : 0 < m.cfg.numHiddenLayers :=
      Nat.zero_lt_of_lt (List.mem_range.mp (List.mem_of_mem_head? hlayer))
    obtain rfl : 0 = layer := by
      rw [← Nat.sub_add_cancel hpos, List.range_eq_range', List.range'_succ] at hlayer
      exact Option.some.inj hlayer
    show RunsSafe 0 (lastSlots c₃.kvs.table ids.length)
    rw [hreserved.lastSlots]
    exact hsafe hstrict (CausalLM.writes_iff.mpr ⟨⟨hpos, hmax, hfree⟩, x, kv, hx, hkv⟩)

/-- **A pass raises the alarm**, if it gets to a write whose runs misplace a row. -/
theorem wp_assertedForward_alarm (hm : Shapes m shaped) (hnew : Cache.new m.cfg dtype = .ok c₀)
    {alarm : String} {ids : List UInt32} {pos : ℕ} {t : Traced T} (hr : Reaches blockHash c₀ t.cache)
    (hlen : t.cache.kvs.table.len = pos) (hwrites : m.writes ids pos t.cache)
    (hbad : ¬ RunsSafe 0 (nextSlots t.cache ids.length)) :
    wp (assertedForward alarm true m ids pos) (fun _ _ => False) (fun e _ => e = alarm) t := by
  obtain ⟨⟨hpos, hmax, hfree⟩, x, ⟨k, v⟩, hx, hkv⟩ := CausalLM.writes_iff.mp hwrites
  have hfit := (fit_new hnew).reached hr
  obtain ⟨ops, hsteps⟩ := hr
  have hformed := formed_steps hnew hsteps
  rw [assertedForward, wp_bind, wp_get]
  unfold wp
  rw [ensure_bind hlen.symm]
  show wp (record _ >>= _) _ _ t
  rw [wp_bind, record, wp_modify, wp_bind, wp_ofExcept, hx]
  show wp (onCache (Cache.allocateKv ids.length) >>= _) _ _ _
  rw [wp_bind, wp_onCache]
  refine (Cache.wp_allocateKv hformed.owned ids.length).mono (fun _ c₁ hr => ?_) fun _ c₁ hr => ?_
  · obtain ⟨⟨taken, hr⟩, -⟩ := hr
    rw [wp_bind]
    refine (wp_assertedLayers_alarm (hformed.of_pool_eq hr.owned hr.pushed.pool hr.pushed.size
      hr.maxSeqLen) (by rw [hr.len, hlen]) hpos hkv (hm.keyValue (hm.embed hx) hkv) ?_).mono
      (fun _ _ hQ => hQ.elim) fun _ _ hE => hE
    rwa [hr.lastSlots]
  · obtain ⟨-, -, -, hno⟩ := hr
    have hmax : t.cache.kvs.table.len + ids.length ≤ t.cache.maxSeqLen := hmax
    have hfree : t.cache.missing ids.length ≤ t.cache.kvs.allocator.numFree := hfree
    omega

end Pass

/-! ## 3. Prefill and decode -/

section Calls

variable {T H O F D R : Type} [Candle T] [LawfulCandle T] [BEq F] [OfNat F 1]
  {m : CausalLM T H O} {shaped : ℕ → H → Prop} {blockHash : BlockHash} {dtype : DType} {c₀ : Cache T}

omit [LawfulCandle T] [BEq F] [OfNat F 1] in
/-- The part of a prefill before its pass. -/
theorem reuse_of_steps {fromSlice : List UInt8 → Except String KvBundleMeta} {s : KvSession}
    {t : Traced T} {c₁ c₂ : Cache T} {matched reused : ℕ} {st : KvSession.State T}
    (hreset : Cache.resetSequence t.cache = some (.ok (), c₁))
    (hmatch : Cache.matchPrefix blockHash s.promptTokens c₁ = some (.ok matched, c₂))
    (hremote : KvSession.useRemote fromSlice blockHash s.promptTokens matched
      (s, { t with cache := c₂ }) = some (.ok reused, st)) :
    reuse fromSlice blockHash s t = some (.ok reused, st.2) := by
  have hrun : wp (reuse fromSlice blockHash s) (fun n t' => n = reused ∧ t' = st.2) (fun _ _ => False)
      t := by
    rw [reuse, wp_within, wp_bind, KvSession.onTraced, wp_zoom, wp_onCache, resetAndMatch, wp_bind]
    exact (wp_of_ok hreset).mpr ((wp_of_ok hmatch).mpr ((wp_of_ok hremote).mpr ⟨rfl, rfl⟩))
  obtain ⟨_, _, hrun, rfl, rfl⟩ := hrun.returns
  exact hrun

/-- **The pass of a prefill**, whatever the session and the store are. -/
theorem assertedPrefill_eq (hm : Shapes m shaped) (hnew : Cache.new m.cfg dtype = .ok c₀)
    (fromSlice : List UInt8 → Except String KvBundleMeta) (alarm : String) {strict : Bool}
    (s : KvSession) {t : Traced T} (hr : Reaches blockHash c₀ t.cache)
    (hstep : strict = true → InStep (suffixBlocks fromSlice blockHash m s t)) :
    prefillWith fromSlice blockHash (assertedForward alarm strict m) (s, t) =
      prefillWith fromSlice blockHash m.forward (s, t) := by
  have hfit := (fit_new hnew).reached hr
  refine bind_congr_run rfl fun st _ hget => ?_
  cases hget
  refine bind_congr_run rfl fun _ st₁ hreset => ?_
  obtain ⟨_, hrun, rfl⟩ := zoom_eq_some.mp hreset
  obtain ⟨c₁, hrun₁, rfl⟩ := zoom_eq_some.mp hrun
  obtain ⟨h₁, hlive₁⟩ : Reaches blockHash t.cache c₁ ∧ _ :=
    (wlp_resetSequence hfit.owned).of_ok hrun₁
  refine bind_congr_run rfl fun matched st₂ hmatch => ?_
  obtain ⟨_, hrun, rfl⟩ := zoom_eq_some.mp hmatch
  obtain ⟨c₂, hrun₂, rfl⟩ := zoom_eq_some.mp hrun
  obtain ⟨h₂, hlive₂⟩ := (wlp_matchPrefix (hfit.reached h₁).owned hlive₁ s.promptTokens).of_ok hrun₂
  have h₂ := h₁.trans h₂
  refine bind_congr_run rfl fun reused st₃ hremote => ?_
  obtain ⟨h₃, hlive₃⟩ := (wlp_useRemote (hfit.reached h₂).owned hlive₂).of_ok hremote
  refine bind_congr_run (zoom_congr_run ?_) fun _ _ _ => rfl
  unfold prefillSuffixWith
  split
  · rfl
  rename_i hle
  refine assertedForward_eq hm hnew (hr.trans (h₂.trans h₃)) hlive₃.len fun hstrict hwrites => ?_
  have hstep := hstep hstrict
  unfold suffixBlocks at hstep
  rw [reuse_of_steps hrun₁ hrun₂ hremote] at hstep
  exact (nextSlots_safe_iff hlive₃.len hlive₃.blocks (Nat.lt_of_not_le hle) hwrites).mpr hstep

/-- **A prefill raises the alarm**, if the blocks that it takes are not in step. -/
theorem wp_assertedPrefill_alarm (hm : Shapes m shaped) (hnew : Cache.new m.cfg dtype = .ok c₀)
    (fromSlice : List UInt8 → Except String KvBundleMeta) (alarm : String) (s : KvSession)
    {t : Traced T} (hr : Reaches blockHash c₀ t.cache)
    (hstep : ¬ InStep (suffixBlocks fromSlice blockHash m s t)) :
    wp (prefillWith fromSlice blockHash (assertedForward alarm true m)) (fun _ _ => False)
      (fun e _ => e = alarm) (s, t) := by
  have hnil : InStep [] := fun k hk => absurd hk (Nat.not_lt_zero k)
  unfold suffixBlocks at hstep
  rcases hrun : reuse fromSlice blockHash s t with _ | ⟨_ | reused, t₁⟩
  · rw [hrun] at hstep
    exact absurd hnil hstep
  · rw [hrun] at hstep
    exact absurd hnil hstep
  rw [hrun] at hstep
  dsimp only at hstep
  obtain ⟨hreach, hlive⟩ := (wlp_reuse s ((fit_new hnew).reached hr).owned).of_ok hrun
  have hwrites : m.writes (s.promptTokens.drop reused) reused t₁.cache := by
    by_contra hno
    rw [CausalLM.nextBlocks, if_neg hno] at hstep
    exact hstep hnil
  have hlt : reused < s.promptTokens.length := by
    by_contra hle
    -- no block is taken for a suffix that is empty
    have hblocks := hlive.blocks
    have hnone : unmatchedBlocks s.promptTokens.length reused = 0 := by
      unfold unmatchedBlocks divCeil blockSize
      unfold blockSize at hblocks
      omega
    rw [CausalLM.nextBlocks, if_pos hwrites, hnone] at hstep
    exact hstep hnil
  have hwithin : wp (Prog.within s (prefillWith fromSlice blockHash (assertedForward alarm true m)))
      (fun _ _ => False) (fun e _ => e = alarm) t := by
    refine (wp_prefillWith_reuse _ s).mpr ((wp_of_ok hrun).mpr ?_)
    unfold prefillSuffixWith
    rw [if_neg (Nat.not_le_of_lt hlt)]
    exact (wp_assertedForward_alarm hm hnew (hr.trans hreach) hlive.len hwrites
      (mt (nextSlots_safe_iff hlive.len hlive.blocks hlt hwrites).mp hstep)).mono
      (fun _ _ hQ => hQ.elim) fun _ _ hE => hE
  exact (wp_within s _).mp hwithin

variable {e : Engine T H O F D R} {params : SamplingParams F D}

/-- **The passes of the decode loop**: its counter is the live length at every turn, and one row goes
    to its slot, whatever the slot is. -/
theorem assertedDecode_eq (hm : Shapes e.model shaped) (hnew : Cache.new e.model.cfg dtype = .ok c₀)
    (alarm : String) {strict : Bool} {n indexPos : ℕ} {v : Decoding O R} {s : EngineState T}
    (hr : Reaches blockHash c₀ s.traced.cache) (hlen : s.live = indexPos) :
    e.decodeLoop (assertedForward alarm strict e.model) params n indexPos v s =
      e.decodeLoop e.model.forward params n indexPos v s := by
  induction n generalizing indexPos v s with
  | zero => rfl
  | succ n ih =>
    refine bind_congr_run rfl fun r s₁ hnext => ?_
    obtain rfl : s = s₁ := ((wlp_nextToken v s).of_ok hnext).symm
    dsimp only
    split
    · rfl
    refine bind_congr_run rfl fun piece s₂ hdecode => ?_
    obtain ⟨-, rfl⟩ := ofExcept_eq_ok.mp hdecode
    split
    · rfl
    refine bind_congr_run rfl fun _ s₃ hdeliver => ?_
    cases hdeliver
    have hforward : assertedForward alarm strict e.model [r.1] indexPos s.traced = _ :=
      assertedForward_eq hm hnew hr hlen fun _ _ => nextSlots_one s.traced.cache
    refine bind_congr_run (zoom_congr_run hforward) fun logits s₄ hpass => ?_
    obtain ⟨t, hrun, rfl⟩ := zoom_eq_some.mp hpass
    have ht : Extended blockHash 1 s.traced.cache t.cache :=
      (wlp_forward [r.1] indexPos ((fit_new hnew).reached hr)).of_ok (hforward.symm.trans hrun)
    refine ih (hr.trans ht.reaches) (ht.len.trans ?_)
    rw [← hlen]
    rfl

variable [HostCandle T] {fromSlice : List UInt8 → Except String KvBundleMeta}
  {toVec : KvBundleMeta → Except String (List UInt8)} {messages : List ChatMessage} {s : EngineState T}

/-- **A generation**, if the blocks that its prefill takes are in step or nobody asks. -/
theorem assertedGenerate_eq (hm : Shapes e.model shaped) (hnew : Cache.new e.model.cfg dtype = .ok c₀)
    (alarm : String) {strict : Bool} (hr : Reaches blockHash c₀ s.traced.cache)
    (hstep : strict = true → ∀ prompt, e.tokenizer.encode (e.chatTemplate.render messages) = .ok prompt →
      s.poisoned = false →
        InStep (suffixBlocks fromSlice blockHash e.model (e.kvCache.session prompt) s.traced)) :
    e.generateWith fromSlice toVec blockHash (assertedForward alarm strict e.model) messages params s =
      e.generate fromSlice toVec blockHash messages params s := by
  refine bind_congr_run rfl fun prompt s₁ hencode => ?_
  obtain ⟨hprompt, rfl⟩ := ofExcept_eq_ok.mp hencode
  refine bind_congr_run rfl fun st s₂ hget => ?_
  cases hget
  split
  · rfl
  rename_i hpoisoned
  have hprefill := assertedPrefill_eq hm hnew fromSlice alarm (e.kvCache.session prompt) hr
    fun hstrict => hstep hstrict prompt hprompt (Bool.eq_false_iff.mpr hpoisoned)
  refine within_congr_run (bind_congr_run (zoom_congr_run hprefill) fun out st₃ hpass => ?_)
  obtain ⟨⟨session, t⟩, hrun, rfl⟩ := zoom_eq_some.mp hpass
  obtain ⟨h₃, hlen₃⟩ := (wlp_of_within (wlp_prefill fromSlice _ ((fit_new hnew).reached hr))).of_ok
    (hprefill.symm.trans hrun)
  refine bind_congr_run rfl fun st₄ _ hget => ?_
  cases hget
  refine bind_congr_run (zoom_congr_run ?_) fun _ _ _ => rfl
  exact assertedDecode_eq hm hnew alarm (hr.trans h₃) hlen₃

/-- **A generation raises the alarm**, if they are not. -/
theorem wp_assertedGenerate_alarm (hm : Shapes e.model shaped)
    (hnew : Cache.new e.model.cfg dtype = .ok c₀) (alarm : String)
    (hr : Reaches blockHash c₀ s.traced.cache) {prompt : List UInt32}
    (hprompt : e.tokenizer.encode (e.chatTemplate.render messages) = .ok prompt)
    (hpoisoned : s.poisoned = false)
    (hstep : ¬ InStep (suffixBlocks fromSlice blockHash e.model (e.kvCache.session prompt) s.traced)) :
    wp (e.generateWith fromSlice toVec blockHash (assertedForward alarm true e.model) messages params)
      (fun _ _ => False) (fun err _ => err = alarm) s := by
  unfold Engine.generateWith
  rw [wp_bind, wp_ofExcept, hprompt]
  dsimp only
  rw [wp_bind, wp_get, if_neg (Bool.eq_false_iff.mp hpoisoned), wp_within, wp_bind, onSession, wp_zoom]
  exact (wp_assertedPrefill_alarm hm hnew fromSlice alarm (e.kvCache.session prompt) hr hstep).mono
    (fun _ _ hQ => hQ.elim) fun _ _ hE => hE

/-- **When positions stay aligned.** From every state of the cache reached by its operations, whatever
    the prompt, the session and the answer of the store: every pass of a prefill and of the decode
    loop is called at the live length, its layers rotate and start to write at this position, and its
    queries are the positions from there on. That the rows of every layer also go to the slots of
    these positions is so iff the blocks that the prefill takes are in step. A generation that returns
    leaves live its prompt and a token for each piece it delivered; it generates at most `max_tokens`
    tokens, and exactly these when it reports that it ended by length. -/
theorem positions_aligned_iff (hm : Shapes e.model shaped) (hnew : Cache.new e.model.cfg dtype = .ok c₀)
    {ops : List (Op T)} (hr : (cacheLts T blockHash).Steps c₀ ops s.traced.cache)
    (fromSlice : List UInt8 → Except String KvBundleMeta)
    (toVec : KvBundleMeta → Except String (List UInt8)) (messages : List ChatMessage) :
    ((∀ alarm session, prefillWith fromSlice blockHash (assertedForward alarm false e.model)
        (session, s.traced) = KvSession.prefill fromSlice blockHash e.model (session, s.traced)) ∧
      ∀ alarm, e.generateWith fromSlice toVec blockHash (assertedForward alarm false e.model) messages
        params s = e.generate fromSlice toVec blockHash messages params s) ∧
    (∀ session, (∀ alarm, prefillWith fromSlice blockHash (assertedForward alarm true e.model)
        (session, s.traced) = KvSession.prefill fromSlice blockHash e.model (session, s.traced)) ↔
      InStep (suffixBlocks fromSlice blockHash e.model session s.traced)) ∧
    ((∀ alarm, e.generateWith fromSlice toVec blockHash (assertedForward alarm true e.model) messages
        params s = e.generate fromSlice toVec blockHash messages params s) ↔
      ∀ prompt, e.tokenizer.encode (e.chatTemplate.render messages) = .ok prompt → s.poisoned = false →
        InStep (suffixBlocks fromSlice blockHash e.model (e.kvCache.session prompt) s.traced)) ∧
    ∀ stats s', e.generate fromSlice toVec blockHash messages params s = some (.ok stats, s') →
      (∃ prompt pieces, e.tokenizer.encode (e.chatTemplate.render messages) = .ok prompt ∧
        s'.delivered = s.delivered ++ pieces ∧ s'.live = prompt.length + pieces.length) ∧
      stats.completionTokens ≤ params.maxTokens ∧
      (stats.finishReason = .length → stats.completionTokens = params.maxTokens) := by
  have hr : Reaches blockHash c₀ s.traced.cache := ⟨ops, hr⟩
  refine ⟨⟨fun alarm session => ?_, fun alarm => ?_⟩, fun session => ⟨fun h => ?_, fun h alarm => ?_⟩,
    ⟨fun h prompt hprompt hpoisoned => ?_, fun h alarm => ?_⟩, fun stats s' hrun => ?_⟩
  · exact assertedPrefill_eq hm hnew fromSlice alarm session hr fun hstrict => (by cases hstrict)
  · exact assertedGenerate_eq hm hnew alarm hr fun hstrict => (by cases hstrict)
  · by_contra hstep
    exact not_alike_of_alarms (fun alarm =>
      wp_assertedPrefill_alarm hm hnew fromSlice alarm session hr hstep) h
  · exact assertedPrefill_eq hm hnew fromSlice alarm session hr fun _ => h
  · by_contra hstep
    exact not_alike_of_alarms (fun alarm =>
      wp_assertedGenerate_alarm hm hnew alarm hr hprompt hpoisoned hstep) h
  · exact assertedGenerate_eq hm hnew alarm hr fun _ => h
  · have hg := (wlp_generate fromSlice toVec hnew messages hr).of_ok hrun
    obtain ⟨prompt, hprompt, htokens⟩ := hg.prompt
    obtain ⟨pieces, hdel, hlive⟩ := hg.live
    rw [htokens] at hlive
    exact ⟨⟨prompt, pieces, hprompt, hdel, hlive⟩, hg.le, hg.length⟩

end Calls

/-! ## 4. A generation -/

theorem sampleModel_shapes (cfg : Config) : Shapes (sampleModel cfg) fun n x => x.length = n where
  embed h := by
    cases h
    rfl
  keyValue hx h := by
    cases h
    rw [← hx]
    rfl
  attend hx h := by
    cases h
    exact hx

/-- An engine on two blocks, whose every chat is the sample prompt and whose sampler returns one
    token again and again. -/
def sampleEngine : Engine Dense (List UInt32) Unit ℕ ℕ Unit where
  model := sampleModel sampleConfig
  tokenizer := { inner := (fun _ => .ok samplePrompt, fun _ => .ok "la") }
  chatTemplate := .chatMl
  eosTokenId := .single 0
  sampling :=
    { dim1 := fun _ => .ok 1
      row := fun _ _ => .ok [0, 1]
      applyRepeatPenalty := fun logits _ _ => logits
      new := fun _ => ()
      sample := fun r _ _ => some (7, r) }
  kvCache := .localOnly "m"

def sampleParams : SamplingParams ℕ ℕ :=
  { temperature := 1, topP := none, topK := none, maxTokens := 3, repeatPenalty := 1, repeatLastN := 64
    seed := 0, stop := [] }

set_option synthInstance.maxSize 256 in
/-- Three tokens after a prompt of 17, on a cache that hands out blocks 0 and 1: no assertion fails,
    not even of a strict generation, and 20 tokens are live. -/
theorem positions_aligned_song : ∃ (c₀ : Cache Dense) (stats : GenerationStats)
    (s' : EngineState Dense),
    sampleEngine.generateWith noHeader (fun _ => .error "no header") sampleHash
      (assertedForward "misaligned" true sampleEngine.model) [] sampleParams ⟨false, ⟨c₀, []⟩, [], []⟩ =
        some (.ok stats, s') ∧
    s'.delivered.length = 3 ∧ s'.live = 20 ∧ stats.finishReason = .length ∧
    stats.completionTokens = 3 := by
  have hrun : wp (ofExcept (Cache.new sampleConfig .f32) : Prog Unit (Cache Dense))
      (fun fresh _ =>
        InStep (suffixBlocks noHeader sampleHash sampleEngine.model
          (sampleEngine.kvCache.session samplePrompt) ⟨fresh, []⟩) ∧
        wp (sampleEngine.generate noHeader (fun _ => .error "no header") sampleHash [] sampleParams)
          (fun stats s' => s'.delivered.length = 3 ∧ stats.finishReason = .length) (fun _ _ => False)
          ⟨false, ⟨fresh, []⟩, [], []⟩) (fun _ _ => False) () := by
    decide +kernel
  obtain ⟨c₀, _, hnew, hstep, hgen⟩ := hrun.returns
  obtain ⟨stats, s', hgen, hthree, hreason⟩ := hgen.returns
  obtain ⟨-, -, hstrict, hok⟩ : _ ∧ _ ∧ ((∀ alarm, sampleEngine.generateWith noHeader _ sampleHash
      (assertedForward alarm true sampleEngine.model) [] sampleParams ⟨false, ⟨c₀, []⟩, [], []⟩ = _) ↔
        _) ∧ _ :=
    positions_aligned_iff (sampleModel_shapes sampleConfig) (ofExcept_eq_ok.mp hnew).1 .refl _ _ _
  have hsame := hstrict.mpr fun prompt hprompt _ => by
    cases hprompt
    exact hstep
  obtain ⟨⟨prompt, pieces, hprompt, hdel, hlive⟩, -, hlength⟩ := hok stats s' hgen
  cases hprompt
  have hpieces : pieces.length = 3 := by rw [← hthree, hdel]; rfl
  refine ⟨c₀, stats, s', (hsame "misaligned").trans hgen, hthree, ?_, hreason, hlength hreason⟩
  rw [hlive, hpieces]
  rfl

set_option synthInstance.maxSize 256 in
/-- **Slots of other positions.** After a request of 33 tokens in all, which registers nothing, a
    prompt of 33 tokens gets the blocks 2, 1 and 0. The prefill returns; but its layer writes the rows
    of the positions 0 to 32 to the slots 32 to 47 and 16 to 32, and the slot of position 32 is 0. -/
theorem positions_misaligned : ∃ (c₀ : Cache Dense) (ops : List (Op Dense)) (c : Cache Dense)
    (session : KvSession),
    Cache.new threeBlocks .f32 = .ok c₀ ∧ (cacheLts Dense sampleHash).Steps c₀ ops c ∧
    Shapes (sampleModel threeBlocks) (fun n x => x.length = n) ∧
    (∃ out st, KvSession.prefill noHeader sampleHash (sampleModel threeBlocks) (session, ⟨c, []⟩) =
      some (.ok out, st)) ∧
    ∃ st, prefillWith noHeader sampleHash (assertedForward "misaligned" true (sampleModel threeBlocks))
      (session, ⟨c, []⟩) = some (.error "misaligned", st) := by
  let session := (KvCacheManager.localOnly "m").session plainRequest.prompt
  have hrun : wp (ofExcept (Cache.new threeBlocks .f32) : Prog Unit (Cache Dense))
      (fun fresh _ => fresh.kvs.table.len = 0 ∧
        wp (serve noHeader sampleHash (sampleModel threeBlocks) "m" decodingRequest) (fun _ s₁ =>
          wp (KvSession.prefill noHeader sampleHash (sampleModel threeBlocks))
            (fun _ st => st.2.cache.kvs.table.blocks = [2, 1, 0]) (fun _ _ => False)
            (session, ⟨s₁.cache, []⟩) ∧
          wp (prefillWith noHeader sampleHash
            (assertedForward "misaligned" true (sampleModel threeBlocks))) (fun _ _ => False)
            (fun e _ => e = "misaligned") (session, ⟨s₁.cache, []⟩))
          (fun _ _ => False) { cache := fresh, passes := [] }) (fun _ _ => False) () := by
    decide +kernel
  obtain ⟨fresh, _, hnew, -, hfirst⟩ := hrun.returns
  have hnew := (ofExcept_eq_ok.mp hnew).1
  obtain ⟨_, s₁, hserve, hprefill, hasserted⟩ := hfirst.returns
  obtain ⟨ops, hsteps⟩ : Reaches sampleHash fresh s₁.cache :=
    (wlp_serve noHeader "m" decodingRequest (fit_new hnew)).of_ok hserve
  obtain ⟨out, st, hout, -⟩ := hprefill.returns
  obtain ⟨_, st', halarm, rfl⟩ := hasserted.fails
  exact ⟨fresh, ops, s₁.cache, session, hnew, hsteps, sampleModel_shapes threeBlocks, ⟨out, st, hout⟩,
    st', halarm⟩

end Flour
