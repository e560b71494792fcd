/-
  File:      Flour/Kv/HistoryFree.lean
  Subject:   What attention reads after any history of local-only requests.

  * `Live` -- between the passes of a request: the rows of the sequence are there, and from its
    last block on the table shares no block;
  * `wp_layersForward_rows`, `wp_forward_rows` -- a pass over `ids` after `before` reads, in every
    layer, the rows of `before ++ ids`;
  * `wp_localPrefill_rows`, `wp_serve_rows` -- so do a prefill and the decode steps after it;
  * **`reads_history_free`** -- and so does every pass of every history, when each prefill that gets to
    a write has taken its blocks in step (`InStep`): once the i-th block it takes is block i of the
    pool, so are all later ones;
  * `stale_read` -- without that, a run of slots is written where its first slot leads.
-/
import Flour.Kv.Admission
import Flour.Kv.Contents

namespace Flour.Kv

open Candle Flour.Lib Flour.Lib.Prog

/-! ## 1. The slots of a pass -/

section Slots

variable {T H O : Type}

/-- The slots that a pass over `n` tokens would write, in the blocks it has and takes. -/
def nextSlots (c : Cache T) (n : ℕ) : List ℕ :=
  (List.range' c.kvs.table.len n).map
    (Lib.translate (c.kvs.table.blocks ++ c.kvs.allocator.free.take (c.missing n)) blockSize)

/-- A pass gets as far as its first write: it embeds its tokens, finds slots for them, and layer 0
    computes their rows. -/
def CausalLM.writes (m : CausalLM T H O) (ids : List UInt32) (pos : ℕ) (c : Cache T) : Bool :=
  decide (0 < m.cfg.numHiddenLayers ∧ c.kvs.table.len + ids.length ≤ c.maxSeqLen ∧
    c.missing ids.length ≤ c.kvs.allocator.numFree) &&
  match m.embed ids with
  | .ok x => (m.keyValue 0 x pos).isOk
  | .error _ => false

theorem CausalLM.writes_iff {m : CausalLM T H O} {ids : List UInt32} {pos : ℕ} {c : Cache T} :
    m.writes ids pos c = true ↔ (0 < m.cfg.numHiddenLayers ∧
      c.kvs.table.len + ids.length ≤ c.maxSeqLen ∧ c.missing ids.length ≤ c.kvs.allocator.numFree) ∧
      ∃ x kv, m.embed ids = .ok x ∧ m.keyValue 0 x pos = .ok kv := by
  unfold writes
  rw [Bool.and_eq_true, decide_eq_true_iff]
  refine and_congr_right fun _ => ?_
  cases m.embed ids with
  | error e => simp
  | ok x =>
    show (m.keyValue 0 x pos).isOk = true ↔ _
    cases hkv : m.keyValue 0 x pos with
    | error e => simp [hkv, Except.isOk, Except.toBool]
    | ok kv => exact iff_of_true rfl ⟨x, kv, rfl, hkv⟩

/-- The blocks that the pass over the rest of a prompt takes from the free list; none, unless it gets
    to a write. -/
def CausalLM.nextBlocks (m : CausalLM T H O) (prompt : List UInt32) (reused : ℕ) (c : Cache T) :
    List ℕ :=
  if m.writes (prompt.drop reused) reused c then
    c.kvs.allocator.free.take (unmatchedBlocks prompt.length reused)
  else []

/-- Once the `i`-th of some blocks is block `i` of the pool, so are all later ones. -/
def InStep (ids : List ℕ) : Prop :=
  ∀ k, k < ids.length → ∀ i, i ≤ k → ids[i]? = some i → ids[k]? = some k

instance (ids : List ℕ) : Decidable (InStep ids) :=
  inferInstanceAs (Decidable (∀ k, k < ids.length → ∀ i, i ≤ k → ids[i]? = some i → ids[k]? = some k))

/-- Blocks in step make slots that no run misplaces. -/
theorem InStep.runsSafe {ids : List ℕ} (h : InStep ids) {n : ℕ} (hn : n ≤ ids.length * blockSize) :
    RunsSafe 0 ((List.range n).map (Lib.translate ids blockSize)) := by
  have hget : ∀ j, j < n → ids[j / blockSize]? = some (ids.getD (j / blockSize) 0) := by
    intro j hj
    have hlt : j / blockSize < ids.length := page_lt (by omega)
    rw [List.getD_eq_getElem _ _ hlt]
    exact List.getElem?_eq_getElem _
  refine runsSafe_iff_forall.mpr fun j k hjk hk hj => ?_
  rw [List.length_map, List.length_range] at hk
  rw [List.getElem?_map, List.getElem?_range (by omega), Option.map_some, Option.some.injEq,
    Nat.zero_add] at hj
  rw [List.getElem?_map, List.getElem?_range hk, Option.map_some, Option.some.injEq, Nat.zero_add]
  have hpage : ids.getD (j / blockSize) 0 = j / blockSize := by
    rw [← translate_div (by decide), hj]
  have hlater := h (k / blockSize) (page_lt (by omega)) (j / blockSize) (Nat.div_le_div_right hjk)
    (by rw [hget j (by omega), hpage])
  rw [hget k hk, Option.some.injEq] at hlater
  rw [Lib.translate, hlater, Nat.mul_comm, Nat.div_add_mod]

/-- Only blocks in step do, if the last of them is used. -/
theorem inStep_of_runsSafe {ids : List ℕ} {n : ℕ} (hn : ∀ k, k < ids.length → k * blockSize < n)
    (h : RunsSafe 0 ((List.range n).map (Lib.translate ids blockSize))) : InStep ids := by
  have hget : ∀ k, k < ids.length → ((List.range n).map (Lib.translate ids blockSize))[k * blockSize]? =
      some (ids.getD k 0 * blockSize) := by
    intro k hk
    rw [List.getElem?_map, List.getElem?_range (hn k hk), Option.map_some]
    exact congrArg some (translate_page (by decide : 0 < blockSize) ids k)
  intro k hk i hik hi
  have hstart : ids.getD i 0 = i := by rw [List.getD_eq_getElem?_getD, hi, Option.getD_some]
  have hlater := runsSafe_iff_forall.mp h (i * blockSize) (k * blockSize) (Nat.mul_le_mul_right _ hik)
    (by rw [List.length_map, List.length_range]; exact hn k hk)
    (by rw [hget i (by omega), hstart, Nat.zero_add])
  rw [hget k hk, Nat.zero_add, Option.some.injEq] at hlater
  rw [List.getElem?_eq_getElem hk, ← List.getD_eq_getElem _ 0 hk,
    Nat.eq_of_mul_eq_mul_right (by decide) hlater]

/-- A reservation makes these the slots of the last positions. -/
theorem Cache.Reserved.lastSlots {c c' : Cache T} {n : ℕ} {taken : List ℕ}
    (h : Cache.Reserved n c c' taken) : Kv.lastSlots c'.kvs.table n = nextSlots c n := by
  have hlen : taken.length = c.missing n := h.blocks
  have htaken : c.kvs.allocator.free.take (c.missing n) = taken := by
    rw [h.taken, ← hlen, List.take_left]
  unfold Kv.lastSlots nextSlots
  rw [h.len, Nat.add_sub_cancel, htaken, ← h.pushed.blocks]
  rfl

/-- One token is written to its slot, whatever the slot is. -/
theorem nextSlots_one (c : Cache T) : RunsSafe 0 (nextSlots c 1) := ⟨fun _ => rfl, trivial⟩

/-- A prefill that gets to a write writes its suffix to the right slots iff its blocks are in step. -/
theorem nextSlots_safe_iff {m : CausalLM T H O} {c : Cache T} {prompt : List UInt32} {matched : ℕ}
    (hlen : c.kvs.table.len = matched)
    (hblocks : c.kvs.table.blocks.length * blockSize = matched) (hlt : matched < prompt.length)
    (hwrites : m.writes (prompt.drop matched) matched c) :
    RunsSafe 0 (nextSlots c (prompt.drop matched).length) ↔ InStep (m.nextBlocks prompt matched c) := by
  obtain ⟨⟨-, -, hfree⟩, -⟩ := CausalLM.writes_iff.mp hwrites
  rw [CausalLM.nextBlocks, if_pos hwrites]
  rw [List.length_drop] at hfree ⊢
  generalize prompt.length = len at *
  have hmatched : matched / blockSize = c.kvs.table.blocks.length := by
    rw [← hblocks, Nat.mul_div_cancel _ (by decide)]
  have hmiss : c.missing (len - matched) = unmatchedBlocks len matched := by
    unfold Cache.missing unmatchedBlocks
    rw [hlen, hmatched, Nat.add_sub_cancel' (Nat.le_of_lt hlt)]
  have hslots : nextSlots c (len - matched) = (List.range (len - matched)).map
      (Lib.translate (c.kvs.allocator.free.take (unmatchedBlocks len matched)) blockSize) := by
    unfold nextSlots
    rw [hmiss, hlen, List.range'_eq_map_range, List.map_map]
    refine List.map_congr_left fun j _ => ?_
    rw [Function.comp_apply, ← hblocks, translate_append_right (by decide)]
  rw [hmiss, BlockAllocator.numFree] at hfree
  have hcount : (c.kvs.allocator.free.take (unmatchedBlocks len matched)).length =
      divCeil len blockSize - c.kvs.table.blocks.length := by
    rw [List.length_take, Nat.min_eq_left hfree, unmatchedBlocks, hmatched]
  rw [hslots]
  unfold divCeil blockSize at hcount
  unfold blockSize at hblocks
  refine ⟨inStep_of_runsSafe fun k hk => ?_, fun h => h.runsSafe ?_⟩
  · rw [hcount] at hk
    unfold blockSize
    omega
  · rw [hcount]
    unfold blockSize
    omega

end Slots

/-! ## 2. Passes -/

/-- What the layers of a pass read are the rows of its sequence. -/
def AllRead {T : Type} [Candle T] (rowOf : RowOf) (seq : List UInt32) (events : List (Event T)) :
    Prop :=
  ∀ layer blocks, Event.read layer blocks ∈ events → liveRows blocks = rowsOf rowOf layer seq

section Passes

variable {T H O : Type} [Candle T] {m : CausalLM T H O} {dtype : DType}
  {rowOf : RowOf} {hidden : ℕ → List UInt32 → List UInt32 → H → Prop} {blockHash : BlockHash}
  {prompts : List UInt32 → Prop} {before ids : List UInt32}

theorem AllRead.record {seq : List UInt32} {events : List (Event T)} (h : AllRead rowOf seq events)
    {e : Event T} (he : ∀ layer blocks, e = .read layer blocks →
      liveRows blocks = rowsOf rowOf layer seq) : AllRead rowOf seq (events ++ [e]) := by
  intro layer blocks hmem
  rcases List.mem_append.mp hmem with hmem | hmem
  · exact h layer blocks hmem
  · exact he layer blocks (List.mem_singleton.mp hmem).symm

/-- **A layer** writes its rows and reads those of the whole sequence. -/
theorem wp_layerForward_rows [LawfulCandle T] (hm : Computes m dtype rowOf hidden) {layer : ℕ}
    (hl : layer < m.cfg.numHiddenLayers) {x : H} (hx : hidden layer before ids x) {t : Traced T}
    (h : Fills m.cfg dtype blockHash prompts rowOf before ids layer t.cache)
    (hread : AllRead rowOf (before ++ ids) t.events) :
    wp (m.layerForward before.length layer x)
      (fun x' t' => (Fills m.cfg dtype blockHash prompts rowOf before ids (layer + 1) t'.cache ∧
        hidden (layer + 1) before ids x') ∧ AllRead rowOf (before ++ ids) t'.events)
      (fun _ t' => Clean m.cfg dtype blockHash prompts rowOf t'.cache ∧
        AllRead rowOf (before ++ ids) t'.events) t := by
  unfold CausalLM.layerForward
  rw [wp_bind, wp_ofExcept]
  cases hkv : m.keyValue layer x before.length with
  | error e => exact ⟨h.toClean, hread⟩
  | ok kv =>
    obtain ⟨k, v⟩ := kv
    show wp (onCache (Cache.writeKv layer k v) >>= _) _ _ t
    rw [wp_bind, wp_onCache]
    refine (wp_writeKv_fills h hl (hm.keyValue hl hx hkv)).mono (fun _ c₁ h₁ => ?_)
      fun _ _ hE => hE.elim
    rw [wp_bind, wp_onCache]
    refine (wp_kvBlocks_rows h₁.formed hl).mono (fun blocks c₂ hb => ?_) fun _ _ hE => hE.elim
    obtain ⟨rfl, _, hb⟩ := hb
    have hrows : liveRows blocks = rowsOf rowOf layer (before ++ ids) := by
      rw [hb]
      refine liveKv_of_holds ?_ (h₁.full layer (Nat.lt_succ_self layer) hl)
      rw [h₁.len, List.length_append]
    have hread' : AllRead rowOf (before ++ ids) (t.events ++ [.read layer blocks]) :=
      hread.record fun _ _ he => by
        cases he
        exact hrows
    rw [wp_bind, record, wp_modify, wp_ofExcept]
    cases hx' : m.attend layer x before.length blocks with
    | error e => exact ⟨h₁.toClean, hread'⟩
    | ok x' => exact ⟨⟨h₁, hm.attend hl hx hrows hx'⟩, hread'⟩

/-- **The layers of a pass**, from `layer` on. -/
theorem wp_layersForward_rows [LawfulCandle T] (hm : Computes m dtype rowOf hidden) {layer n : ℕ}
    (hn : layer + n = m.cfg.numHiddenLayers) {x : H} (hx : hidden layer before ids x)
    {t : Traced T} (h : Fills m.cfg dtype blockHash prompts rowOf before ids layer t.cache)
    (hread : AllRead rowOf (before ++ ids) t.events) :
    wp (m.layersForward before.length (List.range' layer n) x)
      (fun _ t' => Fills m.cfg dtype blockHash prompts rowOf before ids m.cfg.numHiddenLayers
        t'.cache ∧ AllRead rowOf (before ++ ids) t'.events)
      (fun _ t' => Clean m.cfg dtype blockHash prompts rowOf t'.cache ∧
        AllRead rowOf (before ++ ids) t'.events) t := by
  induction n generalizing layer x t with
  | zero =>
    obtain rfl : layer = m.cfg.numHiddenLayers := hn
    exact ⟨h, hread⟩
  | succ n ih =>
    rw [List.range'_succ, CausalLM.layersForward, wp_bind]
    refine (wp_layerForward_rows hm (by omega) hx h hread).mono (fun x' t₁ h₁ => ?_) fun _ _ hE => hE
    exact ih (by omega) h₁.1.2 h₁.1.1 h₁.2

/-- The state between two passes of a request whose sequence is `seq`. -/
structure Live (cfg : Config) (dtype : DType) (blockHash : BlockHash)
    (prompts : List UInt32 → Prop) (rowOf : RowOf) (seq : List UInt32) (c : Cache T) : Prop
    extends Clean cfg dtype blockHash prompts rowOf c where
  len : c.kvs.table.len = seq.length
  holds : ∀ l, l < cfg.numHiddenLayers → Holds rowOf c.kvs l seq seq.length
  priv : Private c.kvs (seq.length / blockSize)

/-- The state after all layers have written. -/
theorem Fills.live {cfg : Config} {c : Cache T}
    (h : Fills cfg dtype blockHash prompts rowOf before ids cfg.numHiddenLayers c) :
    Live cfg dtype blockHash prompts rowOf (before ++ ids) c := by
  refine ⟨h.toClean, by rw [h.len, List.length_append], fun l hl => h.full l hl hl, ?_⟩
  refine h.priv.of_le (Nat.div_le_div_right ?_)
  rw [List.length_append]
  omega

/-- Operations on table and allocator alone. -/
theorem Clean.of_same {cfg : Config} {c c' : Cache T} (h : Clean cfg dtype blockHash prompts rowOf c)
    (howned : c'.kvs.Owned) (hpool : c'.kvs.pool = c.kvs.pool)
    (hreg : c'.kvs.registry = c.kvs.registry) (hsize : c'.kvs.allocator.size = c.kvs.allocator.size)
    (hmax : c'.maxSeqLen = c.maxSeqLen) : Clean cfg dtype blockHash prompts rowOf c' := by
  refine ⟨h.formed.of_pool_eq howned hpool hsize hmax, ?_⟩
  unfold Cached
  rw [hreg, hpool]
  exact h.cached

/-- **Reserving** gives the pass slots of its own, after the rows that are there. -/
theorem Live.reserved {cfg : Config} {c c' : Cache T} {taken : List ℕ}
    (h : Live cfg dtype blockHash prompts rowOf before c) (hr : Cache.Reserved ids.length c c' taken)
    (hmax : c.kvs.table.len + ids.length ≤ c.maxSeqLen)
    (hsafe : 0 < cfg.numHiddenLayers → RunsSafe 0 (nextSlots c ids.length)) :
    Fills cfg dtype blockHash prompts rowOf before ids 0 c' := by
  have hpool := hr.pushed.pool
  have hcap := h.formed.owned.len_le
  rw [BlockTable.capacity, h.formed.owned.blockSize, h.len] at hcap
  refine ⟨h.toClean.of_same hr.owned hpool hr.pushed.registry hr.pushed.size hr.maxSeqLen,
    by rw [hr.len, h.len], ?_, ?_, ?_, fun l hl pos hpos => ?_,
    fun l hl => absurd hl (Nat.not_lt_zero l)⟩
  · rw [← h.len, ← h.formed.maxSeqLen]
    exact hmax
  · exact h.priv.reserved hr
  · rw [hr.lastSlots]
    exact hsafe
  · have hold : rowSlot c'.kvs.table pos = rowSlot c.kvs.table pos := by
      rw [rowSlot, hr.pushed.blocks, translate_append (by omega)]
      rfl
    rw [hold, hpool, List.take_append_of_le_length (by omega)]
    exact h.holds l hl pos hpos

/-- **A pass** over `ids` after `before` reads the rows of `before ++ ids` in every layer. -/
theorem wp_forward_rows [LawfulCandle T] (hm : Computes m dtype rowOf hidden) {t : Traced T}
    (h : Live m.cfg dtype blockHash prompts rowOf before t.cache)
    (hsafe : m.writes ids before.length t.cache → RunsSafe 0 (nextSlots t.cache ids.length))
    (hread : AllRead rowOf (before ++ ids) t.events) :
    wp (m.forward ids before.length)
      (fun _ t' => Live m.cfg dtype blockHash prompts rowOf (before ++ ids) t'.cache ∧
        AllRead rowOf (before ++ ids) t'.events)
      (fun _ t' => Clean m.cfg dtype blockHash prompts rowOf t'.cache ∧
        AllRead rowOf (before ++ ids) t'.events) t := by
  unfold CausalLM.forward
  rw [wp_bind, wp_get, wp_bind, record, wp_modify, wp_bind, wp_ofExcept]
  have hread' := hread.record (e := .forward ids before.length t.cache.kvs.table.len)
    fun _ _ he => (by cases he)
  cases hx : m.embed ids with
  | error e => exact ⟨h.toClean, hread'⟩
  | ok x =>
    show wp (onCache (Cache.allocateKv ids.length) >>= _) _ _ _
    rw [wp_bind, wp_onCache]
    refine (Cache.wp_allocateKv h.formed.owned ids.length).mono (fun _ c₁ hr => ?_) fun _ c₁ hr => ?_
    · obtain ⟨⟨taken, hr⟩, hmax, hfree⟩ := hr
      rw [wp_bind, List.range_eq_range']
      by_cases hfirst : 0 < m.cfg.numHiddenLayers ∧ ∃ e, m.keyValue 0 x before.length = .error e
      · -- the first layer fails before it writes
        obtain ⟨hpos, e, hkv⟩ := hfirst
        rw [← Nat.sub_add_cancel hpos, List.range'_succ, CausalLM.layersForward, wp_bind,
          CausalLM.layerForward, wp_bind, wp_ofExcept, hkv]
        exact ⟨h.toClean.of_same hr.owned hr.pushed.pool hr.pushed.registry hr.pushed.size
          hr.maxSeqLen, hread'⟩
      have hsafe' : 0 < m.cfg.numHiddenLayers → RunsSafe 0 (nextSlots t.cache ids.length) := by
        intro hpos
        cases hkv : m.keyValue 0 x before.length with
        | error e => exact absurd ⟨hpos, e, hkv⟩ hfirst
        | ok kv => exact hsafe (CausalLM.writes_iff.mpr ⟨⟨hpos, hmax, hfree⟩, x, kv, hx, hkv⟩)
      refine (wp_layersForward_rows hm (Nat.zero_add _) (hm.embed hx)
        (h.reserved hr hmax hsafe') hread').mono (fun x' t₂ h₂ => ?_) fun _ _ hE => hE
      rw [wp_ofExcept]
      cases m.output x' with
      | error e => exact ⟨h₂.1.toClean, h₂.2⟩
      | ok o => exact ⟨h₂.1.live, h₂.2⟩
    · obtain ⟨⟨_, hg⟩, howned, hmax, _⟩ := hr
      exact ⟨h.toClean.of_same howned hg.pushed.pool hg.pushed.registry hg.pushed.size hmax, hread'⟩

/-! ## 3. Requests -/

/-- The rows of a block that was found are those of the prompt. -/
theorem rows_of_found {cfg : Config} {c : Cache T} (h : Clean cfg dtype blockHash prompts rowOf c)
    (hc : NoCollision blockHash blockSize prompts) (hs : NoSeed blockHash blockSize prompts)
    {prompt : List UInt32} (hp : prompts prompt) {k id : ℕ} (hk : k < prompt.length / blockSize)
    (hfound : c.kvs.registry.get (chainHash blockHash blockSize prompt (k + 1))
      (chunk blockSize prompt k) = some id) :
    BlockHolds rowOf cfg.numHiddenLayers c.kvs.pool id k prompt := by
  obtain ⟨p, b, hpp, hb, hhash, hblock⟩ :=
    h.cached _ _ _ (PrefixRegistry.get_eq_some.mp hfound)
  obtain ⟨rfl, htake⟩ := chain_inj hc hs hp hpp hk hb hhash
  intro l j hl hj
  rw [hblock l j hl hj]
  -- both prompts begin with the tokens of this chain
  have hle : k * blockSize + j + 1 ≤ (k + 1) * blockSize := by
    rw [Nat.succ_mul]
    omega
  have := congrArg (List.take (k * blockSize + j + 1)) htake
  rw [List.take_take, List.take_take, Nat.min_eq_left hle] at this
  rw [this]

/-- **Matching** leaves the matched tokens live, with their rows. -/
theorem wp_resetAndMatch_rows {cfg : Config} {c : Cache T}
    (h : Clean cfg dtype blockHash prompts rowOf c) (hc : NoCollision blockHash blockSize prompts)
    (hs : NoSeed blockHash blockSize prompts) {prompt : List UInt32} (hp : prompts prompt) :
    wp (resetAndMatch blockHash prompt) (fun matched c₁ =>
      Live cfg dtype blockHash prompts rowOf (prompt.take matched) c₁ ∧
        c₁.kvs.table.len = matched ∧ c₁.kvs.table.blocks.length * blockSize = matched)
      (fun _ _ => False) c := by
  unfold resetAndMatch
  rw [wp_bind]
  refine (Cache.wp_resetSequence h.formed.owned).mono (fun _ c₀ hr => ?_) fun _ _ hE => hE
  obtain ⟨hr, hmax₀⟩ := hr
  have h₀ := h.of_same hr.owned hr.pool hr.registry hr.size hmax₀
  refine (Cache.wp_matchPrefix hr.owned blockHash prompt).mono (fun matched c₁ hm => ?_)
    fun _ _ hE => hE
  obtain ⟨⟨ids, hm⟩, hmax₁⟩ := hm
  have h₁ := h₀.of_same hm.owned hm.pushed.pool hm.pushed.registry hm.pushed.size hmax₁
  have hblocks : c₁.kvs.table.blocks = ids := by rw [hm.pushed.blocks, hr.blocks, List.nil_append]
  have hlen : c₁.kvs.table.len = matched := by rw [hm.len, hr.len, Nat.zero_add]
  have hle : ids.length ≤ prompt.length / blockSize := by
    refine le_trans hm.le ?_
    unfold KvCache.maxReusable
    split
    · exact Nat.sub_le _ _
    · exact le_refl _
  have hmatched : (prompt.take matched).length = matched := by
    rw [List.length_take, hm.tokens]
    exact Nat.min_eq_left (Nat.mul_le_of_le_div _ _ _ hle)
  refine ⟨⟨h₁, by rw [hlen, hmatched], fun l hl pos hpos => ?_, fun i id hi hb => ?_⟩, hlen,
    by rw [hblocks, hm.tokens]⟩
  · rw [hmatched] at hpos
    have hpos' : pos < ids.length * blockSize := by rwa [← hm.tokens]
    have hfound := hm.found _ _ (List.getElem?_eq_getElem (page_lt hpos'))
    rw [Nat.zero_add, hr.registry] at hfound
    have hblock := rows_of_found h hc hs hp (Nat.lt_of_lt_of_le (page_lt hpos') hle) hfound
    rw [hm.pushed.pool, hr.pool, rowSlot, hblocks, Lib.translate,
      List.getD_eq_getElem _ _ (page_lt hpos'), hblock l _ hl (Nat.mod_lt _ (by decide)),
      Nat.mul_comm, Nat.div_add_mod, List.take_take, Nat.min_eq_left hpos]
  · rw [hmatched, hm.tokens, Nat.mul_div_cancel _ (by decide)] at hi
    rw [hblocks, List.getElem?_eq_none hi] at hb
    cases hb

/-- **Registering** adds the blocks of the prompt, with the rows they hold. -/
theorem Live.registered {cfg : Config} {c c' : Cache T} {prompt : List UInt32}
    (h : Live cfg dtype blockHash prompts rowOf prompt c) (hp : prompts prompt)
    (hr : KvCache.Registered blockHash blockSize prompt 0 (prompt.length / blockSize) c.kvs c'.kvs)
    (hmax : c'.maxSeqLen = c.maxSeqLen) : Live cfg dtype blockHash prompts rowOf prompt c' := by
  have howned := hr.owned h.formed.owned
  have hcap := h.formed.owned.len_le
  rw [BlockTable.capacity, h.formed.owned.blockSize, h.len] at hcap
  have hpage : ∀ k id, c.kvs.table.blocks[k]? = some id → c.kvs.table.blocks.getD k 0 = id :=
    fun k id hk => by rw [List.getD_eq_getElem?_getD, hk]; rfl
  refine ⟨⟨h.formed.of_pool_eq howned hr.pool hr.size hmax, fun hash tokens id he => ?_⟩,
    by rw [hr.table]; exact h.len, fun l hl pos hpos => ?_, fun i id hi hb => ?_⟩
  · rw [hr.pool]
    rcases hr.entries hash tokens id he with hold | ⟨k, hk, hhash, _, hid⟩
    · exact h.cached hash tokens id hold
    · rw [Nat.zero_add] at hhash hid
      refine ⟨prompt, k, hp, hk, hhash, fun l j hl hj => ?_⟩
      have hlt : k * blockSize + j < prompt.length := by
        have := Nat.mul_le_of_le_div _ _ _ hk
        rw [Nat.succ_mul] at this
        omega
      have hrow := h.holds l hl _ hlt
      rwa [rowSlot, translate_page hj, hpage k id hid] at hrow
  · rw [hr.table, hr.pool]
    exact h.holds l hl pos hpos
  · exact (h.priv.registered hr le_rfl) i id hi hb

/-- The blocks that the prefill of a prompt takes from the free list, if it gets to a write. -/
def takenBlocks (blockHash : BlockHash) (m : CausalLM T H O) (prompt : List UInt32) (c : Cache T) :
    List ℕ :=
  match resetAndMatch blockHash prompt c with
  | some (.ok matched, c₁) => m.nextBlocks prompt matched c₁
  | _ => []

/-- **A prefill** whose blocks are in step reads the rows of its prompt. -/
theorem wp_localPrefill_rows [LawfulCandle T] (hm : Computes m dtype rowOf hidden)
    (hc : NoCollision blockHash blockSize prompts) (hs : NoSeed blockHash blockSize prompts)
    (fromSlice : List UInt8 → Except String KvBundleMeta) (modelId : String)
    {prompt : List UInt32} (hp : prompts prompt) {t : Traced T}
    (h : Clean m.cfg dtype blockHash prompts rowOf t.cache)
    (hstep : InStep (takenBlocks blockHash m prompt t.cache)) (hread : AllRead rowOf prompt t.events) :
    wp (localPrefill fromSlice blockHash m modelId prompt)
      (fun _ t' => Live m.cfg dtype blockHash prompts rowOf prompt t'.cache ∧
        AllRead rowOf prompt t'.events)
      (fun _ t' => Clean m.cfg dtype blockHash prompts rowOf t'.cache ∧
        AllRead rowOf prompt t'.events) t := by
  obtain ⟨matched, c₁, hx, hlive, hlen, hblocks⟩ := (wp_resetAndMatch_rows h hc hs hp).returns
  unfold takenBlocks at hstep
  rw [hx] at hstep
  rw [wp_localPrefill_iff, wp_onCache]
  refine (wp_of_ok hx).mpr ?_
  unfold CausalLM.prefillSuffix
  refine wp_guard (fun _ => ⟨hlive.toClean, hread⟩) fun hlt => ?_
  have hlt : matched < prompt.length := Nat.lt_of_not_le hlt
  have hbefore : (prompt.take matched).length = matched := by
    rw [List.length_take]
    omega
  have hsplit : prompt.take matched ++ prompt.drop matched = prompt := List.take_append_drop _ _
  have hread' : AllRead rowOf (prompt.take matched ++ prompt.drop matched) t.events := by rwa [hsplit]
  have hforward := wp_forward_rows (t := { t with cache := c₁ }) hm hlive (fun hwrites => by
    rw [hbefore] at hwrites
    exact (nextSlots_safe_iff hlen hblocks hlt hwrites).mpr hstep) hread'
  rw [hbefore, hsplit] at hforward
  refine hforward.mono (fun logits t₂ h₂ => ?_) fun _ _ hE => hE
  have hcov := covers h₂.1.formed.owned (le_of_eq h₂.1.len.symm)
  refine wp_onCache.mpr ((Cache.wp_registerPrefix h₂.1.formed.owned blockHash hcov).mono
    (fun _ c₃ hr => ?_) fun _ _ hE => hE)
  exact ⟨h₂.1.registered hp hr.1 hr.2, h₂.2⟩

/-- **The decode steps** read the rows of the sequence so far. -/
theorem wp_decode_rows [LawfulCandle T] (hm : Computes m dtype rowOf hidden) (rest : List UInt32)
    {seq : List UInt32} {s : Serving T} (h : Live m.cfg dtype blockHash prompts rowOf seq s.cache)
    (hread : ∀ p ∈ s.passes, AllRead rowOf p.tokens p.events) :
    wp (decode m seq rest)
      (fun _ s' => Clean m.cfg dtype blockHash prompts rowOf s'.cache ∧
        ∀ p ∈ s'.passes, AllRead rowOf p.tokens p.events)
      (fun _ s' => Clean m.cfg dtype blockHash prompts rowOf s'.cache ∧
        ∀ p ∈ s'.passes, AllRead rowOf p.tokens p.events) s := by
  induction rest generalizing seq s with
  | nil => exact ⟨h.toClean, hread⟩
  | cons token rest ih =>
    have hpasses : ∀ events, AllRead rowOf (seq ++ [token]) events →
        ∀ p ∈ s.passes ++ [⟨seq ++ [token], events⟩], AllRead rowOf p.tokens p.events := by
      intro events he p hp
      rcases List.mem_append.mp hp with hp | hp
      · exact hread p hp
      · rw [List.mem_singleton.mp hp]
        exact he
    rw [decode, wp_bind, wp_pass]
    have hnone : AllRead rowOf (seq ++ [token]) ([] : List (Event T)) := fun _ _ hmem => by cases hmem
    refine (wp_forward_rows (t := ⟨s.cache, []⟩) hm h (fun _ => by exact nextSlots_one s.cache)
      hnone).mono
      (fun _ t h₁ => ?_) fun _ t h₁ => ⟨h₁.1, hpasses _ h₁.2⟩
    exact ih (s := ⟨t.cache, s.passes ++ [⟨seq ++ [token], t.events⟩]⟩) h₁.1 (hpasses _ h₁.2)

/-- **A request** on a cache that is clean. -/
theorem wp_serve_rows [LawfulCandle T] (hm : Computes m dtype rowOf hidden)
    (hc : NoCollision blockHash blockSize prompts) (hs : NoSeed blockHash blockSize prompts)
    (fromSlice : List UInt8 → Except String KvBundleMeta) (modelId : String) {r : Request}
    (hp : prompts r.prompt) {c : Cache T} (h : Clean m.cfg dtype blockHash prompts rowOf c)
    (hstep : InStep (takenBlocks blockHash m r.prompt c)) :
    wp (serve fromSlice blockHash m modelId r)
      (fun _ s' => Clean m.cfg dtype blockHash prompts rowOf s'.cache ∧
        ∀ p ∈ s'.passes, AllRead rowOf p.tokens p.events)
      (fun _ s' => Clean m.cfg dtype blockHash prompts rowOf s'.cache ∧
        ∀ p ∈ s'.passes, AllRead rowOf p.tokens p.events) { cache := c, passes := [] } := by
  have hpasses : ∀ events : List (Event T), AllRead rowOf r.prompt events →
      ∀ p ∈ [(⟨r.prompt, events⟩ : Pass T)], AllRead rowOf p.tokens p.events := by
    intro events he p hp
    rw [List.mem_singleton.mp hp]
    exact he
  unfold serve
  rw [wp_bind, wp_pass]
  refine (wp_localPrefill_rows (t := ⟨c, []⟩) hm hc hs fromSlice modelId hp h hstep
    (fun _ _ hmem => by cases hmem)).mono (fun _ t h₁ => ?_) fun _ t h₁ => ⟨h₁.1, hpasses _ h₁.2⟩
  exact wp_decode_rows hm r.completion (s := ⟨t.cache, [⟨r.prompt, t.events⟩]⟩) h₁.1 (hpasses _ h₁.2)

/-! ## 4. Histories -/

/-- **What attention reads does not depend on history.** In every history whose prompts have no
    colliding block hashes and whose prefills, as far as they get to a write, take their blocks in
    step, every layer of every pass reads exactly the rows of its sequence, in order. -/
theorem reads_history_free [LawfulCandle T] (hm : Computes m dtype rowOf hidden)
    (hc : NoCollision blockHash blockSize prompts) (hs : NoSeed blockHash blockSize prompts)
    {fromSlice : List UInt8 → Except String KvBundleMeta} {modelId : String}
    {history : List (Served T)} {c : Cache T}
    (hr : ((requestLts fromSlice blockHash m modelId dtype).restrict fun c e =>
      prompts e.request.prompt ∧ InStep (takenBlocks blockHash m e.request.prompt c)).Run history c) :
    ∀ e ∈ history, ∀ p ∈ e.passes, ∀ layer blocks, .read layer blocks ∈ p.events →
      liveRows blocks = rowsOf rowOf layer p.tokens := by
  have hclean : Clean m.cfg dtype blockHash prompts rowOf c ∧
      ∀ e ∈ history, ∀ p ∈ e.passes, AllRead rowOf p.tokens p.events := by
    refine hr.invariant (I := fun history c => Clean m.cfg dtype blockHash prompts rowOf c ∧
      ∀ e ∈ history, ∀ p ∈ e.passes, AllRead rowOf p.tokens p.events) (fun c h => ?_)
      fun history c e c' _ h hstep => ?_
    · refine ⟨⟨formed_new h, fun hash tokens id he => ?_⟩, fun _ he => absurd he List.not_mem_nil⟩
      rw [registry_new h] at he
      cases he
    · obtain ⟨hserve, hp, hin⟩ := hstep
      have hend := (wp_serve_rows hm hc hs fromSlice modelId hp h.1 hin).of_end
        (I := fun s' => Clean m.cfg dtype blockHash prompts rowOf s'.cache ∧
          ∀ p ∈ s'.passes, AllRead rowOf p.tokens p.events) hserve
      exact ⟨hend.1, List.forall_mem_cons.mpr ⟨hend.2, h.2⟩⟩
  exact hclean.2

end Passes

/-! ## 5. Two histories of the sample model -/

/-- The rows of the sample model: the last token, and the token after it. -/
def sampleRow : RowOf := fun _ seq =>
  ([[(seq.getLastD 0).toNat]], [[(seq.getLastD 0).toNat + 1]])

theorem getLastD_take {before ids : List UInt32} {j : ℕ} (hj : j < ids.length) :
    (before ++ ids.take (j + 1)).getLastD 0 = ids.getD j 0 := by
  rw [List.take_succ_eq_append_getElem hj, ← List.append_assoc, List.getLastD_concat,
    List.getD_eq_getElem _ _ hj]

theorem sampleModel_computes {cfg : Config} (hheads : cfg.numKeyValueHeads = 1)
    (hdim : cfg.headDim = 1) :
    Computes (sampleModel cfg) .f32 sampleRow fun _ _ ids x => x = ids where
  embed h := by
    cases h
    rfl
  keyValue _ hx h := by
    cases h
    subst hx
    refine ⟨⟨?_, ?_, rfl, rfl⟩, fun j hj => ?_⟩
    · rw [show (sampleModel cfg).cfg = cfg from rfl, hheads, hdim]
      rfl
    · rw [show (sampleModel cfg).cfg = cfg from rfl, hheads, hdim]
      rfl
    · rw [show (sampleModel cfg).cfg = cfg from rfl, hheads, hdim]
      unfold sampleRow
      rw [getLastD_take hj]
      rfl
  attend _ hx _ h := by
    cases h
    exact hx

/-- The views that the layers of a pass read. -/
def Pass.reads {T : Type} (p : Pass T) : List (ℕ × List (T × T)) :=
  p.events.filterMap fun
    | .read layer blocks => some (layer, blocks)
    | .forward .. => none

theorem Pass.mem_reads {T : Type} {p : Pass T} {layer : ℕ} {blocks : List (T × T)} :
    (layer, blocks) ∈ p.reads ↔ .read layer blocks ∈ p.events := by
  unfold reads
  rw [List.mem_filterMap]
  constructor
  · rintro ⟨e, he, heq⟩
    cases e with
    | read _ _ =>
      cases heq
      exact he
    | forward _ _ _ => cases heq
  · exact fun h => ⟨_, h, rfl⟩

/-- A layer read something else than the rows of the sequence. -/
def Serving.Stale (s : Serving Dense) : Prop :=
  ∃ p ∈ s.passes, ∃ r ∈ p.reads, liveRows r.2 ≠ rowsOf sampleRow r.1 p.tokens

instance (s : Serving Dense) : Decidable s.Stale :=
  inferInstanceAs (Decidable (∃ p ∈ s.passes, ∃ r ∈ p.reads,
    liveRows r.2 ≠ rowsOf sampleRow r.1 p.tokens))

def twoBlocks : Config := { oneBlock with maxSeqLen := 32 }

def threeBlocks : Config := { oneBlock with maxSeqLen := 48 }

/-- A request that leaves three blocks of its own in the table: 15 tokens, and 18 decode steps. -/
def decodingRequest : Request where
  prompt := (List.range 15).map fun i => UInt32.ofNat (100 + i)
  completion := (List.range 18).map fun i => UInt32.ofNat (200 + i)

/-- A prompt of 33 tokens. -/
def plainRequest : Request where
  prompt := (List.range 33).map UInt32.ofNat
  completion := []

/-- **A history whose last read is wrong.** The reset returns blocks 0, 1, 2 to the free list, so
    the prompt of 33 tokens gets the table `[2, 1, 0]`. Its slots are 32 to 47, 16 to 31 and 0; the
    run that starts with slot 16, at index 16, takes in the last one. Position 0 then has the row
    of position 32, and position 32 a row of the first request. -/
theorem stale_read : ∃ (history : List (Served Dense)) (c : Cache Dense),
    (requestLts noHeader sampleHash (sampleModel threeBlocks) "m" .f32).Run history c ∧
    (Computes (sampleModel threeBlocks) .f32 sampleRow fun _ _ ids x => x = ids) ∧
    NoCollision sampleHash blockSize (· ∈ [decodingRequest.prompt, plainRequest.prompt]) ∧
    NoSeed sampleHash blockSize (· ∈ [decodingRequest.prompt, plainRequest.prompt]) ∧
    (∀ e ∈ history, e.request.prompt ∈ [decodingRequest.prompt, plainRequest.prompt] ∧
      e.reply = .ok ()) ∧
    ∃ e ∈ history, ∃ p ∈ e.passes, ∃ layer blocks, .read layer blocks ∈ p.events ∧
      liveRows blocks ≠ rowsOf sampleRow layer p.tokens := by
  have hrun : wp (ofExcept (Cache.new threeBlocks .f32) : Prog Unit (Cache Dense))
      (fun fresh _ => fresh.kvs.table.len = 0 ∧
        wp (serve noHeader sampleHash (sampleModel threeBlocks) "m" decodingRequest) (fun _ s₁ =>
          wp (serve noHeader sampleHash (sampleModel threeBlocks) "m" plainRequest) (fun _ s₂ =>
            s₂.Stale) (fun _ _ => False) { cache := s₁.cache, passes := [] })
          (fun _ _ => False) { cache := fresh, passes := [] }) (fun _ _ => False) () := by
    decide +kernel
  obtain ⟨fresh, _, hnew, -, hfirst⟩ := hrun.returns
  obtain ⟨_, s₁, hs₁, hsecond⟩ := hfirst.returns
  obtain ⟨_, s₂, hs₂, p, hp, r, hread, hstale⟩ := hsecond.returns
  have hr : (requestLts noHeader sampleHash (sampleModel threeBlocks) "m" .f32).Run
      [⟨plainRequest, .ok (), s₂.passes⟩, ⟨decodingRequest, .ok (), s₁.passes⟩] s₂.cache :=
    .step (.step (.start (ofExcept_eq_ok.mp hnew).1) hs₁) hs₂
  have hcollide : NoCollision sampleHash blockSize
      (· ∈ [decodingRequest.prompt, plainRequest.prompt]) := by decide +kernel
  have hseed : NoSeed sampleHash blockSize
      (· ∈ [decodingRequest.prompt, plainRequest.prompt]) := by decide +kernel
  refine ⟨_, _, hr, sampleModel_computes rfl rfl, hcollide, hseed, ?_, _, List.mem_cons_self, p, hp,
    r.1, r.2, Pass.mem_reads.mp hread, hstale⟩
  refine List.forall_mem_cons.mpr ⟨⟨?_, rfl⟩, List.forall_mem_cons.mpr ⟨⟨?_, rfl⟩, ?_⟩⟩
  · exact List.mem_cons_of_mem _ List.mem_cons_self
  · exact List.mem_cons_self
  · exact fun _ he => absurd he List.not_mem_nil

set_option synthInstance.maxSize 256 in
/-- Two requests with one prompt: the second takes its first block from the registry and block 1
    from the free list, and reads the rows of the prompt. -/
theorem reads_history_free_matched : ∃ (history : List (Served Dense)) (c : Cache Dense),
    (requestLts noHeader sampleHash (sampleModel twoBlocks) "m" .f32).Run history c ∧
    ∃ e ∈ history, ∃ p ∈ e.passes, p.tokens = samplePrompt ++ [7] ∧
      ∃ layer blocks, .read layer blocks ∈ p.events ∧
        liveRows blocks = rowsOf sampleRow layer p.tokens := by
  have hrun : wp (ofExcept (Cache.new twoBlocks .f32) : Prog Unit (Cache Dense))
      (fun fresh _ => InStep (takenBlocks sampleHash (sampleModel twoBlocks) samplePrompt fresh) ∧
        wp (serve noHeader sampleHash (sampleModel twoBlocks) "m" ⟨samplePrompt, []⟩) (fun _ s₁ =>
          takenBlocks sampleHash (sampleModel twoBlocks) samplePrompt s₁.cache = [1] ∧
          wp (serve noHeader sampleHash (sampleModel twoBlocks) "m" ⟨samplePrompt, [7]⟩)
            (fun _ s₂ => s₂.passes.map (fun p => (p.tokens, p.reads.length)) =
                [(samplePrompt, 1), (samplePrompt ++ [7], 1)])
            (fun _ _ => False) { cache := s₁.cache, passes := [] })
          (fun _ _ => False) { cache := fresh, passes := [] }) (fun _ _ => False) () := by
    decide +kernel
  obtain ⟨fresh, _, hnew, hstep₁, hfirst⟩ := hrun.returns
  obtain ⟨_, s₁, hs₁, htaken, hsecond⟩ := hfirst.returns
  obtain ⟨_, s₂, hs₂, hpasses⟩ := hsecond.returns
  obtain ⟨p, hp, hpass⟩ : ∃ p ∈ s₂.passes, (p.tokens, p.reads.length) = (samplePrompt ++ [7], 1) := by
    rw [← List.mem_map, hpasses]
    exact List.mem_cons_of_mem _ List.mem_cons_self
  obtain ⟨htokens, hreads⟩ := Prod.mk.inj hpass
  have hstep₂ : InStep (takenBlocks sampleHash (sampleModel twoBlocks) samplePrompt s₁.cache) := by
    rw [htaken]
    decide
  have hr : ((requestLts noHeader sampleHash (sampleModel twoBlocks) "m" .f32).restrict fun c e =>
      e.request.prompt ∈ [samplePrompt] ∧
        InStep (takenBlocks sampleHash (sampleModel twoBlocks) e.request.prompt c)).Run
        [⟨⟨samplePrompt, [7]⟩, .ok (), s₂.passes⟩, ⟨⟨samplePrompt, []⟩, .ok (), s₁.passes⟩]
        s₂.cache :=
    .step (.step (.start (ofExcept_eq_ok.mp hnew).1) ⟨hs₁, List.mem_singleton_self _, hstep₁⟩)
      ⟨hs₂, List.mem_singleton_self _, hstep₂⟩
  have hcollide : NoCollision sampleHash blockSize (· ∈ [samplePrompt]) := by decide +kernel
  have hseed : NoSeed sampleHash blockSize (· ∈ [samplePrompt]) := by decide +kernel
  obtain ⟨⟨layer, blocks⟩, hread⟩ := List.exists_mem_of_length_pos (l := p.reads) (by omega)
  have hevent := Pass.mem_reads.mp hread
  exact ⟨_, _, hr.of_restrict, _, List.mem_cons_self, p, hp, htokens, layer, blocks, hevent,
    reads_history_free (sampleModel_computes rfl rfl) hcollide hseed hr _ List.mem_cons_self p hp
      layer blocks hevent⟩

end Flour.Kv
