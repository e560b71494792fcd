/-
  File:      Flour/Kv/Matching.lean
  Subject:   What `match_prefix` finds, after every history of operations.

  * `blockFor` -- the block recorded for a prefix by the oldest registration that begins with it;
    `recordedUnder_prefix` -- where the hash does not collide, the account is this map.
  * **`matchPrefix_longest`** -- there, a match finds exactly the longest cached prefix.
  * `NoForeignRecord` -- no record collides with the continuation of a cached prefix by the record's
    own last block; **`reuse_own_iff`** -- for every hash, matches place only blocks that were
    registered for the tokens of their prompt exactly then.
  * `foreign_reuse` -- two prompts whose first blocks collide are enough to break that.
-/
import Flour.Kv.Records

namespace Flour.Kv

open Candle Flour.Lib Flour.Lib.Prog

/-! ## 1. Without collisions: the longest cached prefix -/

/-- The block recorded for exactly these tokens: that of the oldest registration they begin. -/
def blockFor : List Registration → List UInt32 → Option ℕ
  | [], _ => none
  | reg :: older, tokens =>
    (blockFor older tokens).or
      (if tokens <+: reg.tokens then reg.blocks[tokens.length / blockSize - 1]? else none)

section Longest

variable {blockHash : BlockHash} {prompts : List UInt32 → Prop} {q : List UInt32} {b : ℕ}

theorem length_take_block (hb : b < q.length / blockSize) :
    (q.take ((b + 1) * blockSize)).length = (b + 1) * blockSize := by
  rw [List.length_take, Nat.min_eq_left]
  exact le_trans (Nat.mul_le_mul_right _ hb) (Nat.div_mul_le_self _ _)

theorem take_block_eq_of_prefix {p : List UInt32} (hb : b < q.length / blockSize)
    (h : q.take ((b + 1) * blockSize) <+: p) :
    p.take ((b + 1) * blockSize) = q.take ((b + 1) * blockSize) ∧ b < p.length / blockSize := by
  have hlen := length_take_block hb
  have htake := List.prefix_iff_eq_take.mp h
  rw [hlen] at htake
  refine ⟨htake.symm, ?_⟩
  have hle := h.length_le
  rw [hlen] at hle
  exact (Nat.le_div_iff_mul_le (by decide)).mpr hle

/-- The only block with the hash is the first. -/
theorem firstBlock_eq_of_unique {reg : Registration} {h : UInt64} {n b k : ℕ} (hle : b ≤ k)
    (hlt : k < b + n) (hk : chainHash blockHash blockSize reg.tokens (k + 1) = h)
    (huniq : ∀ j, b ≤ j → j < b + n → chainHash blockHash blockSize reg.tokens (j + 1) = h → j = k) :
    firstBlock blockHash reg h n b = reg.blocks[k]?.map fun id =>
      { tokens := reg.tokens.take ((k + 1) * blockSize), block := id } := by
  induction n generalizing b with
  | zero => omega
  | succ n ih =>
    rw [firstBlock]
    split_ifs with hh
    · rw [huniq b (le_refl b) (by omega) hh]
    · have hne : b ≠ k := fun heq => hh (by rw [heq]; exact hk)
      exact ih (by omega) (by omega) fun j hj hj' => huniq j (by omega) (by omega)

/-- What a registration records under the hash of a prefix. -/
theorem record_of_prefix (hc : NoCollision blockHash blockSize prompts)
    (hs : NoSeed blockHash blockSize prompts) {reg : Registration} (hreg : prompts reg.tokens)
    (hq : prompts q) (hb : b < q.length / blockSize) :
    reg.record blockHash (chainHash blockHash blockSize q (b + 1)) =
      (if q.take ((b + 1) * blockSize) <+: reg.tokens then reg.blocks[b]? else none).map fun id =>
        { tokens := q.take ((b + 1) * blockSize), block := id } := by
  have inj : ∀ j, j < reg.tokens.length / blockSize →
      chainHash blockHash blockSize reg.tokens (j + 1) = chainHash blockHash blockSize q (b + 1) →
      j = b ∧ reg.tokens.take ((j + 1) * blockSize) = q.take ((b + 1) * blockSize) :=
    fun j hj hh => chain_inj hc hs hreg hq hj hb hh
  unfold Registration.record
  split_ifs with hpre
  · obtain ⟨htake, hlt⟩ := take_block_eq_of_prefix hb hpre
    rw [firstBlock_eq_of_unique (Nat.zero_le b) (by omega) (chainHash_congr htake)
      fun j _ hj hh => (inj j (by omega) hh).1, htake]
  · refine firstBlock_eq_none fun j _ hj hh => hpre ?_
    rw [← (inj j (by omega) hh).2]
    exact List.take_prefix _ _

/-- **Without collisions the account is a map from prefixes.** -/
theorem recordedUnder_prefix (hc : NoCollision blockHash blockSize prompts)
    (hs : NoSeed blockHash blockSize prompts) (hq : prompts q) (hb : b < q.length / blockSize)
    {regs : List Registration} (hregs : ∀ reg ∈ regs, prompts reg.tokens) :
    recordedUnder blockHash regs (chainHash blockHash blockSize q (b + 1)) =
      (blockFor regs (q.take ((b + 1) * blockSize))).map fun id =>
        { tokens := q.take ((b + 1) * blockSize), block := id } := by
  induction regs with
  | nil => rfl
  | cons reg older ih =>
    obtain ⟨hreg, holder⟩ := List.forall_mem_cons.mp hregs
    have hidx : (q.take ((b + 1) * blockSize)).length / blockSize - 1 = b := by
      rw [length_take_block hb, Nat.mul_div_cancel _ (by decide), Nat.add_sub_cancel]
    rw [recordedUnder, blockFor, ih holder, record_of_prefix hc hs hreg hq hb, hidx]
    cases blockFor older (q.take ((b + 1) * blockSize)) <;> rfl

theorem exists_of_blockFor {regs : List Registration} {tokens : List UInt32} {id : ℕ}
    (h : blockFor regs tokens = some id) : ∃ reg ∈ regs, tokens <+: reg.tokens := by
  induction regs with
  | nil => cases h
  | cons reg older ih =>
    rcases Option.or_eq_some_iff.mp h with hold | ⟨_, hnew⟩
    · obtain ⟨reg', hmem, hpre⟩ := ih hold
      exact ⟨reg', List.mem_cons_of_mem _ hmem, hpre⟩
    · split_ifs at hnew with hpre
      exact ⟨reg, List.mem_cons_self, hpre⟩

variable {T : Type}

/-- Without collisions a lookup finds the block recorded for the prefix. -/
theorem Accounts.get_prefix {regs : List Registration} {c : KvCache T}
    (h : Accounts blockHash regs c) (hc : NoCollision blockHash blockSize prompts)
    (hs : NoSeed blockHash blockSize prompts) (hq : prompts q)
    (hregs : ∀ reg ∈ regs, prompts reg.tokens) (hb : b < q.length / blockSize) :
    c.registry.get (chainHash blockHash blockSize q (b + 1)) (chunk blockSize q b) =
      blockFor regs (q.take ((b + 1) * blockSize)) := by
  refine Option.ext fun id => ?_
  rw [h.get, recordedUnder_prefix hc hs hq hb hregs]
  constructor
  · rintro ⟨r, hr, _, rfl⟩
    obtain ⟨id, hid, rfl⟩ := Option.map_eq_some_iff.mp hr
    exact hid
  · intro hid
    exact ⟨⟨_, id⟩, by rw [hid]; rfl, lastChunk_take hb, rfl⟩

/-- A prefix of a registered prompt has a block. -/
theorem Accounts.blockFor_ne_none {regs : List Registration} {c : KvCache T}
    (h : Accounts blockHash regs c) (hc : NoCollision blockHash blockSize prompts)
    (hs : NoSeed blockHash blockSize prompts) (hq : prompts q)
    (hregs : ∀ reg ∈ regs, prompts reg.tokens) (hb : b < q.length / blockSize)
    {reg : Registration} (hreg : reg ∈ regs)
    (hpre : q.take ((b + 1) * blockSize) <+: reg.tokens) :
    blockFor regs (q.take ((b + 1) * blockSize)) ≠ none := by
  intro hnone
  obtain ⟨htake, hlt⟩ := take_block_eq_of_prefix hb hpre
  have hcov := h.covered reg hreg b hlt
  rw [chainHash_congr htake, recordedUnder_prefix hc hs hq hb hregs, hnone] at hcov
  exact hcov rfl

/-- **The longest cached prefix.** After every history of operations, and where the hash collides
    neither with the seed nor with itself on the registered prompts and `q`: a match of `q` on a
    reset sequence covers as many blocks as the longest block-aligned prefix of `q` within its
    reusable tokens that begins a prompt registered or a bundle imported since the last clear; and
    each block is the one recorded for exactly the tokens up to its end. A token is always left. -/
theorem matchPrefix_longest [Candle T] {tr : List (Ended T)} {c : Cache T}
    (h : (historyLts T blockHash).Run tr c) (modelId : String) (q : List UInt32)
    (hc : NoCollision blockHash blockSize (· ∈ q :: (registrations tr).map Registration.tokens))
    (hs : NoSeed blockHash blockSize (· ∈ q :: (registrations tr).map Registration.tokens)) :
    ∃ k c₁, resetAndMatch blockHash q c = some (.ok (blockSize * k), c₁) ∧
      IsGreatest {k | blockSize * k ≤
          (PrefixKeyBuilder.new modelId blockSize).reusableTokenCount q.length ∧
        (k = 0 ∨ ∃ reg ∈ registrations tr, q.take (blockSize * k) <+: reg.tokens)} k ∧
      c₁.kvs.table.blocks.length = k ∧
      (∀ b, b < k → ∃ id, c₁.kvs.table.blocks[b]? = some id ∧
        blockFor (registrations tr) (q.take (blockSize * (b + 1))) = some id) ∧
      (q ≠ [] → blockSize * k < q.length) := by
  have hA := accounts_run h
  obtain ⟨c₁, hx, hplaced⟩ := resetAndMatch_placed hA.owned blockHash q
  have hq : q ∈ q :: (registrations tr).map Registration.tokens := List.mem_cons_self
  have hregs : ∀ reg ∈ registrations tr,
      reg.tokens ∈ q :: (registrations tr).map Registration.tokens :=
    fun reg hmem => List.mem_cons_of_mem _ (List.mem_map_of_mem hmem)
  have hreuse := reusableTokenCount_eq modelId q.length
  have hfull := maxReusable_le blockSize q.length
  have hle := hplaced.le
  have hblock : ∀ b, b < c₁.kvs.table.blocks.length → ∃ id, c₁.kvs.table.blocks[b]? = some id ∧
      blockFor (registrations tr) (q.take (blockSize * (b + 1))) = some id := by
    intro b hb
    have hget := List.getElem?_eq_getElem hb
    have hfound := hplaced.found b _ hget
    rw [hA.get_prefix hc hs hq hregs (by omega), Nat.mul_comm] at hfound
    exact ⟨_, hget, hfound⟩
  refine ⟨_, c₁, hx, ⟨⟨?_, ?_⟩, fun k' hk' => ?_⟩, rfl, hblock, fun hne => ?_⟩
  · rw [hreuse, Nat.mul_comm]
    exact Nat.mul_le_mul_right _ hle
  · rcases Nat.eq_zero_or_pos c₁.kvs.table.blocks.length with h0 | hpos
    · exact Or.inl h0
    · obtain ⟨id, _, hid⟩ := hblock (c₁.kvs.table.blocks.length - 1) (by omega)
      rw [Nat.sub_add_cancel hpos] at hid
      exact Or.inr (exists_of_blockFor hid)
  · obtain ⟨hcap, hpre⟩ := hk'
    by_contra hlt
    rw [hreuse, Nat.mul_comm, Nat.mul_le_mul_right_iff (by decide)] at hcap
    obtain ⟨reg, hreg, hpre⟩ := hpre.resolve_left (by omega)
    have hstop := hplaced.stop (by omega)
    rw [hA.get_prefix hc hs hq hregs (by omega)] at hstop
    refine hA.blockFor_ne_none hc hs hq hregs (by omega) hreg ?_ hstop
    -- the first block past the match is part of the longer prefix
    refine List.IsPrefix.trans (List.take_prefix_take_left ?_) hpre
    rw [Nat.mul_comm]
    exact Nat.mul_le_mul_left _ (by omega)
  · rw [Nat.mul_comm]
    exact lt_of_le_of_lt (Nat.mul_le_mul_right _ hle)
      (maxReusable_mul_lt (List.length_pos_iff.mpr hne))

end Longest

set_option synthInstance.maxSize 256 in
/-- A prompt of 17 tokens is registered, and matched again. -/
theorem longest_of_sample : ∃ (tr : List (Ended Dense)) (c c₁ : Cache Dense) (k : ℕ),
    (historyLts Dense sampleHash).Run tr c ∧ registrations tr = [⟨samplePrompt, [0, 1]⟩] ∧
    resetAndMatch sampleHash samplePrompt c = some (.ok (blockSize * k), c₁) ∧
    IsGreatest {k | blockSize * k ≤
        (PrefixKeyBuilder.new "m" blockSize).reusableTokenCount samplePrompt.length ∧
      (k = 0 ∨ ∃ reg ∈ registrations tr, samplePrompt.take (blockSize * k) <+: reg.tokens)} k := by
  have hrun : wp (ofExcept (KvCache.new sampleConfig .f32) : Prog Unit (KvCache Dense))
      (fun kvs _ => True ∧ wp (endAll sampleHash [.allocateKv 17, .registerPrefix samplePrompt] [])
        (fun tr _ => registrations tr = [⟨samplePrompt, [0, 1]⟩]) (fun _ _ => False) ⟨kvs, 32⟩)
      (fun _ _ => False) () := by
    decide +kernel
  obtain ⟨kvs, _, hnew, -, hends⟩ := hrun.returns
  obtain ⟨tr, c, hend, hregs⟩ := hends.returns
  have h := endAll_run (.start ⟨_, _, (ofExcept_eq_ok.mp hnew).1⟩) (by simp) hend
  obtain ⟨k, c₁, hm, hk, _⟩ := matchPrefix_longest h "m" samplePrompt
    (by rw [hregs]; decide +kernel) (by rw [hregs]; decide +kernel)
  exact ⟨tr, c, c₁, k, h, hregs, hm, hk⟩

/-! ## 2. With collisions: whose blocks a match places -/

section Own

variable {T : Type} {blockHash : BlockHash} {regs : List Registration}

/-- The prefix `x` of `b` full blocks is cached: each of its blocks is recorded for `x` up to its
    end. -/
structure CachedPrefix (blockHash : BlockHash) (regs : List Registration) (x : List UInt32)
    (b : ℕ) : Prop where
  length : x.length = b * blockSize
  recorded : ∀ j, j < b → ∃ r, recordedUnder blockHash regs
    (chainHash blockHash blockSize x (j + 1)) = some r ∧ r.tokens = x.take ((j + 1) * blockSize)

/-- No record stands under the hash that a cached prefix has when it is continued by the record's
    own last block, unless it is the record of that continuation. -/
def NoForeignRecord (blockHash : BlockHash) (regs : List Registration) : Prop :=
  ∀ x b r, CachedPrefix blockHash regs x b →
    recordedUnder blockHash regs
      (blockHash (chainHash blockHash blockSize x b) (lastChunk r.tokens)) = some r →
    r.tokens = x ++ lastChunk r.tokens

/-- The physical block `id` was registered, and recorded, as block `b` of a prompt that begins with
    `tokens`. -/
def RegisteredAs (blockHash : BlockHash) (regs : List Registration) (b id : ℕ)
    (tokens : List UInt32) : Prop :=
  ∃ reg ∈ regs, b < reg.tokens.length / blockSize ∧
    reg.tokens.take ((b + 1) * blockSize) = tokens ∧ reg.blocks[b]? = some id ∧
    recordedUnder blockHash regs (chainHash blockHash blockSize reg.tokens (b + 1)) =
      some { tokens, block := id }

/-- A match of `q` places only blocks that were registered for the tokens of `q`. -/
def ReusesOwn (blockHash : BlockHash) (regs : List Registration) (c : Cache T) (q : List UInt32) :
    Prop :=
  ∀ m c₁, resetAndMatch blockHash q c = some (.ok m, c₁) →
    ∀ b id, c₁.kvs.table.blocks[b]? = some id →
      RegisteredAs blockHash regs b id (q.take ((b + 1) * blockSize))

/-- A record of a prefix of `b + 1` blocks is that of block `b` of a registration. -/
theorem registeredAs_of_record {h : UInt64} {r : Record} {b : ℕ}
    (hr : recordedUnder blockHash regs h = some r)
    (hlen : r.tokens.length = (b + 1) * blockSize) :
    RegisteredAs blockHash regs b r.block r.tokens := by
  obtain ⟨reg, hmem, k, hk, hh, hid, htok⟩ := recordedUnder_eq_some hr
  have hlen' := congrArg List.length htok
  rw [length_take_block hk, hlen] at hlen'
  obtain rfl : b = k := Nat.succ_injective (Nat.eq_of_mul_eq_mul_right (by decide) hlen')
  exact ⟨reg, hmem, hk, htok.symm, hid, by rw [hh]; exact hr⟩

/-- **Where no record is foreign**, each placed block is recorded for the prompt's own prefix: by
    induction on the blocks before it. -/
theorem Placed.own {c : KvCache T} (hA : Accounts blockHash regs c)
    (hno : NoForeignRecord blockHash regs) {q : List UInt32} {ids : List ℕ}
    (hp : Placed blockHash q c.registry ids) {b id : ℕ} (hb : ids[b]? = some id) :
    ∃ r, recordedUnder blockHash regs (chainHash blockHash blockSize q (b + 1)) = some r ∧
      r.tokens = q.take ((b + 1) * blockSize) ∧ r.block = id := by
  induction b using Nat.strong_induction_on generalizing id with
  | _ b ih =>
    have hlt : b < ids.length := (List.getElem?_eq_some_iff.mp hb).1
    have hfull := le_trans hp.le (maxReusable_le blockSize q.length)
    obtain ⟨r, hr, hchunk, hid⟩ := (hA.get _ _ _).mp (hp.found b id hb)
    refine ⟨r, hr, ?_, hid⟩
    have hcached : CachedPrefix blockHash regs (q.take (b * blockSize)) b := by
      refine ⟨?_, fun j hj => ?_⟩
      · rw [List.length_take, Nat.min_eq_left]
        exact le_trans (Nat.mul_le_mul_right _ (by omega)) (Nat.div_mul_le_self _ _)
      · have htake : (q.take (b * blockSize)).take ((j + 1) * blockSize) =
            q.take ((j + 1) * blockSize) := by
          rw [List.take_take, Nat.min_eq_left (Nat.mul_le_mul_right _ hj)]
        obtain ⟨r', hr', htok, _⟩ := ih j hj (List.getElem?_eq_getElem (by omega))
        exact ⟨r', by rw [chainHash_congr htake]; exact hr', by rw [htake]; exact htok⟩
    have hself : (q.take (b * blockSize)).take (b * blockSize) = q.take (b * blockSize) := by
      rw [List.take_take, Nat.min_self]
    have hwhole := hno _ b r hcached (by rw [chainHash_congr hself, hchunk]; exact hr)
    rw [hwhole, hchunk, ← take_succ_mul]

/-- A prompt that continues a cached prefix by a recorded block, with a token left. -/
theorem Placed.all {c : KvCache T} (hA : Accounts blockHash regs c) {x t : List UInt32} {b : ℕ}
    {r : Record} (hx : CachedPrefix blockHash regs x b) (ht : t.length = blockSize)
    (hr : recordedUnder blockHash regs (blockHash (chainHash blockHash blockSize x b) t) = some r)
    (hchunk : lastChunk r.tokens = t) {ids : List ℕ}
    (hp : Placed blockHash (x ++ (t ++ [0])) c.registry ids) : b < ids.length := by
  have hlen : (x ++ (t ++ [0])).length = b * blockSize + blockSize + 1 := by
    rw [List.length_append, List.length_append, hx.length, ht]
    rfl
  have hmax : KvCache.maxReusable blockSize (x ++ (t ++ [0])).length = b + 1 := by
    rw [hlen]
    unfold KvCache.maxReusable blockSize
    rw [if_neg (by omega)]
    omega
  have htake : (x ++ (t ++ [0])).take (b * blockSize) = x.take (b * blockSize) :=
    List.take_append_of_le_length hx.length.ge
  by_contra hge
  have hj : ids.length ≤ b := Nat.le_of_not_lt hge
  have hstop := hp.stop (by omega)
  have hfull : ids.length < (x ++ (t ++ [0])).length / blockSize := by
    have := maxReusable_le blockSize (x ++ (t ++ [0])).length
    omega
  have hget : ∀ id, c.registry.get _ _ ≠ some id := fun id hid => by
    rw [hstop] at hid
    cases hid
  rcases Nat.eq_or_lt_of_le hj with heq | hlt
  · -- the recorded block itself
    rw [heq] at hget hfull
    have hch : chunk blockSize (x ++ (t ++ [0])) b = t := by
      unfold chunk
      rw [← hx.length, List.drop_left, ← ht, List.take_left]
    refine hget r.block ((hA.get _ _ _).mpr ⟨r, ?_, by rw [hch]; exact hchunk, rfl⟩)
    rw [chainHash, chainHash_congr htake, hch]
    exact hr
  · -- a block of the cached prefix
    have hpre : (x ++ (t ++ [0])).take ((ids.length + 1) * blockSize) =
        x.take ((ids.length + 1) * blockSize) := by
      refine List.take_append_of_le_length ?_
      rw [hx.length]
      exact Nat.mul_le_mul_right _ hlt
    obtain ⟨r', hr', htok⟩ := hx.recorded _ hlt
    refine hget r'.block ((hA.get _ _ _).mpr ⟨r', ?_, ?_, rfl⟩)
    · rw [chainHash_congr hpre]
      exact hr'
    · rw [htok, ← hpre, lastChunk_take hfull]

/-- **Reuse under collisions.** After every history of operations and for every hash: each match
    places only blocks that were registered for the tokens of its prompt if and only if no record
    collides with the continuation of a cached prefix by the record's last block. -/
theorem reuse_own_iff [Candle T] {tr : List (Ended T)} {c : Cache T}
    (h : (historyLts T blockHash).Run tr c) :
    (∀ q, ReusesOwn blockHash (registrations tr) c q) ↔
      NoForeignRecord blockHash (registrations tr) := by
  have hA := accounts_run h
  constructor
  · intro hall x b r hx hr
    obtain ⟨k, hlen, _⟩ := recordedUnder_chain hr
    have ht : (lastChunk r.tokens).length = blockSize := by
      rw [lastChunk, List.length_drop, hlen, Nat.succ_mul]
      omega
    obtain ⟨c₁, hmatch, hp⟩ := resetAndMatch_placed hA.owned blockHash
      (x ++ (lastChunk r.tokens ++ [0]))
    have hlt := hp.all hA hx ht hr rfl
    have htake : (x ++ (lastChunk r.tokens ++ [0])).take ((b + 1) * blockSize) =
        x ++ lastChunk r.tokens := by
      rw [← List.append_assoc]
      refine List.take_left' ?_
      rw [List.length_append, hx.length, ht, Nat.succ_mul]
    obtain ⟨reg, _, _, htok, _, hrec⟩ := hall _ _ _ hmatch b _ (List.getElem?_eq_getElem hlt)
    rw [htake] at htok hrec
    -- both are records under the hash of the continuation
    have hself : reg.tokens.take (b * blockSize) = x.take (b * blockSize) := by
      have := congrArg (List.take (b * blockSize)) htok
      rwa [List.take_take, Nat.min_eq_left (Nat.mul_le_mul_right _ (Nat.le_succ b)),
        List.take_append_of_le_length hx.length.ge] at this
    have hch : chunk blockSize reg.tokens b = lastChunk r.tokens := by
      have := congrArg (List.drop (b * blockSize)) htok
      rwa [List.drop_take, Nat.succ_mul, Nat.add_sub_cancel_left, ← hx.length, List.drop_left,
        hx.length] at this
    rw [chainHash, chainHash_congr hself, hch, hr] at hrec
    exact congrArg Record.tokens (Option.some.inj hrec)
  · intro hno q m c₁ hmatch b id hb
    obtain ⟨c₂, hmatch', hp⟩ := resetAndMatch_placed hA.owned blockHash q
    rw [hmatch] at hmatch'
    cases hmatch'
    obtain ⟨r, hr, htok, rfl⟩ := hp.own hA hno hb
    have hlt : b < c₁.kvs.table.blocks.length := (List.getElem?_eq_some_iff.mp hb).1
    have hfull := le_trans hp.le (maxReusable_le blockSize q.length)
    rw [← htok]
    exact registeredAs_of_record hr (by rw [htok, length_take_block (by omega)])

end Own

/-- A hash that does not see the order of the tokens of a block. -/
def sumHash : BlockHash := fun parent chunk =>
  chunk.foldl (fun h t => h + t.toUInt64) (parent * 31 + 1)

/-- Two blocks that collide, and a third one. -/
def blockA : List UInt32 := (List.range 16).map UInt32.ofNat
def blockB : List UInt32 := blockA.reverse
def blockD : List UInt32 := List.replicate 16 7

/-- Room for six blocks. -/
def sixBlocks : Config := { sampleConfig with maxSeqLen := 96 }

/-- A prompt that begins with `blockA`, one that begins with `blockB`, and a match of the second
    block of the latter after the former. -/
def promptA : List UInt32 := blockA ++ [99]
def promptB : List UInt32 := blockB ++ blockD ++ [99]
def promptQ : List UInt32 := blockA ++ blockD ++ [99]

def collidingOps : List (Op Dense) :=
  [.allocateKv 17, .registerPrefix promptA, .resetSequence, .allocateKv 33, .registerPrefix promptB]

/-- What they register: the first block of `promptB` finds its hash taken, the second is recorded
    all the same. -/
def collidingRegs : List Registration := [⟨promptB, [1, 2, 3]⟩, ⟨promptA, [0, 1]⟩]

set_option synthInstance.maxSize 256 in
theorem colliding_run : ∃ (tr : List (Ended Dense)) (c c₁ : Cache Dense),
    (historyLts Dense sumHash).Run tr c ∧ registrations tr = collidingRegs ∧
    resetAndMatch sumHash promptQ c = some (.ok 32, c₁) ∧ c₁.kvs.table.blocks = [0, 2] := by
  have hrun : wp (ofExcept (KvCache.new sixBlocks .f32) : Prog Unit (KvCache Dense))
      (fun kvs _ => True ∧ wp (endAll sumHash collidingOps [])
        (fun tr c => registrations tr = collidingRegs ∧ wp (resetAndMatch sumHash promptQ)
          (fun m c₁ => m = 32 ∧ c₁.kvs.table.blocks = [0, 2]) (fun _ _ => False) c)
        (fun _ _ => False) ⟨kvs, 96⟩) (fun _ _ => False) () := by
    decide +kernel
  obtain ⟨kvs, _, hnew, -, hends⟩ := hrun.returns
  obtain ⟨tr, c, hend, hregs, hmatch⟩ := hends.returns
  obtain ⟨m, c₁, hm, rfl, hblocks⟩ := hmatch.returns
  refine ⟨tr, c, c₁, endAll_run (.start ⟨_, _, (ofExcept_eq_ok.mp hnew).1⟩) ?_ hend, hregs, hm,
    hblocks⟩
  simp [collidingOps]

/-- **A collision makes a sequence reuse the blocks of another.** The match of `promptQ` places, at
    index 1, the second block of `promptB`, which was computed after `blockB`; no prompt that was
    registered begins with the 32 tokens it is placed for. -/
theorem foreign_reuse : ∃ (tr : List (Ended Dense)) (c c₁ : Cache Dense),
    (historyLts Dense sumHash).Run tr c ∧ registrations tr = collidingRegs ∧
    resetAndMatch sumHash promptQ c = some (.ok 32, c₁) ∧ c₁.kvs.table.blocks[1]? = some 2 ∧
    ∀ reg ∈ registrations tr, ¬ promptQ.take 32 <+: reg.tokens := by
  obtain ⟨tr, c, c₁, hrun, hregs, hm, hblocks⟩ := colliding_run
  refine ⟨tr, c, c₁, hrun, hregs, hm, by rw [hblocks]; rfl, ?_⟩
  rw [hregs]
  decide

/-- So there is a foreign record. -/
theorem foreign_record : ∃ (tr : List (Ended Dense)) (c : Cache Dense),
    (historyLts Dense sumHash).Run tr c ∧ ¬ NoForeignRecord sumHash (registrations tr) := by
  obtain ⟨tr, c, c₁, hrun, hregs, hm, hblocks⟩ := colliding_run
  refine ⟨tr, c, hrun, fun hno => ?_⟩
  obtain ⟨reg, hmem, _, htok, _⟩ := (reuse_own_iff hrun).mpr hno promptQ 32 c₁ hm 1 2
    (by rw [hblocks]; rfl)
  have hne : ∀ reg ∈ collidingRegs,
      reg.tokens.take ((1 + 1) * blockSize) ≠ promptQ.take ((1 + 1) * blockSize) := by decide
  exact hne reg (hregs ▸ hmem) htok

end Flour.Kv
