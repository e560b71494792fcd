/-
  File:      Flour/Engine/Sampling.lean
  Subject:   `LogitsSampler::sample` of `src/sampling.rs`, over exact rationals.

  * `Idealised` -- what it calls: the softmax, the unstable sort and the generator are parameters.
  * `filtered`, `weights` -- the probabilities after both filters, and renormalised; `sampleIndex`
    -- the index that is drawn from them, before its cast to `u32`.
  * `filtered_rank` -- a rank keeps its probability iff it is below `top_k` and no shorter segment
    reaches `top_p` (`KeptRank`);
  * **`filters_keep_segment`** -- so the tokens of non-zero weight are an initial segment of the
    descending order, with `top_p` the shortest one that reaches it;
  * **`sampleIndex_kept_iff`** -- the drawn index has a positive probability, unless the draw is 0
    and token 0 was removed: `cumulative >= target` holds of 0 before any token was added.
-/
import Flour.Engine.Generate
import Flour.Lib.RunningSum
import Mathlib.Algebra.Order.Field.Basic
import Mathlib.Algebra.Order.Field.Rat
import Mathlib.Algebra.BigOperators.Ring.List
import Mathlib.Data.List.MinMax
import Mathlib.Data.List.Sort
import Mathlib.Order.Bounds.Basic

namespace Flour.LogitsSampler

open Flour.Lib

/-! ## 1. The sampler -/

/-- `probs[idx]`, for indices in range. -/
def prob (probs : List ℚ) (idx : ℕ) : ℚ := probs.getD idx 0

/-- `indices` is what an unstable sort may return: all indices, by descending probability. -/
structure Sorts (indices : List ℕ) (probs : List ℚ) : Prop where
  perm : indices.Perm (List.range probs.length)
  descending : indices.Pairwise fun a b => prob probs b ≤ prob probs a

/-- What the sampler calls, for a generator with states `R`. -/
structure Idealised (R : Type) where
  softmax : List ℚ → List ℚ
  /-- `indices`, after `sort_unstable_by`. -/
  sorted : List ℚ → List ℕ
  /-- `rng.gen_range(0.0..1.0)`. -/
  genRange : R → ℚ × R
  sorts : ∀ probs, Sorts (sorted probs) probs
  genRange_mem : ∀ rng, (genRange rng).1 ∈ Set.Ico 0 1

/-- `probs[idx] = 0.0` for each of the listed indices. -/
def zeroed (probs : List ℚ) (dropped : List ℕ) : List ℚ :=
  dropped.foldl (fun probs idx => probs.set idx 0) probs

def applyTopK (topK : Option ℕ) (indices : List ℕ) (probs : List ℚ) : List ℚ :=
  match topK with
  | some k => zeroed probs (indices.drop k)
  | none => probs

/-- The number of ranks whose running sum first reaches `p`, or all. -/
def cutoff (p : ℚ) (indices : List ℕ) (probs : List ℚ) : ℕ :=
  match reach p (indices.map (prob probs)) 0 with
  | some rank => rank + 1
  | none => indices.length

def applyTopP (topP : Option ℚ) (indices : List ℕ) (probs : List ℚ) : List ℚ :=
  match topP with
  | some p => zeroed probs (indices.drop (cutoff p indices probs))
  | none => probs

/-- The probabilities after both filters. -/
def filtered (topK : Option ℕ) (topP : Option ℚ) (indices : List ℕ) (probs : List ℚ) : List ℚ :=
  applyTopP topP indices (applyTopK topK indices probs)

/-- The same, renormalised. -/
def weights (topK : Option ℕ) (topP : Option ℚ) (indices : List ℕ) (probs : List ℚ) : List ℚ :=
  let probs := filtered topK topP indices probs
  probs.map (· / probs.sum)

/-- The last index of the largest logit. -/
def argMax (logits : List ℚ) : ℕ :=
  ((logits.zipIdx.reverse.argmax Prod.fst).map Prod.snd).getD 0

/-- The index at which the running sum reaches the target, or the last one. -/
def draw (probs : List ℚ) (target : ℚ) : ℕ := (reach target probs 0).getD (probs.length - 1)

/-- The probabilities of a call, before its filters. -/
def Idealised.probs {R : Type} (x : Idealised R) (logits : List ℚ) (params : SamplingParams ℚ ℚ) :
    List ℚ := x.softmax (logits.map (· / params.temperature))

/-- `sample`, before the cast of the index to `u32`. -/
def Idealised.sampleIndex {R : Type} (x : Idealised R) (rng : R) (logits : List ℚ)
    (params : SamplingParams ℚ ℚ) : ℕ × R :=
  if params.temperature ≤ 0 then (argMax logits, rng)
  else
    let probs := x.probs logits params
    let indices := x.sorted probs
    -- a sum of rationals is always finite
    if (filtered params.topK params.topP indices probs).sum ≤ 0 then (argMax logits, rng)
    else
      let (target, rng) := x.genRange rng
      (draw (weights params.topK params.topP indices probs) target, rng)

def Idealised.sample {R : Type} (x : Idealised R) (rng : R) (logits : List ℚ)
    (params : SamplingParams ℚ ℚ) : UInt32 × R :=
  let (idx, rng) := x.sampleIndex rng logits params
  (UInt32.ofNat idx, rng)

/-! ## 2. Orders -/

section Orders

variable {indices : List ℕ} {probs : List ℚ}

theorem Sorts.length (h : Sorts indices probs) : indices.length = probs.length :=
  h.perm.length_eq.trans List.length_range

theorem Sorts.nodup (h : Sorts indices probs) : indices.Nodup := h.perm.nodup_iff.mpr List.nodup_range

theorem Sorts.mem_iff (h : Sorts indices probs) {i : ℕ} : i ∈ indices ↔ i < probs.length :=
  h.perm.mem_iff.trans List.mem_range

/-- Every index has a rank. -/
theorem Sorts.rank (h : Sorts indices probs) {i : ℕ} (hi : i < probs.length) :
    ∃ r : ℕ, indices[r]? = some i := List.mem_iff_getElem?.mp (h.mem_iff.mpr hi)

theorem Sorts.antitone (h : Sorts indices probs) {r s i j : ℕ} (hr : indices[r]? = some i)
    (hs : indices[s]? = some j) (hle : r ≤ s) : prob probs j ≤ prob probs i := by
  obtain ⟨hr', rfl⟩ := List.getElem?_eq_some_iff.mp hr
  obtain ⟨hs', rfl⟩ := List.getElem?_eq_some_iff.mp hs
  rcases Nat.eq_or_lt_of_le hle with heq | hlt
  · subst heq
    exact le_rfl
  · exact List.pairwise_iff_getElem.mp h.descending r s hr' hs' hlt

/-- The sum of any vector of that length, in that order. -/
theorem Sorts.sum_eq (h : Sorts indices probs) {l : List ℚ} (hl : l.length = probs.length) :
    l.sum = (indices.map (prob l)).sum := by
  have hrange : l = (List.range l.length).map (prob l) :=
    List.ext_getElem (by simp) fun i hi _ => by simp [prob, List.getElem?_eq_getElem hi]
  rw [(h.perm.map (prob l)).sum_eq, ← hl, ← hrange]

theorem prob_eq_zero (h : probs.length ≤ i) : prob probs i = 0 := by
  simp [prob, List.getElem?_eq_none h]

@[simp]
theorem zeroed_length (dropped : List ℕ) : (zeroed probs dropped).length = probs.length := by
  induction dropped generalizing probs with
  | nil => rfl
  | cons idx rest ih => exact ih.trans List.length_set

theorem prob_zeroed (dropped : List ℕ) (i : ℕ) :
    prob (zeroed probs dropped) i = if i ∈ dropped then 0 else prob probs i := by
  induction dropped generalizing probs with
  | nil => rfl
  | cons idx rest ih =>
    show prob (zeroed (probs.set idx 0) rest) i = _
    rw [ih]
    by_cases hi : i = idx
    · subst hi
      have hset : prob (probs.set i 0) i = 0 := by
        rw [prob, List.getD_eq_getElem?_getD, List.getElem?_set_self']
        cases probs[i]? <;> rfl
      rw [hset, ite_self, if_pos List.mem_cons_self]
    · have hset : prob (probs.set idx 0) i = prob probs i := by
        rw [prob, List.getD_eq_getElem?_getD, List.getElem?_set_ne (Ne.symm hi), prob,
          List.getD_eq_getElem?_getD]
      simp only [hset, List.mem_cons, hi, false_or]

/-- A rank is among those after the first `m` iff it is not below `m`. -/
theorem mem_drop_iff (hnd : indices.Nodup) {m r i : ℕ} (hr : indices[r]? = some i) :
    i ∈ indices.drop m ↔ m ≤ r := by
  obtain ⟨hlt, rfl⟩ := List.getElem?_eq_some_iff.mp hr
  rw [List.mem_iff_getElem?]
  constructor
  · rintro ⟨j, hj⟩
    rw [List.getElem?_drop] at hj
    obtain ⟨hj', heq⟩ := List.getElem?_eq_some_iff.mp hj
    have hidx := hnd.getElem_inj_iff.mp heq
    omega
  · intro hle
    exact ⟨r - m, by rw [List.getElem?_drop, Nat.add_sub_cancel' hle, List.getElem?_eq_getElem hlt]⟩

/-- Zeroing the ranks from `m` on keeps the probability of the ranks below. -/
theorem prob_zeroed_drop (hnd : indices.Nodup) {m r i : ℕ} (hr : indices[r]? = some i) :
    prob (zeroed probs (indices.drop m)) i = if r < m then prob probs i else 0 := by
  rw [prob_zeroed]
  simp only [mem_drop_iff hnd hr]
  by_cases hlt : r < m
  · rw [if_neg (Nat.not_le_of_lt hlt), if_pos hlt]
  · rw [if_pos (Nat.le_of_not_lt hlt), if_neg hlt]

end Orders

/-! ## 3. What the filters keep -/

/-- The number of ranks that `top_k` leaves of `n`. -/
def topCount (topK : Option ℕ) (n : ℕ) : ℕ := (topK.map (min · n)).getD n

/-- The number of ranks that both filters leave. -/
def segment (topK : Option ℕ) (topP : Option ℚ) (indices : List ℕ) (probs : List ℚ) : ℕ :=
  match topP with
  | some p => min (topCount topK indices.length) (cutoff p indices (applyTopK topK indices probs))
  | none => topCount topK indices.length

/-- A rank stays iff it is below `top_k` and no segment of the ranks above it reaches `top_p`. -/
def KeptRank (topK : Option ℕ) (topP : Option ℚ) (indices : List ℕ) (probs : List ℚ) (r : ℕ) :
    Prop :=
  (∀ k ∈ topK, r < k) ∧ ∀ p ∈ topP, ∀ m, 1 ≤ m → m ≤ r → segSum (prob probs) indices m < p

section Filters

variable {topK : Option ℕ} {topP : Option ℚ} {indices : List ℕ} {probs : List ℚ} {r i : ℕ}

theorem topCount_le (topK : Option ℕ) (n : ℕ) : topCount topK n ≤ n := by
  cases topK with
  | none => exact le_rfl
  | some k => exact min_le_right k n

theorem lt_topCount_iff {n : ℕ} (hr : r < n) : r < topCount topK n ↔ ∀ k ∈ topK, r < k := by
  cases topK with
  | none => simpa [topCount] using hr
  | some k => simp [topCount, hr]

theorem segment_le : segment topK topP indices probs ≤ topCount topK indices.length := by
  cases topP with
  | none => exact le_rfl
  | some p => exact min_le_left _ _

theorem applyTopK_length : (applyTopK topK indices probs).length = probs.length := by
  cases topK with
  | none => rfl
  | some k => exact zeroed_length _

theorem filtered_length : (filtered topK topP indices probs).length = probs.length := by
  cases topP with
  | none => exact applyTopK_length
  | some p => exact (zeroed_length _).trans applyTopK_length

/-- `top_k` keeps the ranks below it. -/
theorem prob_applyTopK (hnd : indices.Nodup) (hr : indices[r]? = some i) :
    prob (applyTopK topK indices probs) i =
      if r < topCount topK indices.length then prob probs i else 0 := by
  have hlt := (List.getElem?_eq_some_iff.mp hr).1
  cases topK with
  | none => exact (if_pos hlt).symm
  | some k =>
    refine (prob_zeroed_drop hnd hr).trans ?_
    simp [topCount, hlt]

/-- **Both filters** keep the ranks below `segment`. -/
theorem filtered_rank (hnd : indices.Nodup) (hr : indices[r]? = some i) :
    prob (filtered topK topP indices probs) i =
      if r < segment topK topP indices probs then prob probs i else 0 := by
  cases topP with
  | none => exact prob_applyTopK hnd hr
  | some p =>
    refine (prob_zeroed_drop hnd hr).trans ?_
    rw [prob_applyTopK hnd hr, segment]
    simp only [lt_min_iff, ite_and]
    split <;> split <;> rfl

/-- A sum over ranks whose probabilities `top_k` has cut. -/
theorem segSum_applyTopK (hnd : indices.Nodup) (m : ℕ) :
    segSum (prob (applyTopK topK indices probs)) indices m =
      segSum (prob probs) indices (min (topCount topK indices.length) m) :=
  segSum_cut (fun _ _ => prob_applyTopK hnd) m

theorem lt_cutoff_iff {p : ℚ} (hr : r < indices.length) :
    r < cutoff p indices probs ↔ ∀ m, 1 ≤ m → m ≤ r → segSum (prob probs) indices m < p := by
  have hseg : ∀ j, 0 + ((indices.map (prob probs)).take (j + 1)).sum =
      segSum (prob probs) indices (j + 1) := fun j => by rw [zero_add, segSum_eq_take]
  rw [cutoff]
  rcases hreach : reach p (indices.map (prob probs)) 0 with _ | rank
  · have hnone := reach_eq_none_iff.mp hreach
    refine iff_of_true hr fun m hm hmr => ?_
    obtain ⟨j, rfl⟩ := Nat.exists_eq_add_of_le' hm
    rw [← hseg]
    exact hnone j (by rw [List.length_map]; omega)
  · obtain ⟨-, hle, hlt⟩ := reach_eq_some_iff.mp hreach
    refine ⟨fun h m hm hmr => ?_, fun h => ?_⟩
    · obtain ⟨j, rfl⟩ := Nat.exists_eq_add_of_le' hm
      rw [← hseg]
      exact hlt j (Nat.lt_of_lt_of_le hmr (Nat.le_of_lt_succ h))
    · by_contra hge
      have hno := h (rank + 1) (Nat.le_add_left 1 rank) (Nat.le_of_not_lt hge)
      rw [← hseg] at hno
      exact absurd hle (not_le_of_gt hno)

/-- **A rank stays** iff it is below `top_k` and no segment above it reaches `top_p`: that the
    running sum is taken over entries already zeroed by `top_k` makes no difference. -/
theorem lt_segment_iff (hnd : indices.Nodup) (hr : r < indices.length) :
    r < segment topK topP indices probs ↔ KeptRank topK topP indices probs r := by
  rw [KeptRank]
  cases topP with
  | none => exact ⟨fun h => ⟨(lt_topCount_iff hr).mp h, fun _ hp => (by cases hp)⟩,
      fun h => (lt_topCount_iff hr).mpr h.1⟩
  | some p =>
    rw [segment, lt_min_iff, lt_topCount_iff hr, lt_cutoff_iff hr]
    refine and_congr_right fun hk => ?_
    have hcount := (lt_topCount_iff hr).mpr hk
    have hsum : ∀ m, m ≤ r → segSum (prob (applyTopK topK indices probs)) indices m =
        segSum (prob probs) indices m := fun m hm => by
      rw [segSum_applyTopK hnd, Nat.min_eq_right (hm.trans (Nat.le_of_lt hcount))]
    constructor
    · intro h q hq m hm hmr
      obtain rfl := Option.some.inj hq
      rw [← hsum m hmr]
      exact h m hm hmr
    · intro h m hm hmr
      rw [hsum m hmr]
      exact h p rfl m hm hmr

end Filters

/-! ## 4. Probabilities -/

/-- A probability vector. -/
structure Distribution (probs : List ℚ) : Prop where
  nonneg : ∀ p ∈ probs, 0 ≤ p
  total : probs.sum = 1

section Probabilities

variable {topK : Option ℕ} {topP : Option ℚ} {indices : List ℕ} {probs : List ℚ}

theorem Distribution.prob_nonneg (h : Distribution probs) (i : ℕ) : 0 ≤ prob probs i := by
  rw [prob, List.getD_eq_getElem?_getD]
  rcases hi : probs[i]? with _ | p
  · exact le_rfl
  · exact h.nonneg p (List.mem_of_getElem? hi)

theorem Distribution.length_pos (h : Distribution probs) : 0 < probs.length := by
  refine List.length_pos_iff.mpr fun hnil => ?_
  have htotal := h.total
  rw [hnil, List.sum_nil] at htotal
  exact absurd htotal zero_ne_one

theorem Distribution.mono (h : Distribution probs) : Monotone (segSum (prob probs) indices) :=
  segSum_mono fun i _ => h.prob_nonneg i

/-- The first rank has a positive probability, and no index a larger one. -/
theorem Distribution.top (h : Distribution probs) (hs : Sorts indices probs) :
    ∃ i, indices[0]? = some i ∧ 0 < prob probs i ∧ ∀ j, prob probs j ≤ prob probs i := by
  have hlen : 0 < indices.length := hs.length ▸ h.length_pos
  have hi := List.getElem?_eq_getElem hlen
  have hmax : ∀ j, prob probs j ≤ prob probs indices[0] := fun j => by
    rcases Nat.lt_or_ge j probs.length with hj | hj
    · obtain ⟨r, hr⟩ := hs.rank hj
      exact hs.antitone hi hr (Nat.zero_le r)
    · rw [prob_eq_zero hj]
      exact h.prob_nonneg _
  refine ⟨indices[0], hi, lt_of_le_of_ne (h.prob_nonneg _) fun hzero => ?_, hmax⟩
  have hnull : probs.sum = 0 := by
    rw [hs.sum_eq rfl]
    refine List.sum_eq_zero fun x hx => ?_
    obtain ⟨j, -, rfl⟩ := List.mem_map.mp hx
    exact le_antisymm (hzero ▸ hmax j) (h.prob_nonneg j)
  exact absurd (hnull.symm.trans h.total) zero_ne_one

/-- The ranks of positive probability are the first ones. -/
theorem Distribution.exists_support (h : Distribution probs) (hs : Sorts indices probs) :
    ∃ z : ℕ, ∀ r i : ℕ, indices[r]? = some i → (prob probs i ≠ 0 ↔ r < z) := by
  have hex : ∃ z, ∀ i, indices[z]? = some i → prob probs i = 0 :=
    ⟨indices.length, fun i hi => by rw [List.getElem?_eq_none le_rfl] at hi; cases hi⟩
  classical
  refine ⟨Nat.find hex, fun r i hr => ⟨fun hne => ?_, fun hlt hzero => ?_⟩⟩
  · by_contra hge
    have hle := Nat.le_of_not_lt hge
    have hj := List.getElem?_eq_getElem (hle.trans_lt (List.getElem?_eq_some_iff.mp hr).1)
    have hzero := Nat.find_spec hex _ hj
    exact hne (le_antisymm (hzero ▸ hs.antitone hj hr hle) (h.prob_nonneg i))
  · exact Nat.find_min hex hlt fun j hj => by
      rw [hr] at hj
      exact Option.some.inj hj ▸ hzero

/-- The sum of a vector that keeps the probabilities of the first `m` ranks. -/
theorem Sorts.sum_cut (hs : Sorts indices probs) {l : List ℚ} {m : ℕ} (hl : l.length = probs.length)
    (hm : m ≤ indices.length)
    (hcut : ∀ r i : ℕ, indices[r]? = some i → prob l i = if r < m then prob probs i else 0) :
    l.sum = segSum (prob probs) indices m := by
  have hsum := segSum_cut hcut indices.length
  rw [segSum, List.take_length, Nat.min_eq_left hm] at hsum
  rw [hs.sum_eq hl, hsum]

theorem segment_pos (hk : ∀ k ∈ topK, 1 ≤ k) (hs : Sorts indices probs) (h : Distribution probs) :
    0 < segment topK topP indices probs :=
  (lt_segment_iff hs.nodup (hs.length ▸ h.length_pos)).mpr
    ⟨hk, fun _ _ _ hm hm' => absurd hm' (Nat.not_le_of_lt hm)⟩

/-- What the filters leave has a positive sum. -/
theorem filtered_sum_pos (topP : Option ℚ) (hk : ∀ k ∈ topK, 1 ≤ k) (hs : Sorts indices probs)
    (h : Distribution probs) : 0 < (filtered topK topP indices probs).sum := by
  have hle : segment topK topP indices probs ≤ indices.length :=
    segment_le.trans (topCount_le topK _)
  rw [hs.sum_cut filtered_length hle fun r i hr => filtered_rank hs.nodup hr]
  obtain ⟨i, hi, hpos, -⟩ := h.top hs
  calc (0 : ℚ) < prob probs i := hpos
    _ = segSum (prob probs) indices 1 := by rw [segSum_succ hi, segSum_zero, zero_add]
    _ ≤ _ := h.mono (segment_pos hk hs h)

/-- Renormalising divides each probability by the sum. -/
theorem prob_weights (topK : Option ℕ) (topP : Option ℚ) (indices : List ℕ) (probs : List ℚ) (i : ℕ) :
    prob (weights topK topP indices probs) i =
      prob (filtered topK topP indices probs) i / (filtered topK topP indices probs).sum := by
  rw [weights, prob, List.getD_eq_getElem?_getD, List.getElem?_map, prob, List.getD_eq_getElem?_getD]
  cases (filtered topK topP indices probs)[i]? with
  | none => exact (zero_div _).symm
  | some p => rfl

end Probabilities

/-! ## 5. The nucleus -/

/-- Weights that keep the first `m` ranks, and drop the others. -/
structure Nucleus (topK : Option ℕ) (topP : Option ℚ) (indices : List ℕ) (probs ws : List ℚ) (m : ℕ) :
    Prop where
  kept : ∀ i, prob ws i ≠ 0 ↔ i ∈ indices.take m
  le : m ≤ topCount topK indices.length
  ordered : ∀ i j, prob ws i = 0 → prob ws j ≠ 0 → prob probs i ≤ prob probs j
  most : ∃ i, prob ws i ≠ 0 ∧ ∀ j, prob probs j ≤ prob probs i
  /-- The shortest segment of the top-k tokens that reaches `top_p`, or all of positive probability. -/
  shortest : ∀ p ∈ topP,
    IsLeast {m' | m' ≤ topCount topK indices.length ∧ p ≤ segSum (prob probs) indices m'} m ∨
      (∀ m', m' ≤ topCount topK indices.length → segSum (prob probs) indices m' < p) ∧
        ∀ i, i ∈ indices.take m ↔
          i ∈ indices.take (topCount topK indices.length) ∧ prob probs i ≠ 0
  all : topP = none → ∀ i, i ∈ indices.take m ↔
    i ∈ indices.take (topCount topK indices.length) ∧ prob probs i ≠ 0
  pos : 0 < segSum (prob probs) indices m
  scaled : ∀ i, prob ws i ≠ 0 → prob ws i = prob probs i / segSum (prob probs) indices m

section Nucleus

variable {topK : Option ℕ} {topP : Option ℚ} {indices : List ℕ} {probs : List ℚ}

theorem mem_take_iff (hnd : indices.Nodup) {m r i : ℕ} (hr : indices[r]? = some i) :
    i ∈ indices.take m ↔ r < m := by
  obtain ⟨hlt, rfl⟩ := List.getElem?_eq_some_iff.mp hr
  rw [List.mem_iff_getElem?]
  constructor
  · rintro ⟨j, hj⟩
    have hjm : j < m := by
      by_contra hge
      rw [List.getElem?_take, if_neg hge] at hj
      cases hj
    rw [List.getElem?_take_of_lt hjm] at hj
    obtain ⟨hj', heq⟩ := List.getElem?_eq_some_iff.mp hj
    exact hnd.getElem_inj_iff.mp heq ▸ hjm
  · intro hlt'
    exact ⟨r, by rw [List.getElem?_take_of_lt hlt', List.getElem?_eq_getElem hlt]⟩

/-- A segment that is not all of the top-k tokens reaches `top_p`. -/
theorem reaches_of_segment_lt (hnd : indices.Nodup) (h : Distribution probs) {p : ℚ}
    (hlt : segment topK (some p) indices probs < topCount topK indices.length) :
    p ≤ segSum (prob probs) indices (segment topK (some p) indices probs) := by
  have hr := hlt.trans_le (topCount_le topK indices.length)
  have hout := (lt_segment_iff hnd hr).not.mp (lt_irrefl _)
  by_contra hno
  refine hout ⟨(lt_topCount_iff hr).mp hlt, fun q hq m _ hm => ?_⟩
  obtain rfl := Option.some.inj hq
  exact (h.mono hm).trans_lt (not_le.mp hno)

theorem Sorts.exists_rank_of_mem_take (hs : Sorts indices probs) {m i : ℕ}
    (hi : i ∈ indices.take m) : ∃ r : ℕ, indices[r]? = some i ∧ r < m := by
  obtain ⟨r, hr⟩ := hs.rank (hs.mem_iff.mp (List.mem_of_mem_take hi))
  exact ⟨r, hr, (mem_take_iff hs.nodup hr).mp hi⟩

/-- `m` is the number of ranks of positive weight. -/
def Positive (topK : Option ℕ) (topP : Option ℚ) (indices : List ℕ) (probs : List ℚ) (m : ℕ) : Prop :=
  ∀ r i : ℕ, indices[r]? = some i →
    (r < m ↔ r < segment topK topP indices probs ∧ prob probs i ≠ 0)

theorem exists_positive (topK : Option ℕ) (topP : Option ℚ) (hs : Sorts indices probs)
    (h : Distribution probs) :
    ∃ m, m ≤ segment topK topP indices probs ∧ Positive topK topP indices probs m := by
  obtain ⟨z, hz⟩ := h.exists_support hs
  exact ⟨min _ z, min_le_left _ _, fun r i hr => by rw [lt_min_iff, hz r i hr]⟩

/-- A filtered probability, by the ranks of positive weight. -/
theorem Positive.prob_filtered {m : ℕ} (hm : Positive topK topP indices probs m)
    (hnd : indices.Nodup) (r i : ℕ) (hr : indices[r]? = some i) :
    prob (filtered topK topP indices probs) i = if r < m then prob probs i else 0 := by
  rw [filtered_rank hnd hr]
  by_cases hzero : prob probs i = 0
  · rw [hzero, ite_self, ite_self]
  · simp only [hm r i hr, and_iff_left hzero]

/-- The tokens of non-zero weight. -/
theorem Positive.weights_ne_zero_iff {m : ℕ} (hm : Positive topK topP indices probs m)
    (hs : Sorts indices probs) (hsum : 0 < (filtered topK topP indices probs).sum) (i : ℕ) :
    prob (weights topK topP indices probs) i ≠ 0 ↔ i ∈ indices.take m := by
  rw [prob_weights, div_ne_zero_iff, and_iff_left hsum.ne']
  rcases Nat.lt_or_ge i probs.length with hi | hi
  · obtain ⟨r, hr⟩ := hs.rank hi
    rw [mem_take_iff hs.nodup hr, hm.prob_filtered hs.nodup r i hr]
    constructor
    · intro hne
      by_contra hge
      exact hne (if_neg hge)
    · intro hlt
      rw [if_pos hlt]
      exact ((hm r i hr).mp hlt).2
  · rw [prob_eq_zero (filtered_length.trans_le hi)]
    exact iff_of_false (fun hne => hne rfl)
      fun hmem => Nat.not_lt_of_le hi (hs.mem_iff.mp (List.mem_of_mem_take hmem))

/-- The tokens of non-zero weight, where `segment` is all of the top-k tokens. -/
theorem Positive.mem_take_iff_of_segment {m : ℕ} (hm : Positive topK topP indices probs m)
    (hs : Sorts indices probs)
    (hseg : segment topK topP indices probs = topCount topK indices.length) (i : ℕ) :
    i ∈ indices.take m ↔
      i ∈ indices.take (topCount topK indices.length) ∧ prob probs i ≠ 0 := by
  by_cases hi : i ∈ indices
  · obtain ⟨r, hr⟩ := hs.rank (hs.mem_iff.mp hi)
    rw [mem_take_iff hs.nodup hr, mem_take_iff hs.nodup hr, hm r i hr, hseg]
  · exact iff_of_false (fun hmem => hi (List.mem_of_mem_take hmem))
      fun hmem => hi (List.mem_of_mem_take hmem.1)

/-- With `top_p`: the shortest segment that reaches it, or none does and all are kept. -/
theorem shortest_segment {m : ℕ} {p : ℚ} (hs : Sorts indices probs) (h : Distribution probs)
    (hp : 0 < p) (hle : m ≤ segment topK (some p) indices probs)
    (hsum : segSum (prob probs) indices (segment topK (some p) indices probs) =
      segSum (prob probs) indices m) :
    IsLeast {m' | m' ≤ topCount topK indices.length ∧ p ≤ segSum (prob probs) indices m'} m ∨
      (∀ m', m' ≤ topCount topK indices.length → segSum (prob probs) indices m' < p) ∧
        segment topK (some p) indices probs = topCount topK indices.length := by
  have hnd := hs.nodup
  by_cases hreach : p ≤ segSum (prob probs) indices m
  · refine Or.inl ⟨⟨hle.trans segment_le, hreach⟩, fun m' hm' => ?_⟩
    by_contra hlt
    have hlt := not_le.mp hlt
    have hr : m' < indices.length := hlt.trans_le ((hle.trans segment_le).trans (topCount_le topK _))
    have hkept := (lt_segment_iff hnd hr).mp (hlt.trans_le hle)
    have hpos : 1 ≤ m' := by
      by_contra hzero
      obtain rfl : m' = 0 := by omega
      exact absurd hm'.2 (not_le_of_gt hp)
    exact absurd hm'.2 (not_le_of_gt (hkept.2 p rfl m' hpos le_rfl))
  · have hall : segment topK (some p) indices probs = topCount topK indices.length := by
      by_contra hne
      exact hreach (hsum ▸ reaches_of_segment_lt hnd h (lt_of_le_of_ne segment_le hne))
    refine Or.inr ⟨fun m' hm' => ?_, hall⟩
    rw [hall] at hsum
    exact (h.mono hm').trans_lt (hsum ▸ not_le.mp hreach)

/-- **What the filters keep**: an initial segment of the descending order, and with `top_p` the
    shortest one that reaches it. Tokens of probability 0 have weight 0 wherever they stand. -/
theorem filters_keep_segment (hs : Sorts indices probs) (h : Distribution probs)
    (hk : ∀ k ∈ topK, 1 ≤ k) (hp : ∀ p ∈ topP, 0 < p) :
    ∃ m, Nucleus topK topP indices probs (weights topK topP indices probs) m := by
  have hnd := hs.nodup
  have hpos := filtered_sum_pos topP hk hs h
  obtain ⟨m, hle, hm⟩ := exists_positive topK topP hs h
  have hcount := hle.trans segment_le
  have hlen := hcount.trans (topCount_le topK _)
  have hsum := hs.sum_cut filtered_length hlen (hm.prob_filtered hnd)
  have hseg : (filtered topK topP indices probs).sum = _ := hs.sum_cut filtered_length
    (segment_le.trans (topCount_le topK _)) fun r i hr => filtered_rank hnd hr
  have hkept := hm.weights_ne_zero_iff hs hpos
  refine ⟨m, hkept, hcount, fun i j hi hj => ?_, ?_, fun p hp' => ?_, fun hnone => ?_,
    hsum ▸ hpos, fun i hi => ?_⟩
  · obtain ⟨s, hs', hlt⟩ := hs.exists_rank_of_mem_take ((hkept j).mp hj)
    rcases Nat.lt_or_ge i probs.length with hin | hout
    · obtain ⟨r, hr⟩ := hs.rank hin
      have hge : m ≤ r := Nat.le_of_not_lt fun hr' => (hkept i).mpr ((mem_take_iff hnd hr).mpr hr') hi
      exact hs.antitone hs' hr (hlt.le.trans hge)
    · rw [prob_eq_zero hout]
      exact h.prob_nonneg j
  · obtain ⟨i, hi, hpos, hmax⟩ := h.top hs
    refine ⟨i, (hkept i).mpr ((mem_take_iff hnd hi).mpr ((hm 0 i hi).mpr ⟨?_, hpos.ne'⟩)), hmax⟩
    exact segment_pos hk hs h
  · subst hp'
    rcases shortest_segment hs h (hp p rfl) hle (hseg.symm.trans hsum) with hleast | ⟨hnone, hall⟩
    · exact Or.inl hleast
    · exact Or.inr ⟨hnone, hm.mem_take_iff_of_segment hs hall⟩
  · subst hnone
    exact hm.mem_take_iff_of_segment hs rfl
  · obtain ⟨r, hr, hlt⟩ := hs.exists_rank_of_mem_take ((hkept i).mp hi)
    rw [prob_weights, hm.prob_filtered hnd r i hr, if_pos hlt, hsum]

/-- Three tokens of which two are kept. -/
theorem filters_keep_segment_two :
    ∃ m, Nucleus (some 2) (some (3 / 5)) [1, 0, 2] [1 / 4, 1 / 2, 1 / 4]
      (weights (some 2) (some (3 / 5)) [1, 0, 2] [1 / 4, 1 / 2, 1 / 4]) m :=
  filters_keep_segment ⟨by decide, by decide +kernel⟩ ⟨by decide +kernel, by decide +kernel⟩
    (by simp) (by decide +kernel)

/-- No segment reaches a `top_p` above 1, but token 1 has no weight: its probability was 0. -/
theorem zero_token_dropped :
    Sorts [0, 1] [1, 0] ∧ Distribution [1, 0] ∧
      (∀ m, m ≤ topCount none 2 → segSum (prob [1, 0]) [0, 1] m < 3 / 2) ∧
      1 ∈ [0, 1].take (topCount none 2) ∧ prob (weights none (some (3 / 2)) [0, 1] [1, 0]) 1 = 0 :=
  ⟨⟨by decide, by decide +kernel⟩, ⟨by decide +kernel, by decide +kernel⟩, by decide +kernel,
    by decide, by decide +kernel⟩

end Nucleus

/-! ## 6. The draw -/

section Draw

variable {ws : List ℚ} {target : ℚ}

theorem draw_lt (hlen : 0 < ws.length) : draw ws target < ws.length := by
  rw [draw]
  rcases hreach : reach target ws 0 with _ | i
  · exact Nat.sub_lt hlen Nat.one_pos
  · exact (reach_eq_some_iff.mp hreach).1

/-- A positive target below the sum is reached at an entry that is not 0. -/
theorem draw_pos (hlen : 0 < ws.length) (hpos : 0 < target) (hlt : target < ws.sum) :
    0 < prob ws (draw ws target) := by
  rw [draw]
  rcases hreach : reach target ws 0 with _ | i
  · have hnone := reach_eq_none_iff.mp hreach (ws.length - 1) (Nat.sub_lt hlen Nat.one_pos)
    rw [Nat.sub_add_cancel hlen, List.take_length, zero_add] at hnone
    exact absurd hnone (not_lt_of_gt hlt)
  · obtain ⟨w, hw, hwpos⟩ := reach_pos hreach hpos
    rw [Option.getD_some, prob, List.getD_eq_getElem?_getD, hw]
    exact hwpos

/-- A target of 0 is reached at once: nothing had to be added. -/
theorem draw_zero (hlen : 0 < ws.length) (h : 0 ≤ prob ws 0) : draw ws 0 = 0 := by
  cases ws with
  | nil => exact absurd hlen (lt_irrefl 0)
  | cons w rest =>
    have hreach : reach 0 (w :: rest) 0 = some 0 := if_pos (show 0 ≤ 0 + w by rwa [zero_add])
    rw [draw, hreach, Option.getD_some]

variable {topK : Option ℕ} {topP : Option ℚ} {indices : List ℕ} {probs : List ℚ}

theorem weights_length : (weights topK topP indices probs).length = probs.length := by
  rw [weights, List.length_map, filtered_length]

/-- The weights sum to 1. -/
theorem weights_sum (hsum : 0 < (filtered topK topP indices probs).sum) :
    (weights topK topP indices probs).sum = 1 := by
  simp only [weights, div_eq_mul_inv]
  rw [List.sum_map_mul_right, List.map_id', mul_inv_cancel₀ hsum.ne']

theorem filtered_nonneg (hs : Sorts indices probs) (h : Distribution probs) (i : ℕ) :
    0 ≤ prob (filtered topK topP indices probs) i := by
  rcases Nat.lt_or_ge i probs.length with hi | hi
  · obtain ⟨r, hr⟩ := hs.rank hi
    rw [filtered_rank hs.nodup hr]
    split
    · exact h.prob_nonneg i
    · exact le_rfl
  · rw [prob_eq_zero (filtered_length.trans_le hi)]

theorem weights_pos_iff (hsum : 0 < (filtered topK topP indices probs).sum) (i : ℕ) :
    0 < prob (weights topK topP indices probs) i ↔ 0 < prob (filtered topK topP indices probs) i := by
  rw [prob_weights, div_pos_iff_of_pos_right hsum]

/-- The filters keep a token of positive probability iff they keep its rank. -/
theorem filtered_pos_iff (hs : Sorts indices probs) {i : ℕ} (hi : i < probs.length)
    (hpos : 0 < prob probs i) :
    0 < prob (filtered topK topP indices probs) i ↔
      ∃ r : ℕ, indices[r]? = some i ∧ KeptRank topK topP indices probs r := by
  obtain ⟨r, hr⟩ := hs.rank hi
  have hlt := (List.getElem?_eq_some_iff.mp hr).1
  have hkept : r < segment topK topP indices probs ↔ KeptRank topK topP indices probs r :=
    lt_segment_iff hs.nodup hlt
  rw [filtered_rank hs.nodup hr]
  constructor
  · intro h
    refine ⟨r, hr, hkept.mp ?_⟩
    by_contra hge
    exact absurd h (by rw [if_neg hge]; exact lt_irrefl 0)
  · rintro ⟨s, hs', hrank⟩
    have hs'' := (List.getElem?_eq_some_iff.mp hs').1
    obtain rfl : s = r := hs.nodup.getElem_inj_iff.mp
      (Option.some.inj ((List.getElem?_eq_getElem hs'').symm.trans
        (hs'.trans (hr.symm.trans (List.getElem?_eq_getElem hlt)))))
    rwa [if_pos (hkept.mpr hrank)]

variable {R : Type}

/-- **Sampling stays inside the filters, but for a draw of 0**: that one returns token 0, kept or
    not. The token fits into `u32` where the vocabulary does. -/
theorem Idealised.sampleIndex_kept_iff (x : Idealised R) (rng : R) (logits : List ℚ)
    (params : SamplingParams ℚ ℚ) (htemperature : 0 < params.temperature)
    (hpos : ∀ p ∈ x.probs logits params, 0 < p) (htotal : (x.probs logits params).sum = 1)
    (hk : ∀ k ∈ params.topK, 1 ≤ k) :
    let probs := x.probs logits params
    let indices := x.sorted probs
    (0 < prob (filtered params.topK params.topP indices probs) (x.sampleIndex rng logits params).1 ↔
      (x.genRange rng).1 ≠ 0 ∨
        ∃ r : ℕ, indices[r]? = some 0 ∧ KeptRank params.topK params.topP indices probs r) ∧
      (probs.length ≤ 2 ^ 32 →
        (x.sample rng logits params).1.toNat = (x.sampleIndex rng logits params).1) := by
  dsimp only
  generalize hprobs : x.probs logits params = probs at *
  have hs := x.sorts probs
  have h : Distribution probs := ⟨fun p hp => (hpos p hp).le, htotal⟩
  have hlen := h.length_pos
  have hsum := filtered_sum_pos params.topP hk hs h
  set ws := weights params.topK params.topP (x.sorted probs) probs with hws
  have hwlen : ws.length = probs.length := weights_length
  have hidx : (x.sampleIndex rng logits params).1 = draw ws (x.genRange rng).1 := by
    rw [Idealised.sampleIndex, if_neg (not_le_of_gt htemperature), hprobs]
    dsimp only
    rw [if_neg (not_le_of_gt hsum)]
  rw [hidx]
  refine ⟨?_, fun hfits => ?_⟩
  · obtain ⟨hge, hlt⟩ := x.genRange_mem rng
    rcases hge.eq_or_lt with hzero | htarget
    · have hfirst : 0 < prob probs 0 := by
        rw [prob, List.getD_eq_getElem _ _ hlen]
        exact hpos _ (List.getElem_mem hlen)
      have hweight : 0 ≤ prob ws 0 := by
        rw [hws, prob_weights]
        exact div_nonneg (filtered_nonneg hs h 0) hsum.le
      rw [← hzero, draw_zero (hwlen ▸ hlen) hweight, or_iff_right fun hne => hne rfl]
      exact filtered_pos_iff hs hlen hfirst
    · refine iff_of_true ((weights_pos_iff hsum _).mp (draw_pos (hwlen ▸ hlen) htarget ?_))
        (Or.inl htarget.ne')
      rw [weights_sum hsum]
      exact hlt
  · have hlt : draw ws (x.genRange rng).1 < probs.length := hwlen ▸ draw_lt (hwlen ▸ hlen)
    show (UInt32.ofNat (x.sampleIndex rng logits params).1).toNat = _
    rw [hidx, UInt32.toNat_ofNat']
    exact Nat.mod_eq_of_lt (hlt.trans_le hfits)

/-- The winner of the logits is one of them. -/
theorem argMax_lt {logits : List ℚ} (h : 0 < logits.length) : argMax logits < logits.length := by
  unfold argMax
  cases hmax : logits.zipIdx.reverse.argmax Prod.fst with
  | none => exact h
  | some winner =>
    have hmem : winner ∈ logits.zipIdx := List.mem_reverse.mp (List.argmax_mem hmax)
    exact List.snd_lt_of_mem_zipIdx hmem

/-- **A sampled token** is the index of a logit. -/
theorem Idealised.sample_lt (x : Idealised R) (rng : R) {logits : List ℚ}
    (params : SamplingParams ℚ ℚ) (hpos : 0 < logits.length) (hfits : logits.length ≤ 2 ^ 32)
    (hprobs : (x.probs logits params).length = logits.length) :
    (x.sample rng logits params).1.toNat < logits.length := by
  have hindex : (x.sampleIndex rng logits params).1 < logits.length := by
    unfold Idealised.sampleIndex
    split
    · exact argMax_lt hpos
    dsimp only
    split
    · exact argMax_lt hpos
    · have hlen : (weights params.topK params.topP (x.sorted (x.probs logits params))
          (x.probs logits params)).length = logits.length := weights_length.trans hprobs
      exact hlen ▸ draw_lt (hlen.symm ▸ hpos)
  show (UInt32.ofNat (x.sampleIndex rng logits params).1).toNat < _
  rw [UInt32.toNat_ofNat', Nat.mod_eq_of_lt (hindex.trans_le hfits)]
  exact hindex

/-- **The sampler stays in the vocabulary**: it draws below the number of the logits. -/
theorem Idealised.stays {O : Type} (x : Idealised R) (s : Sampling O ℚ ℚ R)
    (params : SamplingParams ℚ ℚ) {vocab : ℕ}
    (hsample : ∀ rng logits, s.sample rng logits params = some (x.sample rng logits params))
    (hpenalty : ∀ logits penalty context,
      (s.applyRepeatPenalty logits penalty context).length = logits.length)
    (hprobs : ∀ logits, logits.length = vocab → (x.probs logits params).length = vocab)
    (hpos : 0 < vocab) (hfits : vocab ≤ 2 ^ 32) : s.Stays params vocab fun id => id.toNat < vocab where
  penalty := hpenalty
  sample rng logits h := by
    subst h
    exact ⟨_, _, hsample rng logits, x.sample_lt rng params hpos hfits (hprobs logits rfl)⟩

/-- A sampler whose probabilities and draws are given. -/
def Idealised.given (probs : List ℚ) : Idealised (Set.Ico (0 : ℚ) 1) where
  softmax _ := probs
  sorted probs := (List.range probs.length).insertionSort fun a b => prob probs b ≤ prob probs a
  genRange target := (target.1, target)
  sorts probs := by
    have : Std.Total fun a b => prob probs b ≤ prob probs a :=
      ⟨fun a b => le_total (prob probs b) (prob probs a)⟩
    have : IsTrans ℕ fun a b => prob probs b ≤ prob probs a := ⟨fun _ _ _ hab hbc => hbc.trans hab⟩
    exact ⟨List.perm_insertionSort _ _, List.pairwise_insertionSort _ _⟩
  genRange_mem target := target.2

/-- A sampler of `n` tokens of one probability. -/
def Idealised.uniform (n : ℕ) : Idealised (Set.Ico (0 : ℚ) 1) := .given (List.replicate n (1 / n))

def smallestDraw : Set.Ico (0 : ℚ) 1 := ⟨0, le_rfl, one_pos⟩

/-- Of two tokens, only the second is kept. -/
def greedyParams : SamplingParams ℚ ℚ where
  temperature := 1
  topP := none
  topK := some 1
  maxTokens := 1
  repeatPenalty := 1
  repeatLastN := 64
  seed := 0
  stop := []

theorem sampleIndex_kept_half :
    0 < prob (filtered (some 1) none ((Idealised.given [1 / 4, 3 / 4]).sorted [1 / 4, 3 / 4])
      [1 / 4, 3 / 4])
      ((Idealised.given [1 / 4, 3 / 4]).sampleIndex ⟨1 / 2, by decide +kernel⟩ [0, 1] greedyParams).1 :=
  ((Idealised.given [1 / 4, 3 / 4]).sampleIndex_kept_iff ⟨1 / 2, by decide +kernel⟩ [0, 1] greedyParams
    (by decide +kernel) (by decide +kernel) (by decide +kernel) (by decide)).1.mpr
    (Or.inl (by decide +kernel))

/-- A draw of 0 returns token 0, which `top_k` has removed. -/
theorem removed_token_drawn :
    (0 : ℚ) ∈ Set.Ico 0 1 ∧
      ((Idealised.given [1 / 4, 3 / 4]).sample ⟨0, by decide +kernel⟩ [0, 1] greedyParams).1 = 0 ∧
      prob (filtered (some 1) none ((Idealised.given [1 / 4, 3 / 4]).sorted [1 / 4, 3 / 4])
        [1 / 4, 3 / 4]) 0 = 0 :=
  ⟨by decide +kernel, by decide +kernel, by decide +kernel⟩

end Draw

end Flour.LogitsSampler
