/-
  File:      Flour/Backend/Cpu.lean
  Subject:   The attention kernels: `repeat_kv`, `causal_attention`, `paged_attention`.

  * `repeatKv`, `maskedFill`, `causalAttention`, `pagedAttention` -- the functions as written; a
    panic is an error here. `Running.absorb` is the body of the kernel's loop.
  * `score`, `visible` -- the scaled score of a query and a position, and `-∞` when the position is
    hidden.
  * `causalAttention_entries` -- the dense kernel computes softmax averages of the visible scores.
  * `Running.At` -- the loop invariant: the running tensors stand, row by row, for the positions
    absorbed so far; `absorb_at` is its step, `absorbAll_at` the whole loop.
  * `pagedAttention_eq_causalAttention` -- **the kernels agree**, however the K/V sequence is cut
    into blocks, and every step subtracts and divides by numbers for which that is defined.
-/
import Flour.Backend.Tensor
import Flour.Lib.Except
import Mathlib.Analysis.Complex.Exponential
import Mathlib.Data.List.GetD

namespace Flour.Backend

open Flour.Kv (DType)
open Flour.Lib
open ExactCandle

/-! ## 1. The functions -/

section Kernels

variable {K T : Type} [ExactCandle K T]

/-- Every K/V head repeated `nRep` times. -/
def repeatKv (x : T) (nRep : ℕ) : Except String T :=
  if nRep = 1 then .ok x
  else match dims x with
    | [b, nKvHeads, seqLen, headDim] => do
      let x ← unsqueeze x 2
      let x ← expand x [b, nKvHeads, nRep, seqLen, headDim]
      reshape x [b, nKvHeads * nRep, seqLen, headDim]
    | _ => .error (rankError x)

def maskedFill (onFalse mask : T) (onTrue : WithBot K) : Except String T := do
  let onTrue ← new onTrue
  let onTrue ← toDtype onTrue (dtype onFalse)
  let onTrue ← broadcastAs onTrue (dims mask)
  whereCond mask onTrue onFalse

/-- `(q.matmul(&k.transpose(2, 3)?.contiguous()?)? * scale)?`, as both kernels have it. -/
def scaledScores (q k : T) (scale : K) : Except String T := do
  let k ← transpose k 2 3
  let k ← contiguous k
  let att ← matmul q k
  mulScalar att scale

/-- Scaled dot-product attention with an optional mask, nonzero = masked out. -/
def causalAttention (q k v : T) (mask : Option T) (scale : K) : Except String T := do
  let att ← scaledScores q k scale
  let att ← match mask with
    | some mask => do
      let mask ← broadcastAs mask (dims att)
      maskedFill att mask ⊥
    | none => pure att
  let weights ← toDtype att .f32
  let weights ← softmaxLastDim weights
  let weights ← toDtype weights (dtype att)
  let v ← contiguous v
  matmul weights v

/-- `t.dims()[2]`. -/
def seqLen (t : T) : Except String ℕ :=
  match (dims t)[2]? with
  | some n => .ok n
  | none => .error "index out of bounds"

/-- The running state of the online softmax, one scalar for each batch, head and query. -/
structure Running (T : Type) where
  runningMax : T
  runningSum : T
  acc : T
  kvStart : ℕ

def Running.start (bSz numHeads seqQ headDim : ℕ) : Except String (Running T) := do
  let runningMax ← full ⊥ [bSz, numHeads, seqQ, 1]
  let runningSum ← zeros [bSz, numHeads, seqQ, 1] .f32
  let acc ← zeros [bSz, numHeads, seqQ, headDim] .f32
  return ⟨runningMax, runningSum, acc, 0⟩

/-- One for each position of a block that is in the future of a query, row by row. -/
def blockMask (seqQ blockN kvStart offset : ℕ) : List ℕ :=
  (List.range seqQ).flatMap fun i =>
    (List.range blockN).map fun j => if kvStart + j > offset + i then 1 else 0

/-- The scores of a block, `-∞` where a position is in the future of a query. -/
def blockScores (q k : T) (scale : K) (seqQ blockN kvStart offset : ℕ) : Except String T := do
  let scores ← scaledScores q k scale
  let scores ← toDtype scores .f32
  let mask ← fromSlice (blockMask seqQ blockN kvStart offset) [seqQ, blockN]
  let mask ← broadcastAs mask (dims scores)
  maskedFill scores mask ⊥

/-- The running state rescaled onto the new maximum, and the block's share added. -/
def Running.update (r : Running T) (scores v : T) (blockN : ℕ) : Except String (Running T) := do
  let blockMax ← maxKeepdim scores
  let newMax ← maximum r.runningMax blockMax
  let correction ← broadcastSub r.runningMax newMax
  let correction ← exp correction
  let probs ← broadcastSub scores newMax
  let probs ← exp probs
  let rescaledSum ← broadcastMul r.runningSum correction
  let probsSum ← sumKeepdim probs
  let runningSum ← add rescaledSum probsSum
  let rescaledAcc ← broadcastMul r.acc correction
  let v ← contiguous v
  let v ← toDtype v .f32
  let weighted ← matmul probs v
  let acc ← add rescaledAcc weighted
  return ⟨newMax, runningSum, acc, r.kvStart + blockN⟩

/-- The body of the loop: one block is folded into the running state. -/
def Running.absorb (q : T) (nRep : ℕ) (scale : K) (seqQ offset : ℕ) (r : Running T)
    (kv : T × T) : Except String (Running T) := do
  let blockN ← seqLen kv.1
  let k ← repeatKv kv.1 nRep
  let v ← repeatKv kv.2 nRep
  let scores ← blockScores q k scale seqQ blockN r.kvStart offset
  r.update scores v blockN

/-- The kernel over the blocks of the K/V sequence. -/
def pagedAttention (q : T) (blocks : List (T × T)) (nRep : ℕ) (scale : K) : Except String T :=
  match dims q with
  | [bSz, numHeads, seqQ, headDim] => do
    let lens ← blocks.mapM fun kv => seqLen kv.1
    let kvLen := lens.sum
    if kvLen < seqQ then .error "attempt to subtract with overflow"
    else do
      let offset := kvLen - seqQ
      let r ← Running.start bSz numHeads seqQ headDim
      let r ← blocks.foldlM (Running.absorb q nRep scale seqQ offset) r
      let out ← broadcastDiv r.acc r.runningSum
      toDtype out (dtype q)
  | _ => .error (rankError q)

end Kernels

/-! ## 2. Parts -/

theorem length_blockMask (seqQ blockN kvStart offset : ℕ) :
    (blockMask seqQ blockN kvStart offset).length = seqQ * blockN := by
  simp [blockMask]

theorem getD_blockMask {seqQ blockN kvStart offset i j : ℕ} (hi : i < seqQ) (hj : j < blockN) :
    (blockMask seqQ blockN kvStart offset).getD (i * blockN + j) 0 =
      if kvStart + j > offset + i then 1 else 0 := by
  induction seqQ with
  | zero => omega
  | succ n ih =>
    have hlen := length_blockMask n blockN kvStart offset
    unfold blockMask at ih hlen ⊢
    rw [List.range_succ, List.flatMap_append, List.flatMap_singleton]
    rcases Nat.lt_succ_iff_lt_or_eq.mp hi with hlt | rfl
    · have hin : i * blockN + j < n * blockN :=
        calc i * blockN + j < i * blockN + blockN := by omega
          _ = (i + 1) * blockN := (Nat.succ_mul i blockN).symm
          _ ≤ n * blockN := Nat.mul_le_mul_right blockN hlt
      rw [List.getD_append _ _ _ _ (hlen ▸ hin)]
      exact ih hlt
    · rw [List.getD_append_right _ _ _ _ (by omega), hlen, Nat.add_sub_cancel_left]
      simp [hj]

theorem seqLen_entries {K T : Type} [ExactCandle K T] {t : T} {dt : DType} {a b c d : ℕ}
    {f : ℕ → ℕ → ℕ → ℕ → WithBot K} (h : Entries t dt a b c d f) : seqLen t = .ok c := by
  unfold seqLen
  rw [h.dims]
  rfl

section Parts

variable {K T : Type} [Field K] [LinearOrder K] [HasExp K] [ExactCandle K T]
  [LawfulExactCandle K T]

theorem toDtype_entries {t : T} {dt dt' : DType} {a b c d : ℕ} {f : ℕ → ℕ → ℕ → ℕ → WithBot K}
    (h : Entries t dt a b c d f) (hdt : IsFloat dt') :
    ∃ t', toDtype t dt' = .ok t' ∧ Entries t' dt' a b c d f := by
  obtain ⟨t', ht', hd, hdt', he⟩ := LawfulExactCandle.toDtype_float (K := K) t hdt
  exact ⟨t', ht', hd.trans h.dims, hdt', fun i j k l hi hj hk hl =>
    (he _).trans (h.elem i j k l hi hj hk hl)⟩

theorem contiguous_entries {t : T} {dt : DType} {a b c d : ℕ} {f : ℕ → ℕ → ℕ → ℕ → WithBot K}
    (h : Entries t dt a b c d f) :
    ∃ t', contiguous t = .ok t' ∧ Entries t' dt a b c d f := by
  obtain ⟨t', ht', hd, hdt, he⟩ := LawfulExactCandle.contiguous_copy (K := K) t
  exact ⟨t', ht', hd.trans h.dims, hdt.trans h.dtype, fun i j k l hi hj hk hl =>
    (he _).trans (h.elem i j k l hi hj hk hl)⟩

/-- Query head `j` reads K/V head `j / nRep`. -/
theorem repeatKv_entries {x : T} {dt : DType} {b h n d nRep : ℕ}
    {f : ℕ → ℕ → ℕ → ℕ → WithBot K} (hx : Entries x dt b h n d f) (hrep : 1 ≤ nRep) :
    ∃ t, repeatKv x nRep = .ok t ∧
      Entries t dt b (h * nRep) n d fun i j k l => f i (j / nRep) k l := by
  unfold repeatKv
  by_cases hone : nRep = 1
  · subst hone
    refine ⟨x, rfl, ?_⟩
    simpa only [Nat.mul_one, Nat.div_one] using hx
  · obtain ⟨u, hu, hud, hut, hue⟩ := LawfulExactCandle.unsqueeze_two (K := K) hx.dims
    obtain ⟨w, hw, hwd, hwt, hwe⟩ := LawfulExactCandle.expand_two (K := K) nRep hud
    obtain ⟨t, ht, htd, htt, hte⟩ := LawfulExactCandle.reshape_merge (K := K) hwd
    refine ⟨t, ?_, htd, htt.trans (hwt.trans (hut.trans hx.dtype)), fun i j k l hi hj hk hl => ?_⟩
    · rw [if_neg hone, hx.dims]
      show (unsqueeze x 2 >>= _) = _
      rw [hu]
      show (expand u _ >>= _) = _
      rw [hw]
      exact ht
    · have hq : j / nRep < h := Nat.div_lt_of_lt_mul (by rwa [Nat.mul_comm] at hj)
      have hr : j % nRep < nRep := Nat.mod_lt j hrep
      have hjeq : j / nRep * nRep + j % nRep = j := Nat.div_add_mod' j nRep
      calc elem t [i, j, k, l] = elem t [i, j / nRep * nRep + j % nRep, k, l] := by rw [hjeq]
        _ = elem w [i, j / nRep, j % nRep, k, l] := hte i _ _ k l hi hq hr hk hl
        _ = elem u [i, j / nRep, 0, k, l] := hwe i _ _ k l hi hq hr hk hl
        _ = elem x [i, j / nRep, k, l] := hue i _ k l
        _ = f i (j / nRep) k l := hx.elem i _ k l hi hq hk hl

/-- Filling with `-∞` where the mask is not zero. -/
theorem maskedFill_entries {x m : T} {dt : DType} {a b c d : ℕ}
    {f g : ℕ → ℕ → ℕ → ℕ → WithBot K} (hx : Entries x dt a b c d f)
    (hm : Entries m .u8 a b c d g) (hdt : IsFloat dt) :
    ∃ t, maskedFill x m ⊥ = .ok t ∧ Entries t dt a b c d fun i j k l =>
      if g i j k l = ((0 : K) : WithBot K) then f i j k l else ⊥ := by
  obtain ⟨u, hu, hud, -, hue⟩ := LawfulExactCandle.new_result (K := K) (T := T) ⊥
  obtain ⟨w, hw, hwd, hwt, hwe⟩ := LawfulExactCandle.toDtype_float (K := K) u hdt
  obtain ⟨y, hy, hye⟩ :=
    LawfulExactCandle.broadcastAs_scalar (K := K) (hwd.trans hud) a b c d
  rw [hwt, hwe, hue] at hye
  obtain ⟨t, ht, hte⟩ := LawfulExactCandle.whereCond_result hm hye hx
  refine ⟨t, ?_, hte⟩
  unfold maskedFill
  rw [hu, hx.dtype, hm.dims]
  show (toDtype u dt >>= _) = _
  rw [hw]
  show (broadcastAs w _ >>= _) = _
  rw [hy]
  exact ht

/-- The scaled score of query `k` and position `p`. -/
def score (qf kf : ℕ → ℕ → ℕ → ℕ → K) (headDim : ℕ) (scale : K) (i j k p : ℕ) : K :=
  (∑ c ∈ Finset.range headDim, qf i j k c * kf i j p c) * scale

theorem scaledScores_entries {q k : T} {dt : DType} {b h n m d : ℕ}
    {qf kf : ℕ → ℕ → ℕ → ℕ → K} (scale : K) (hdt : IsFloat dt)
    (hq : Entries q dt b h n d fun i j k l => qf i j k l)
    (hk : Entries k dt b h m d fun i j k l => kf i j k l) :
    ∃ t, scaledScores q k scale = .ok t ∧ Entries t dt b h n m fun i j k p =>
      (score qf kf d scale i j k p : K) := by
  obtain ⟨u, hu, hue⟩ := LawfulExactCandle.transpose_last hk
  obtain ⟨w, hw, hwe⟩ := contiguous_entries hue
  obtain ⟨y, hy, hye⟩ := LawfulExactCandle.matmul_result hdt hq hwe
  obtain ⟨t, ht, hte⟩ := LawfulExactCandle.mulScalar_result scale hdt hye
  refine ⟨t, ?_, hte⟩
  unfold scaledScores
  rw [hu]
  show (contiguous u >>= _) = _
  rw [hw]
  show (matmul q w >>= _) = _
  rw [hy]
  exact ht

end Parts

/-! ## 3. Blocks -/

section Blocks

variable {K T : Type} [ExactCandle K T]

/-- The blocks cut the positions from `start` up to `stop` of the K/V sequence `kf`, `vf` into runs
    of any sizes, none of them empty. -/
inductive Splits (dt : DType) (b h d : ℕ) (kf vf : ℕ → ℕ → ℕ → ℕ → K) :
    ℕ → ℕ → List (T × T) → Prop
  | nil (start : ℕ) : Splits dt b h d kf vf start start []
  | cons {start blockN stop : ℕ} {k v : T} {rest : List (T × T)} (hn : 0 < blockN)
      (hk : Entries k dt b h blockN d fun i j p l => kf i j (start + p) l)
      (hv : Entries v dt b h blockN d fun i j p l => vf i j (start + p) l)
      (hrest : Splits dt b h d kf vf (start + blockN) stop rest) :
      Splits dt b h d kf vf start stop ((k, v) :: rest)

theorem Splits.lens {dt : DType} {b h d start stop : ℕ} {kf vf : ℕ → ℕ → ℕ → ℕ → K}
    {blocks : List (T × T)} (hs : Splits dt b h d kf vf start stop blocks) :
    ∃ lens : List ℕ, (blocks.mapM fun kv => seqLen kv.1) = .ok lens ∧ start + lens.sum = stop := by
  induction hs with
  | nil start => exact ⟨[], rfl, rfl⟩
  | cons _ hk _ _ ih =>
    obtain ⟨lens, hlens, hsum⟩ := ih
    refine ⟨_ :: lens, ?_, by rw [List.sum_cons, ← Nat.add_assoc, hsum]⟩
    simp only [List.mapM_cons, seqLen_entries hk, hlens, ok_bind]
    rfl

/-- A first part of the blocks cuts a first part of the sequence. -/
theorem Splits.initial {dt : DType} {b h d start stop : ℕ} {kf vf : ℕ → ℕ → ℕ → ℕ → K}
    {done rest : List (T × T)} (hs : Splits dt b h d kf vf start stop (done ++ rest)) :
    ∃ mid, Splits dt b h d kf vf start mid done ∧ (done ≠ [] → start < mid) := by
  induction done generalizing start with
  | nil => exact ⟨start, .nil start, fun h => absurd rfl h⟩
  | cons kv done ih =>
    cases hs with
    | cons hn hk hv hrest =>
      obtain ⟨mid, hmid, hlt⟩ := ih hrest
      refine ⟨mid, .cons hn hk hv hmid, fun _ => ?_⟩
      cases hmid with
      | nil => omega
      | cons => exact lt_trans (by omega) (hlt (by simp))

end Blocks

/-! ## 4. The dense kernel -/

section Attention

variable {K T : Type} [Field K] [LinearOrder K] [HasExp K] [ExactCandle K T]
  [LawfulExactCandle K T]

/-- The score of query `k` and position `p`, hidden when `p` is in the query's future. -/
def visible (qf kf : ℕ → ℕ → ℕ → ℕ → K) (headDim offset : ℕ) (scale : K) (i j k p : ℕ) :
    WithBot K :=
  if p > offset + k then ⊥ else ((score qf kf headDim scale i j k p : K) : WithBot K)

omit [LinearOrder K] [HasExp K] in
theorem visible_zero (qf kf : ℕ → ℕ → ℕ → ℕ → K) (headDim offset : ℕ) (scale : K) (i j k : ℕ) :
    visible qf kf headDim offset scale i j k 0 ≠ ⊥ := by
  unfold visible
  rw [if_neg (by omega)]
  exact WithBot.coe_ne_bot

/-- **The dense kernel** computes, for every query and channel, the softmax average of the values
    under the visible scores. -/
theorem causalAttention_entries [IsStrictOrderedRing K]
    (hexp : IsExponential (HasExp.exp : K → K)) {q k v mask : T} {dt : DType}
    {b h n m d offset : ℕ} {qf : ℕ → ℕ → ℕ → ℕ → K} (kf vf : ℕ → ℕ → ℕ → ℕ → K) (scale : K)
    (hdt : IsFloat dt) (hq : Entries q dt b h n d fun i j k l => qf i j k l)
    (hk : Entries k dt b h m d fun i j k l => kf i j k l)
    (hv : Entries v dt b h m d fun i j k l => vf i j k l) (hm : 0 < m)
    (hmd : dims mask = [n, m]) (hmt : dtype mask = .u8)
    (hme : ∀ i p, i < n → p < m →
      (elem mask [i, p] ≠ ((0 : K) : WithBot K) ↔ p > offset + i)) :
    ∃ t, causalAttention q k v (some mask) scale = .ok t ∧
      Entries t dt b h n d fun i j k l =>
        (softmaxMean HasExp.exp (visible qf kf d offset scale i j k) (fun p => vf i j p l) m : K) := by
  obtain ⟨att, hatt, eatt⟩ := scaledScores_entries scale hdt hq hk
  obtain ⟨wide, hwide, ewide⟩ := LawfulExactCandle.broadcastAs_matrix (K := K) hmd b h
  rw [hmt] at ewide
  obtain ⟨att', hatt', eatt'⟩ := maskedFill_entries eatt ewide hdt
  have evis : Entries att' dt b h n m (visible qf kf d offset scale) := by
    refine eatt'.congr fun i j k p _ _ hk hp => ?_
    unfold visible
    by_cases hfut : p > offset + k
    · rw [if_pos hfut, if_neg ((hme k p hk hp).mpr hfut)]
    · rw [if_neg hfut, if_pos (not_not.mp fun hne => hfut ((hme k p hk hp).mp hne))]
  obtain ⟨w, hw, ew⟩ := toDtype_entries evis isFloat_f32
  obtain ⟨w', hw', ew'⟩ := LawfulExactCandle.softmaxLastDim_result isFloat_f32 ew fun i j k _ _ _ =>
    (hexp.sum_pos hm (visible_zero qf kf d offset scale i j k)).ne'
  obtain ⟨w'', hw'', ew''⟩ := toDtype_entries ew' hdt
  obtain ⟨v', hv', ev'⟩ := contiguous_entries hv
  obtain ⟨t, ht, et⟩ := LawfulExactCandle.matmul_result hdt ew'' ev'
  refine ⟨t, ?_, et.congr fun i j k l _ _ _ _ => ?_⟩
  · unfold causalAttention
    rw [hatt]
    show (broadcastAs mask (dims att) >>= _) = _
    rw [eatt.dims, hwide]
    show (maskedFill att wide ⊥ >>= _) = _
    rw [hatt']
    show (toDtype att' .f32 >>= _) = _
    rw [hw]
    show (softmaxLastDim w >>= _) = _
    rw [hw']
    show (toDtype w' (dtype att') >>= _) = _
    rw [evis.dtype, hw'']
    show (contiguous v >>= _) = _
    rw [hv']
    exact ht
  · rw [sum_div_mul_eq_softmaxMean]

/-! ## 5. The loop -/

/-- **The loop invariant.** Row by row, the running tensors stand for the positions before
    `start`; once there is one, the running maximum is a number. -/
def Running.At (S : ℕ → ℕ → ℕ → ℕ → WithBot K) (V : ℕ → ℕ → ℕ → ℕ → K) (b h n d start : ℕ)
    (r : Running T) : Prop :=
  r.kvStart = start ∧ ∃ (M : ℕ → ℕ → ℕ → WithBot K) (L : ℕ → ℕ → ℕ → K)
    (A : ℕ → ℕ → ℕ → ℕ → K),
    Entries r.runningMax .f32 b h n 1 (fun i j k _ => M i j k) ∧
    Entries r.runningSum .f32 b h n 1 (fun i j k _ => L i j k) ∧
    Entries r.acc .f32 b h n d (fun i j k l => A i j k l) ∧
    ∀ i j k, i < b → j < h → k < n → (0 < start → M i j k ≠ ⊥) ∧
      ∀ l, Streamed HasExp.exp (S i j k) (fun p => V i j p l) start (M i j k) (L i j k) (A i j k l)

theorem start_at (S : ℕ → ℕ → ℕ → ℕ → WithBot K) (V : ℕ → ℕ → ℕ → ℕ → K) (b h n d : ℕ) :
    ∃ r : Running T, Running.start b h n d = .ok r ∧ r.At S V b h n d 0 := by
  obtain ⟨m, hm, em⟩ := LawfulExactCandle.full_result (T := T) (⊥ : WithBot K) b h n 1
  obtain ⟨s, hs, es⟩ := LawfulExactCandle.zeros_result (K := K) (T := T) .f32 b h n 1
  obtain ⟨a, ha, ea⟩ := LawfulExactCandle.zeros_result (K := K) (T := T) .f32 b h n d
  refine ⟨⟨m, s, a, 0⟩, ?_, rfl, _, fun _ _ _ => 0, fun _ _ _ _ => 0, em, es, ea,
    fun i j k _ _ _ => ⟨fun h0 => absurd h0 (lt_irrefl 0), fun l => Streamed.empty⟩⟩
  unfold Running.start
  rw [hm, hs, ha]
  rfl

/-- The masked scores of a block are the visible scores of its positions. -/
theorem blockScores_entries {q k : T} {dt : DType} {b h seqQ d blockN start : ℕ} (offset : ℕ)
    {qf : ℕ → ℕ → ℕ → ℕ → K} (kf : ℕ → ℕ → ℕ → ℕ → K) (scale : K) (hdt : IsFloat dt)
    (hq : Entries q dt b h seqQ d fun i j k l => qf i j k l)
    (hk : Entries k dt b h blockN d fun i j p l => kf i j (start + p) l) :
    ∃ t, blockScores q k scale seqQ blockN start offset = .ok t ∧
      Entries t .f32 b h seqQ blockN fun i j k p =>
        visible qf kf d offset scale i j k (start + p) := by
  obtain ⟨s, hs, es⟩ := scaledScores_entries scale hdt hq hk
  obtain ⟨s', hs', es'⟩ := toDtype_entries es isFloat_f32
  obtain ⟨m, hm, hmd, hmt, hme⟩ := LawfulExactCandle.fromSlice_result (K := K) (T := T)
    (length_blockMask seqQ blockN start offset)
  obtain ⟨m', hm', em'⟩ := LawfulExactCandle.broadcastAs_matrix (K := K) hmd b h
  rw [hmt] at em'
  obtain ⟨t, ht, et⟩ := maskedFill_entries es' em' rfl
  refine ⟨t, ?_, et.congr fun i j k p _ _ hk hp => ?_⟩
  · simp only [blockScores, hs, hs', hm, es'.dims, hm', ht, ok_bind]
  · rw [hme k p hk hp, getD_blockMask hk hp]
    unfold visible
    by_cases hfut : start + p > offset + k
    · rw [if_pos hfut, if_pos hfut, Nat.cast_one, if_neg]
      exact fun h10 => one_ne_zero (WithBot.coe_inj.mp h10)
    · rw [if_neg hfut, if_neg hfut, Nat.cast_zero, if_pos rfl]
      rfl

/-- **The update.** Given the scores and values of the next `blockN` positions, the rescaled state
    stands for these positions too. -/
theorem update_at (hexp : IsExponential (HasExp.exp : K → K)) {r : Running T} {scores v : T}
    {dt : DType} {b h n d blockN start : ℕ} {S : ℕ → ℕ → ℕ → ℕ → WithBot K}
    {V : ℕ → ℕ → ℕ → ℕ → K} (hn : 0 < blockN)
    (hs : Entries scores .f32 b h n blockN fun i j k p => S i j k (start + p))
    (hv : Entries v dt b h blockN d fun i j p l => V i j (start + p) l)
    (hS : ∀ i j k, S i j k 0 ≠ ⊥) (hr : r.At S V b h n d start) :
    ∃ r', r.update scores v blockN = .ok r' ∧ r'.At S V b h n d (start + blockN) := by
  obtain ⟨hstart, M, L, A, eM, eL, eA, hrow⟩ := hr
  obtain ⟨x, hx, ex⟩ := LawfulExactCandle.maxKeepdim_result isFloat_f32 hs hn
  obtain ⟨y, hy, ey⟩ := LawfulExactCandle.maximum_result isFloat_f32 eM ex
  -- The new maximum is a number in every row: the first position of all is visible.
  have hreal : ∀ i j k, i < b → j < h → k < n →
      M i j k ⊔ (Finset.range blockN).sup (fun p => S i j k (start + p)) ≠ ⊥ := by
    intro i j k hi hj hk hbot
    obtain ⟨hM, hsup⟩ := sup_eq_bot_iff.mp hbot
    rcases Nat.eq_zero_or_pos start with hzero | hpos
    · have h0 := Finset.sup_eq_bot_iff _ _ |>.mp hsup 0 (Finset.mem_range.mpr hn)
      rw [hzero] at h0
      exact hS i j k h0
    · exact (hrow i j k hi hj hk).1 hpos hM
  let N : ℕ → ℕ → ℕ → K := fun i j k =>
    (M i j k ⊔ (Finset.range blockN).sup fun p => S i j k (start + p)).unbotD 0
  have eN : Entries y .f32 b h n 1 fun i j k _ => (N i j k : WithBot K) :=
    ey.congr fun i j k _ hi hj hk _ => by
      obtain ⟨m, hm⟩ := WithBot.ne_bot_iff_exists.mp (hreal i j k hi hj hk)
      show _ = ((N i j k : K) : WithBot K)
      simp only [N]
      rw [← hm]
      rfl
  obtain ⟨c, hc, ec⟩ := LawfulExactCandle.broadcastSub_result isFloat_f32 eM eN
  obtain ⟨c', hc', ec'⟩ := LawfulExactCandle.exp_result isFloat_f32 ec
  obtain ⟨w, hw, ew⟩ := LawfulExactCandle.broadcastSub_result isFloat_f32 hs eN
  obtain ⟨w', hw', ew'⟩ := LawfulExactCandle.exp_result isFloat_f32 ew
  obtain ⟨l, hl, el⟩ := LawfulExactCandle.broadcastMul_result isFloat_f32 eL ec'
  obtain ⟨u, hu, eu⟩ := LawfulExactCandle.sumKeepdim_result isFloat_f32 ew'
  obtain ⟨l', hl', el'⟩ := LawfulExactCandle.add_result isFloat_f32 el eu
  obtain ⟨a, ha, ea⟩ := LawfulExactCandle.broadcastMul_result isFloat_f32 eA ec'
  obtain ⟨v', hv', ev'⟩ := contiguous_entries hv
  obtain ⟨v'', hv'', ev''⟩ := toDtype_entries ev' isFloat_f32
  obtain ⟨z, hz, ez⟩ := LawfulExactCandle.matmul_result isFloat_f32 ew' ev''
  obtain ⟨a', ha', ea'⟩ := LawfulExactCandle.add_result isFloat_f32 ea ez
  refine ⟨⟨y, l', a', r.kvStart + blockN⟩, ?_, by rw [← hstart], _, _, _, eN, el', ea',
    fun i j k hi hj hk => ⟨fun _ => WithBot.coe_ne_bot, fun l => ?_⟩⟩
  · simp only [Running.update, hx, hy, hc, hc', hw, hw', hl, hu, hl', ha, hv', hv'', hz, ha',
      ok_bind]
    rfl
  · exact ((hrow i j k hi hj hk).2 l).absorb hexp blockN (N i j k)

/-- **One block** of any size: the body of the loop absorbs its positions. -/
theorem absorb_at (hexp : IsExponential (HasExp.exp : K → K)) {q k v : T}
    {r : Running T} {dt : DType} {b h nRep seqQ d blockN start : ℕ} (offset : ℕ)
    {qf kf vf : ℕ → ℕ → ℕ → ℕ → K} (scale : K) (hdt : IsFloat dt) (hrep : 1 ≤ nRep) (hn : 0 < blockN)
    (hq : Entries q dt b (h * nRep) seqQ d fun i j k l => qf i j k l)
    (hk : Entries k dt b h blockN d fun i j p l => kf i j (start + p) l)
    (hv : Entries v dt b h blockN d fun i j p l => vf i j (start + p) l)
    (hr : r.At (visible qf (fun i j => kf i (j / nRep)) d offset scale)
      (fun i j => vf i (j / nRep)) b (h * nRep) seqQ d start) :
    ∃ r', r.absorb q nRep scale seqQ offset (k, v) = .ok r' ∧
      r'.At (visible qf (fun i j => kf i (j / nRep)) d offset scale)
        (fun i j => vf i (j / nRep)) b (h * nRep) seqQ d (start + blockN) := by
  obtain ⟨k', hk', ek⟩ := repeatKv_entries hk hrep
  obtain ⟨v', hv', ev⟩ := repeatKv_entries hv hrep
  obtain ⟨s, hs, es⟩ := blockScores_entries offset (fun i j => kf i (j / nRep)) scale hdt hq ek
  obtain ⟨r', hr', hat⟩ := update_at hexp hn es ev
    (visible_zero qf (fun i j => kf i (j / nRep)) d offset scale) hr
  refine ⟨r', ?_, hat⟩
  unfold Running.absorb
  rw [seqLen_entries hk, ok_bind, hk', ok_bind, hv', ok_bind, hr.1, hs, ok_bind, hr']

/-- **The loop** absorbs the whole sequence. -/
theorem absorbAll_at (hexp : IsExponential (HasExp.exp : K → K)) {q : T}
    {blocks : List (T × T)} {r : Running T} {dt : DType} {b h nRep seqQ d start stop : ℕ}
    (offset : ℕ) {qf kf vf : ℕ → ℕ → ℕ → ℕ → K} (scale : K) (hdt : IsFloat dt) (hrep : 1 ≤ nRep)
    (hq : Entries q dt b (h * nRep) seqQ d fun i j k l => qf i j k l)
    (hs : Splits dt b h d kf vf start stop blocks)
    (hr : r.At (visible qf (fun i j => kf i (j / nRep)) d offset scale)
      (fun i j => vf i (j / nRep)) b (h * nRep) seqQ d start) :
    ∃ r', blocks.foldlM (Running.absorb q nRep scale seqQ offset) r = .ok r' ∧
      r'.At (visible qf (fun i j => kf i (j / nRep)) d offset scale)
        (fun i j => vf i (j / nRep)) b (h * nRep) seqQ d stop := by
  induction hs generalizing r with
  | nil start => exact ⟨r, rfl, hr⟩
  | cons hn hk hv _ ih =>
    obtain ⟨r₁, hr₁, hat⟩ := absorb_at hexp offset scale hdt hrep hn hq hk hv hr
    obtain ⟨r', hr', hat'⟩ := ih hat
    exact ⟨r', by rw [List.foldlM_cons, hr₁, ok_bind, hr'], hat'⟩

omit [LawfulExactCandle K T] in
/-- After the first position the maximum is a number and the sum positive, in every row. -/
theorem Running.At.sum_pos [IsStrictOrderedRing K] (hexp : IsExponential (HasExp.exp : K → K))
    {r : Running T} {S : ℕ → ℕ → ℕ → ℕ → WithBot K} {V : ℕ → ℕ → ℕ → ℕ → K} {b h n d start : ℕ}
    (hr : r.At S V b h n d start) (hstart : 0 < start) (hS : ∀ i j k, S i j k 0 ≠ ⊥) (i j k : ℕ)
    (hi : i < b) (hj : j < h) (hk : k < n) :
    elem r.runningMax [i, j, k, 0] ≠ ⊥ ∧
      ∃ sum : K, elem r.runningSum [i, j, k, 0] = sum ∧ 0 < sum := by
  obtain ⟨-, M, L, A, eM, eL, eA, hrow⟩ := hr
  obtain ⟨hM, hst⟩ := hrow i j k hi hj hk
  refine ⟨?_, L i j k, eL.elem i j k 0 hi hj hk Nat.one_pos, ?_⟩
  · rw [eM.elem i j k 0 hi hj hk Nat.one_pos]
    exact hM hstart
  · obtain ⟨m, hm⟩ := WithBot.ne_bot_iff_exists.mp (hM hstart)
    have h0 := hst 0
    rw [← hm] at h0
    exact h0.sum_pos hexp hstart (hS i j k)

/-- **What the kernel returns**, and that no step is undefined: after any of the blocks the running
    maximum, which the step subtracts, is a number in every row, and the running sum, by which the
    result is divided at the end, is positive. -/
theorem pagedAttention_entries [IsStrictOrderedRing K]
    (hexp : IsExponential (HasExp.exp : K → K)) {q : T} {blocks : List (T × T)} {dt : DType}
    {b h nRep seqQ d kvLen : ℕ} {qf kf vf : ℕ → ℕ → ℕ → ℕ → K} (scale : K) (hdt : IsFloat dt)
    (hrep : 1 ≤ nRep) (hseq : 1 ≤ seqQ) (hlen : seqQ ≤ kvLen)
    (hq : Entries q dt b (h * nRep) seqQ d fun i j k l => qf i j k l)
    (hs : Splits dt b h d kf vf 0 kvLen blocks) :
    (∃ t, pagedAttention q blocks nRep scale = .ok t ∧
      Entries t dt b (h * nRep) seqQ d fun i j k l =>
        (softmaxMean HasExp.exp (visible qf (fun i j => kf i (j / nRep)) d (kvLen - seqQ) scale i j k)
          (fun p => vf i (j / nRep) p l) kvLen : K)) ∧
    ∃ r₀, Running.start b (h * nRep) seqQ d = .ok r₀ ∧ ∀ done rest, blocks = done ++ rest →
      ∃ r : Running T, done.foldlM (Running.absorb q nRep scale seqQ (kvLen - seqQ)) r₀ = .ok r ∧
        (done ≠ [] → ∀ i j k, i < b → j < h * nRep → k < seqQ →
          elem r.runningMax [i, j, k, 0] ≠ ⊥ ∧
          ∃ sum : K, elem r.runningSum [i, j, k, 0] = sum ∧ 0 < sum) := by
  obtain ⟨r₀, hr₀, hat₀⟩ := start_at (T := T)
    (visible qf (fun i j => kf i (j / nRep)) d (kvLen - seqQ) scale) (fun i j => vf i (j / nRep))
    b (h * nRep) seqQ d
  constructor
  · obtain ⟨lens, hlens, hsum⟩ := hs.lens
    rw [Nat.zero_add] at hsum
    obtain ⟨r, hr, hat⟩ := absorbAll_at hexp (kvLen - seqQ) scale hdt hrep hq hs hat₀
    have hpos := hat.sum_pos hexp (by omega) (visible_zero qf _ d (kvLen - seqQ) scale)
    obtain ⟨-, M, L, A, eM, eL, eA, hrow⟩ := hat
    have hL : ∀ i j k, i < b → j < h * nRep → k < seqQ → L i j k ≠ 0 := fun i j k hi hj hk => by
      obtain ⟨-, sum, hsum, hpos⟩ := hpos i j k hi hj hk
      rw [eL.elem i j k 0 hi hj hk Nat.one_pos, WithBot.coe_inj] at hsum
      rw [hsum]
      exact hpos.ne'
    obtain ⟨x, hx, ex⟩ := LawfulExactCandle.broadcastDiv_result isFloat_f32 eA eL hL
    obtain ⟨t, ht, et⟩ := toDtype_entries ex hdt
    refine ⟨t, ?_, et.congr fun i j k l hi hj hk _ => ?_⟩
    · unfold pagedAttention
      rw [hq.dims]
      simp only [hlens, hsum, if_neg (not_lt.mpr hlen), hr₀, hr, hx, hq.dtype, ht, ok_bind]
    · obtain ⟨hM, hst⟩ := hrow i j k hi hj hk
      obtain ⟨m, hm⟩ := WithBot.ne_bot_iff_exists.mp (hM (by omega))
      have hl := hst l
      rw [← hm] at hl
      exact congrArg _ (hl.div_eq hexp)
  · refine ⟨r₀, hr₀, fun done rest hdone => ?_⟩
    obtain ⟨mid, hmid, hlt⟩ := (hdone ▸ hs).initial
    obtain ⟨r, hr, hat⟩ := absorbAll_at hexp (kvLen - seqQ) scale hdt hrep hq hmid hat₀
    exact ⟨r, hr, fun hne =>
      hat.sum_pos hexp (hlt hne) (visible_zero qf _ d (kvLen - seqQ) scale)⟩

end Attention

/-! ## 6. The kernels agree -/

noncomputable instance : HasExp ℝ := ⟨Real.exp⟩

theorem isExponential_exp : IsExponential (HasExp.exp : ℝ → ℝ) where
  map_add := Real.exp_add
  pos := Real.exp_pos

/-- **The paged kernel is dense causal attention.** Over the reals, for any cut of the K/V sequence
    into non-empty blocks, `pagedAttention` returns the elements that `causalAttention` returns for
    the sequence in one piece, its heads repeated, under the mask that hides position `j` from query
    `i` exactly when `j > (kvLen - seqQ) + i`. What a step subtracts is a
    number, never `-∞`, and the divisor is positive: the initial state `r₀` followed by any non-empty
    part of the blocks has a number as maximum and a positive sum, in every row. -/
theorem pagedAttention_eq_causalAttention {T : Type} [ExactCandle ℝ T] [LawfulExactCandle ℝ T]
    {q k v mask : T} {blocks : List (T × T)} {dt : DType} {b h nRep seqQ kvLen d : ℕ}
    {qf kf vf : ℕ → ℕ → ℕ → ℕ → ℝ} (scale : ℝ) (hdt : IsFloat dt) (hrep : 1 ≤ nRep)
    (hseq : 1 ≤ seqQ) (hlen : seqQ ≤ kvLen)
    (hq : Entries q dt b (h * nRep) seqQ d fun i j k l => qf i j k l)
    (hk : Entries k dt b h kvLen d fun i j p l => kf i j p l)
    (hv : Entries v dt b h kvLen d fun i j p l => vf i j p l)
    (hs : Splits dt b h d kf vf 0 kvLen blocks)
    (hmd : dims mask = [seqQ, kvLen]) (hmt : dtype mask = .u8)
    (hme : ∀ i j, i < seqQ → j < kvLen →
      (elem mask [i, j] ≠ ((0 : ℝ) : WithBot ℝ) ↔ j > (kvLen - seqQ) + i)) :
    (∃ k' v' dense paged f, repeatKv k nRep = .ok k' ∧ repeatKv v nRep = .ok v' ∧
      causalAttention q k' v' (some mask) scale = .ok dense ∧
      pagedAttention q blocks nRep scale = .ok paged ∧
      Entries dense dt b (h * nRep) seqQ d f ∧ Entries paged dt b (h * nRep) seqQ d f) ∧
    ∃ r₀, Running.start b (h * nRep) seqQ d = .ok r₀ ∧ ∀ done rest, blocks = done ++ rest →
      ∃ r : Running T, done.foldlM (Running.absorb q nRep scale seqQ (kvLen - seqQ)) r₀ = .ok r ∧
        (done ≠ [] → ∀ i j k, i < b → j < h * nRep → k < seqQ →
          elem r.runningMax [i, j, k, 0] ≠ ⊥ ∧
          ∃ sum : ℝ, elem r.runningSum [i, j, k, 0] = sum ∧ 0 < sum) := by
  obtain ⟨⟨paged, hpaged, epaged⟩, hsteps⟩ :=
    pagedAttention_entries isExponential_exp scale hdt hrep hseq hlen hq hs
  obtain ⟨k', hk', ek⟩ := repeatKv_entries hk hrep
  obtain ⟨v', hv', ev⟩ := repeatKv_entries hv hrep
  obtain ⟨dense, hdense, edense⟩ := causalAttention_entries
    isExponential_exp (fun i j => kf i (j / nRep)) (fun i j => vf i (j / nRep)) scale hdt hq ek ev
    (by omega) hmd hmt hme
  exact ⟨⟨k', v', dense, paged, _, hk', hv', hdense, hpaged, edense, epaged⟩, hsteps⟩

/-- A tensor of real numbers. -/
noncomputable def realTensor (ds : List ℕ) (f : List ℕ → ℝ) : Exact ℝ := ⟨ds, .f32, fun idx => f idx⟩

/-- Two positions in two blocks; the second block is hidden from the first of two queries. -/
noncomputable def twoBlocks : List (Exact ℝ × Exact ℝ) :=
  [(realTensor [1, 1, 1, 1] fun _ => 1, realTensor [1, 1, 1, 1] fun _ => 10),
   (realTensor [1, 1, 1, 1] fun _ => 1, realTensor [1, 1, 1, 1] fun _ => 20)]

noncomputable def twoValues (_ _ p _ : ℕ) : ℝ := if p = 0 then 10 else 20

noncomputable def causalMask : Exact ℝ :=
  ⟨[2, 2], .u8, fun idx => ((if idx = [0, 1] then 1 else 0 : ℝ) : WithBot ℝ)⟩

theorem realTensor_entries (a b c d : ℕ) (f : ℕ → ℕ → ℕ → ℕ → ℝ) (g : List ℕ → ℝ)
    (h : ∀ i j k l, i < a → j < b → k < c → l < d → g [i, j, k, l] = f i j k l) :
    Entries (realTensor [a, b, c, d] g) .f32 a b c d fun i j k l => (f i j k l : WithBot ℝ) :=
  ⟨rfl, rfl, fun i j k l hi hj hk hl => congrArg _ (h i j k l hi hj hk hl)⟩

theorem causalMask_hides (i j : ℕ) (hi : i < 2) (hj : j < 2) :
    elem causalMask [i, j] ≠ ((0 : ℝ) : WithBot ℝ) ↔ j > (2 - 2) + i := by
  show ((if [i, j] = [0, 1] then 1 else 0 : ℝ) : WithBot ℝ) ≠ ((0 : ℝ) : WithBot ℝ) ↔ _
  rw [ne_eq, WithBot.coe_inj]
  by_cases h : [i, j] = [0, 1]
  · rw [if_pos h]
    simp at h
    simp [h.1, h.2]
  · rw [if_neg h]
    simp at h
    simp only [not_true_eq_false, false_iff]
    omega

theorem twoBlocks_split :
    Splits (T := Exact ℝ) .f32 1 1 1 (fun _ _ _ _ => 1) twoValues 0 2 twoBlocks := by
  refine .cons Nat.one_pos ?_ ?_ (.cons Nat.one_pos ?_ ?_ (.nil 2))
  all_goals
    refine realTensor_entries 1 1 1 1 _ _ fun i j p l _ _ hp _ => ?_
    obtain rfl : p = 0 := by omega
    simp [twoValues]

/-- The theorem at these blocks, with the mask of the two queries. -/
theorem twoBlocks_agree :
    (∃ k' v' dense paged f,
      repeatKv (realTensor [1, 1, 2, 1] fun _ => 1) 1 = .ok k' ∧
      repeatKv (realTensor [1, 1, 2, 1] fun idx => twoValues 0 0 (idx.getD 2 0) 0) 1 = .ok v' ∧
      causalAttention (realTensor [1, 1, 2, 1] fun _ => 1) k' v' (some causalMask) 1 = .ok dense ∧
      pagedAttention (realTensor [1, 1, 2, 1] fun _ => 1) twoBlocks 1 1 = .ok paged ∧
      Entries dense .f32 1 1 2 1 f ∧ Entries paged .f32 1 1 2 1 f) ∧
    ∃ r₀, Running.start 1 1 2 1 = .ok r₀ ∧ ∀ done rest, twoBlocks = done ++ rest →
      ∃ r : Running (Exact ℝ), done.foldlM
          (Running.absorb (realTensor [1, 1, 2, 1] fun _ => 1) 1 1 2 0) r₀ = .ok r ∧
        (done ≠ [] → ∀ i j k, i < 1 → j < 1 → k < 2 → elem r.runningMax [i, j, k, 0] ≠ ⊥ ∧
          ∃ sum : ℝ, elem r.runningSum [i, j, k, 0] = sum ∧ 0 < sum) :=
  pagedAttention_eq_causalAttention 1 rfl le_rfl (by decide) le_rfl
    (realTensor_entries 1 1 2 1 (fun _ _ _ _ => 1) _ fun _ _ _ _ _ _ _ _ => rfl)
    (realTensor_entries 1 1 2 1 (fun _ _ _ _ => 1) _ fun _ _ _ _ _ _ _ _ => rfl)
    (realTensor_entries 1 1 2 1 twoValues _ fun _ _ _ _ _ _ _ _ => rfl)
    twoBlocks_split rfl rfl causalMask_hides

end Flour.Backend
