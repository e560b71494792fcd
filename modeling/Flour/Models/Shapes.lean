/-
  File:      Flour/Models/Shapes.lean
  Subject:   A loaded model fails on nothing but foreign tokens, wrong shapes and positions past the
             rope tables, whatever bit patterns the cache holds.

  * `SameKind` -- tensors of one shape and element type; `ByShape` -- operations whose success, and
    the shape of what they return, depend on shapes alone, as those on floats do;
  * `pagedAttention_alike`, `DecoderLayer.attend_alike` -- so do the kernel and the layers;
  * **`staged_runs`** -- a layer that succeeds on tensors of zeros succeeds on all of their shape;
  * `engine_steady` -- and the engine over a loaded model finds a row of its vocabulary.
-/
import Flour.Models.Serve

namespace Flour.Models

open Flour.Backend Flour.Kv Flour.Lib
open ExactCandle

/-! ## 1. The interface -/

/-- Of one shape and element type. -/
structure SameKind {K T : Type} [ExactCandle K T] (x y : T) : Prop where
  dims : dims x = dims y
  dtype : dtype x = dtype y

theorem SameKind.refl {K T : Type} [ExactCandle K T] (x : T) : SameKind x x := ⟨rfl, rfl⟩

/-- Whether an operation fails, and the shape of what it returns, depend on shapes alone. -/
class ByShape (K T : Type) [ExactCandle K T] [NnCandle K T] : Prop where
  toDtype_alike {x y : T} (h : SameKind x y) (dt : DType) :
    Alike SameKind (toDtype x dt) (toDtype y dt)
  contiguous_alike {x y : T} (h : SameKind x y) : Alike SameKind (contiguous x) (contiguous y)
  unsqueeze_alike {x y : T} (h : SameKind x y) (axis : ℕ) :
    Alike SameKind (unsqueeze x axis) (unsqueeze y axis)
  expand_alike {x y : T} (h : SameKind x y) (ds : List ℕ) :
    Alike SameKind (expand x ds) (expand y ds)
  reshape_alike {x y : T} (h : SameKind x y) (ds : List ℕ) :
    Alike SameKind (reshape x ds) (reshape y ds)
  transpose_alike {x y : T} (h : SameKind x y) (i j : ℕ) :
    Alike SameKind (transpose x i j) (transpose y i j)
  broadcastAs_alike {x y : T} (h : SameKind x y) (ds : List ℕ) :
    Alike SameKind (broadcastAs x ds) (broadcastAs y ds)
  whereCond_alike {m m' x x' y y' : T} (hm : SameKind m m') (hx : SameKind x x')
    (hy : SameKind y y') : Alike SameKind (whereCond m x y) (whereCond m' x' y')
  mulScalar_alike {x y : T} (h : SameKind x y) (s : K) :
    Alike SameKind (mulScalar x s) (mulScalar y s)
  exp_alike {x y : T} (h : SameKind x y) : Alike SameKind (exp x) (exp y)
  maxKeepdim_alike {x y : T} (h : SameKind x y) : Alike SameKind (maxKeepdim x) (maxKeepdim y)
  sumKeepdim_alike {x y : T} (h : SameKind x y) : Alike SameKind (sumKeepdim x) (sumKeepdim y)
  matmul_alike {x x' y y' : T} (hx : SameKind x x') (hy : SameKind y y') :
    Alike SameKind (matmul x y) (matmul x' y')
  add_alike {x x' y y' : T} (hx : SameKind x x') (hy : SameKind y y') :
    Alike SameKind (add x y) (add x' y')
  maximum_alike {x x' y y' : T} (hx : SameKind x x') (hy : SameKind y y') :
    Alike SameKind (maximum x y) (maximum x' y')
  broadcastSub_alike {x x' y y' : T} (hx : SameKind x x') (hy : SameKind y y') :
    Alike SameKind (broadcastSub x y) (broadcastSub x' y')
  broadcastMul_alike {x x' y y' : T} (hx : SameKind x x') (hy : SameKind y y') :
    Alike SameKind (broadcastMul x y) (broadcastMul x' y')
  broadcastDiv_alike {x x' y y' : T} (hx : SameKind x x') (hy : SameKind y y') :
    Alike SameKind (broadcastDiv x y) (broadcastDiv x' y')
  linear_alike (w : T) (b : Option T) {x y : T} (h : SameKind x y) :
    Alike SameKind (NnCandle.linear w b x) (NnCandle.linear w b y)
  rmsNorm_alike (w : T) (eps : K) {x y : T} (h : SameKind x y) :
    Alike SameKind (NnCandle.rmsNorm w eps x) (NnCandle.rmsNorm w eps y)
  silu_alike {x y : T} (h : SameKind x y) : Alike SameKind (NnCandle.silu x) (NnCandle.silu y)
  mul_alike {x x' y y' : T} (hx : SameKind x x') (hy : SameKind y y') :
    Alike SameKind (NnCandle.mul x y) (NnCandle.mul x' y')
  rope_alike {x y : T} (h : SameKind x y) (c s : T) :
    Alike SameKind (NnCandle.rope x c s) (NnCandle.rope y c s)
  row_alike {x y : T} (h : SameKind x y) (i : ℕ) :
    Alike (fun l l' : List K => l.length = l'.length) (NnCandle.row x i) (NnCandle.row y i)

/-! ## 2. The kernel -/

section Kernel

variable {K T : Type} [ExactCandle K T] [NnCandle K T] [ByShape K T] {x y q q' k k' : T}

omit [NnCandle K T] [ByShape K T] in
theorem seqLen_congr (h : SameKind x y) : seqLen x = seqLen y := by
  unfold seqLen
  rw [h.dims]

theorem repeatKv_alike (h : SameKind x y) (nRep : ℕ) :
    Alike SameKind (repeatKv x nRep) (repeatKv y nRep) := by
  unfold repeatKv
  rw [h.dims]
  split_ifs
  · exact h
  · split
    · refine (ByShape.unsqueeze_alike (K := K) h _).bind fun _ _ h => ?_
      exact (ByShape.expand_alike (K := K) h _).bind fun _ _ h => ByShape.reshape_alike (K := K) h _
    · exact trivial

theorem maskedFill_alike {m m' : T} (h : SameKind x y) (hm : SameKind m m') (v : WithBot K) :
    Alike SameKind (maskedFill x m v) (maskedFill y m' v) := by
  unfold maskedFill
  rw [h.dtype, hm.dims]
  refine (Alike.refl SameKind.refl _).bind fun _ _ h₁ => ?_
  refine (ByShape.toDtype_alike (K := K) h₁ _).bind fun _ _ h₂ => ?_
  exact (ByShape.broadcastAs_alike (K := K) h₂ _).bind fun _ _ h₃ =>
    ByShape.whereCond_alike (K := K) hm h₃ h

theorem scaledScores_alike (hq : SameKind q q') (hk : SameKind k k') (scale : K) :
    Alike SameKind (scaledScores q k scale) (scaledScores q' k' scale) := by
  unfold scaledScores
  refine (ByShape.transpose_alike (K := K) hk 2 3).bind fun _ _ h₁ => ?_
  refine (ByShape.contiguous_alike (K := K) h₁).bind fun _ _ h₂ => ?_
  exact (ByShape.matmul_alike (K := K) hq h₂).bind fun _ _ h₃ => ByShape.mulScalar_alike h₃ scale

theorem blockScores_alike (hq : SameKind q q') (hk : SameKind k k') (scale : K)
    (seqQ blockN kvStart offset : ℕ) :
    Alike SameKind (blockScores q k scale seqQ blockN kvStart offset)
      (blockScores q' k' scale seqQ blockN kvStart offset) := by
  unfold blockScores
  refine (scaledScores_alike hq hk scale).bind fun _ _ h₁ => ?_
  refine (ByShape.toDtype_alike (K := K) h₁ .f32).bind fun _ _ h₂ => ?_
  refine (Alike.refl SameKind.refl _).bind fun _ _ h₃ => ?_
  rw [h₂.dims]
  exact (ByShape.broadcastAs_alike (K := K) h₃ _).bind fun _ _ h₄ => maskedFill_alike h₂ h₄ ⊥

/-- Running states of one shape, after as many positions. -/
structure SameRunning (r r' : Running T) : Prop where
  runningMax : SameKind r.runningMax r'.runningMax
  runningSum : SameKind r.runningSum r'.runningSum
  acc : SameKind r.acc r'.acc
  kvStart : r.kvStart = r'.kvStart

theorem Running.update_alike {r r' : Running T} (h : SameRunning r r') {s s' v v' : T}
    (hs : SameKind s s') (hv : SameKind v v') (blockN : ℕ) :
    Alike SameRunning (r.update s v blockN) (r'.update s' v' blockN) := by
  unfold Running.update
  refine (ByShape.maxKeepdim_alike (K := K) hs).bind fun _ _ hblock => ?_
  refine (ByShape.maximum_alike (K := K) h.runningMax hblock).bind fun _ _ hmax => ?_
  refine (ByShape.broadcastSub_alike (K := K) h.runningMax hmax).bind fun _ _ h₁ => ?_
  refine (ByShape.exp_alike (K := K) h₁).bind fun _ _ hcorrection => ?_
  refine (ByShape.broadcastSub_alike (K := K) hs hmax).bind fun _ _ h₂ => ?_
  refine (ByShape.exp_alike (K := K) h₂).bind fun _ _ hprobs => ?_
  refine (ByShape.broadcastMul_alike (K := K) h.runningSum hcorrection).bind fun _ _ h₃ => ?_
  refine (ByShape.sumKeepdim_alike (K := K) hprobs).bind fun _ _ h₄ => ?_
  refine (ByShape.add_alike (K := K) h₃ h₄).bind fun _ _ hsum => ?_
  refine (ByShape.broadcastMul_alike (K := K) h.acc hcorrection).bind fun _ _ h₅ => ?_
  refine (ByShape.contiguous_alike (K := K) hv).bind fun _ _ h₆ => ?_
  refine (ByShape.toDtype_alike (K := K) h₆ .f32).bind fun _ _ h₇ => ?_
  refine (ByShape.matmul_alike (K := K) hprobs h₇).bind fun _ _ h₈ => ?_
  refine (ByShape.add_alike (K := K) h₅ h₈).bind fun _ _ hacc => ?_
  exact ⟨hmax, hsum, hacc, by rw [h.kvStart]⟩

/-- Views of a block, of one shape. -/
def SameBlock (b b' : T × T) : Prop := SameKind b.1 b'.1 ∧ SameKind b.2 b'.2

theorem Running.absorb_alike (hq : SameKind q q') (nRep : ℕ) (scale : K) (seqQ offset : ℕ)
    {r r' : Running T} (h : SameRunning r r') {kv kv' : T × T} (hkv : SameBlock kv kv') :
    Alike SameRunning (r.absorb q nRep scale seqQ offset kv)
      (r'.absorb q' nRep scale seqQ offset kv') := by
  unfold Running.absorb
  rw [seqLen_congr hkv.1, h.kvStart]
  refine (Alike.refl (R := Eq) (fun _ => rfl) _).bind fun blockN _ hblock => ?_
  subst hblock
  refine (repeatKv_alike hkv.1 nRep).bind fun _ _ hk => ?_
  refine (repeatKv_alike hkv.2 nRep).bind fun _ _ hv => ?_
  exact (blockScores_alike hq hk scale seqQ blockN _ offset).bind fun _ _ hs =>
    Running.update_alike h hs hv blockN

omit [NnCandle K T] [ByShape K T] in
theorem mapM_seqLen_congr {blocks blocks' : List (T × T)}
    (h : List.Forall₂ SameBlock blocks blocks') :
    (blocks.mapM fun kv => seqLen kv.1) = blocks'.mapM fun kv => seqLen kv.1 := by
  induction h with
  | nil => rfl
  | cons hkv _ ih => rw [List.mapM_cons, List.mapM_cons, seqLen_congr hkv.1, ih]

/-- **The kernel** over blocks of the same shapes. -/
theorem pagedAttention_alike (hq : SameKind q q') {blocks blocks' : List (T × T)}
    (h : List.Forall₂ SameBlock blocks blocks') (nRep : ℕ) (scale : K) :
    Alike SameKind (pagedAttention q blocks nRep scale) (pagedAttention q' blocks' nRep scale) := by
  unfold pagedAttention
  rw [hq.dims, hq.dtype, mapM_seqLen_congr h]
  split
  · refine (Alike.refl (R := Eq) (fun _ => rfl) _).bind fun lens _ hlens => ?_
    subst hlens
    dsimp only
    split_ifs
    · exact trivial
    · refine (Alike.refl (R := Eq) (fun _ => rfl) _).bind fun r _ hr => ?_
      subst hr
      have hrefl : SameRunning r r := ⟨.refl _, .refl _, .refl _, rfl⟩
      refine (Alike.foldlM (S := SameBlock) (fun _ _ h _ _ hkv =>
        Running.absorb_alike hq nRep scale _ _ h hkv) h hrefl).bind fun _ _ hr => ?_
      exact (ByShape.broadcastDiv_alike (K := K) hr.acc hr.runningSum).bind fun _ _ hout =>
        ByShape.toDtype_alike (K := K) hout _
  · exact trivial

end Kernel

/-! ## 3. The layers -/

section Layers

variable {K T : Type} [Candle T] [ExactCandle K T] [NnCandle K T] [ByShape K T] {x y : T}

omit [Candle T] in
theorem Linear.forward_alike (l : Linear T) (h : SameKind x y) :
    Alike SameKind (l.forward x) (l.forward y) := ByShape.linear_alike l.weight l.bias h

omit [Candle T] in
theorem RmsNorm.forward_alike (w : RmsNorm K T) (h : SameKind x y) :
    Alike SameKind (w.forward x) (w.forward y) := ByShape.rmsNorm_alike w.weight w.eps h

omit [Candle T] in
theorem MLP.forward_alike (l : MLP T) (h : SameKind x y) :
    Alike SameKind (l.forward x) (l.forward y) := by
  unfold MLP.forward
  refine (l.gateProj.forward_alike h).bind fun _ _ hgate => ?_
  refine (ByShape.silu_alike (K := K) hgate).bind fun _ _ hact => ?_
  refine (l.upProj.forward_alike h).bind fun _ _ hup => ?_
  exact (ByShape.mul_alike (K := K) hact hup).bind fun _ _ hy => l.downProj.forward_alike hy

omit [Candle T] [ByShape K T] in
theorem dims3_alike (h : SameKind x y) : Alike Eq (dims3 x) (dims3 y) := by
  unfold dims3
  rw [h.dims]
  split
  · exact rfl
  · exact trivial

namespace CausalSelfAttention

omit [Candle T] in
theorem splitHeads_alike (h : SameKind x y) (bSz seqLen heads headDim : ℕ)
    (norm : Option (RmsNorm K T)) :
    Alike SameKind (splitHeads x bSz seqLen heads headDim norm)
      (splitHeads y bSz seqLen heads headDim norm) := by
  unfold splitHeads
  refine (ByShape.reshape_alike (K := K) h _).bind fun _ _ h => ?_
  cases norm with
  | none => exact h
  | some w =>
    exact (ByShape.contiguous_alike (K := K) h).bind fun _ _ h => w.forward_alike h

omit [Candle T] in
theorem headsFirst_alike (h : SameKind x y) :
    Alike SameKind (headsFirst x) (headsFirst y) := by
  unfold headsFirst
  exact (ByShape.transpose_alike (K := K) h 1 2).bind fun _ _ h =>
    ByShape.contiguous_alike (K := K) h

/-- Queries, keys and values of one shape. -/
def SameQkv (a b : T × T × T) : Prop := SameKind a.1 b.1 ∧ SameBlock a.2 b.2

theorem project_alike (a : CausalSelfAttention K T) (tables : RopeTables T) (h : SameKind x y)
    (bSz seqLen indexPos : ℕ) :
    Alike SameQkv (a.project tables x bSz seqLen indexPos)
      (a.project tables y bSz seqLen indexPos) := by
  unfold project
  refine (a.qProj.forward_alike h).bind fun _ _ hq => ?_
  refine (a.kProj.forward_alike h).bind fun _ _ hk => ?_
  refine (a.vProj.forward_alike h).bind fun _ _ hv => ?_
  refine (splitHeads_alike hq bSz seqLen _ _ a.qNorm).bind fun _ _ hq => ?_
  refine (splitHeads_alike hk bSz seqLen _ _ a.kNorm).bind fun _ _ hk => ?_
  refine (splitHeads_alike hv bSz seqLen _ _ none).bind fun _ _ hv => ?_
  refine (headsFirst_alike hq).bind fun _ _ hq => ?_
  refine (headsFirst_alike hk).bind fun _ _ hk => ?_
  refine (headsFirst_alike hv).bind fun _ _ hv => ?_
  refine (Alike.refl (R := Eq) (fun _ => rfl) _).bind fun c _ hc => ?_
  refine (Alike.refl (R := Eq) (fun _ => rfl) _).bind fun s _ hs => ?_
  subst hc hs
  refine (ByShape.rope_alike (K := K) hq c s).bind fun _ _ hq => ?_
  exact (ByShape.rope_alike (K := K) hk c s).bind fun _ _ hk => ⟨hq, hk, hv⟩

omit [Candle T] in
theorem attend_alike [Field K] [HasElementary K] (a : CausalSelfAttention K T) (h : SameKind x y)
    {blocks blocks' : List (T × T)} (hb : List.Forall₂ SameBlock blocks blocks') (bSz seqLen : ℕ) :
    Alike SameKind (a.attend x blocks bSz seqLen) (a.attend y blocks' bSz seqLen) := by
  unfold attend
  refine (pagedAttention_alike h hb _ _).bind fun _ _ h => ?_
  refine (ByShape.transpose_alike (K := K) h 1 2).bind fun _ _ h => ?_
  exact (ByShape.reshape_alike (K := K) h _).bind fun _ _ h => a.oProj.forward_alike h

end CausalSelfAttention

namespace DecoderLayer

/-- A layer before it writes. -/
theorem project_alike (l : DecoderLayer K T) (tables : RopeTables T) (h : SameKind x y)
    (indexPos : ℕ) :
    Alike (fun a b => a.1 = b.1 ∧ CausalSelfAttention.SameQkv a.2 b.2)
      (l.project tables x indexPos) (l.project tables y indexPos) := by
  unfold project
  refine (l.inputLayernorm.forward_alike h).bind fun _ _ h => ?_
  refine (dims3_alike h).bind fun d _ hd => ?_
  subst hd
  exact (l.selfAttn.project_alike tables h d.1 d.2.1 indexPos).bind fun _ _ hqkv => ⟨rfl, hqkv⟩

omit [Candle T] in
/-- **And after it has read.** -/
theorem attend_alike [Field K] [HasElementary K] (l : DecoderLayer K T) (h : SameKind x y) {q q' : T}
    (hq : SameKind q q') {blocks blocks' : List (T × T)}
    (hb : List.Forall₂ SameBlock blocks blocks') (bSz seqLen : ℕ) :
    Alike SameKind (l.attend x q bSz seqLen blocks) (l.attend y q' bSz seqLen blocks') := by
  unfold attend rest
  refine (l.selfAttn.attend_alike hq hb bSz seqLen).bind fun _ _ ho => ?_
  refine (ByShape.add_alike (K := K) h ho).bind fun _ _ hh => ?_
  refine (l.postAttentionLayernorm.forward_alike hh).bind fun _ _ hy => ?_
  exact (l.mlp.forward_alike hy).bind fun _ _ hy => ByShape.add_alike (K := K) hh hy

end DecoderLayer

end Layers

/-! ## 4. The model -/

/-- Hidden states of `n` positions. -/
def Shaped {K T : Type} [ExactCandle K T] (cfg : Config K) (dt : DType) (n : ℕ) (x : T) : Prop :=
  dims x = [1, n, cfg.hiddenSize] ∧ dtype x = dt

section Model

variable {K T : Type} [Field K] [LinearOrder K] [HasElementary K] [Candle T] [ExactCandle K T]
  [LawfulExactCandle K T] [NnCandle K T] [LawfulNnCandle K T] {dt : DType} {cfg : Config K} {n : ℕ}
  {x : T}

/-- States of zeros have every shape. -/
theorem Shaped.zeros (hx : Shaped cfg dt n x) :
    ∃ y : T, SameKind y x ∧ Rows y dt n cfg.hiddenSize fun _ _ => 0 := by
  obtain ⟨z, -, ez⟩ := LawfulExactCandle.zeros_result (K := K) (T := T) dt 1 n cfg.hiddenSize 1
  obtain ⟨y, -, ey⟩ := reshape_rows Nat.one_pos ez
  rw [Nat.mul_one] at ey
  exact ⟨y, ⟨ey.dims.trans hx.1.symm, ey.dtype.trans hx.2.symm⟩, ey⟩

omit [NnCandle K T] [LawfulNnCandle K T] in
/-- And so do blocks of zeros, which cut a sequence of zeros. -/
theorem zero_blocks [Encoded K T] {blocks : List (T × T)} (start : ℕ)
    (hshape : ∀ view ∈ blocks, ∃ j, 0 < j ∧ OfShape cfg.kv dt j view.1 view.2) :
    ∃ zeros : List (T × T), List.Forall₂ SameBlock zeros blocks ∧
      Splits dt 1 cfg.numKeyValueHeads cfg.headDim (fun _ _ _ _ => (0 : K)) (fun _ _ _ _ => 0) start
        (start + (liveRows blocks).length) zeros := by
  induction blocks generalizing start with
  | nil => exact ⟨[], .nil, .nil start⟩
  | cons view rest ih =>
    obtain ⟨j, hj, hs⟩ := hshape view List.mem_cons_self
    obtain ⟨zeros, hsame, hsplits⟩ :=
      ih (start + j) fun v hv => hshape v (List.mem_cons_of_mem view hv)
    obtain ⟨z, -, ez⟩ := LawfulExactCandle.zeros_result (K := K) (T := T) dt 1
      cfg.numKeyValueHeads j cfg.headDim
    have hk : SameKind z view.1 := ⟨ez.dims.trans ((Encoded.dims_eq view.1).symm.trans hs.kDims).symm,
      ez.dtype.trans ((Encoded.dtype_eq view.1).symm.trans hs.kDtype).symm⟩
    have hv : SameKind z view.2 := ⟨ez.dims.trans ((Encoded.dims_eq view.2).symm.trans hs.vDims).symm,
      ez.dtype.trans ((Encoded.dtype_eq view.2).symm.trans hs.vDtype).symm⟩
    have hlen : (liveRows (view :: rest)).length = j + (liveRows rest).length := by
      rw [liveRows, List.flatMap_cons, List.length_append, hs.length_viewKv]
      rfl
    rw [hlen, ← Nat.add_assoc]
    exact ⟨(z, z) :: zeros, .cons ⟨hk, hv⟩ hsame, .cons hj ez ez hsplits⟩

variable [IsStrictOrderedRing K] [LawfulElementary K] [ByShape K T] {m : CausalLM K T}
  {tables : RopeTables T}

/-- The logits have the shape of those after zeros. -/
theorem output_shaped (tables : RopeTables T) (hdt : IsFloat dt) (hm : m.Formed dt) (hv : m.cfg.Valid)
    (hx : Shaped m.cfg dt n x) : ∃ o o' : T, (m.staged tables).output x = .ok o ∧ SameKind o' o ∧
      Rows o' dt n m.cfg.vocabSize fun _ => m.lmHead.affine.apply m.cfg.hiddenSize
        (Transformer.rmsNorm (elementary K) m.cfg.rmsNormEps (vecOf m.norm.weight) m.cfg.hiddenSize
          fun _ => 0) := by
  obtain ⟨y, hyx, ey⟩ := hx.zeros
  obtain ⟨z, hz, ez⟩ := RmsNorm.forward_rows hdt hm.norm hv.eps ey
  obtain ⟨o', ho', eo'⟩ := Linear.forward_rows hdt hm.lmHead ez
  obtain ⟨z', hz', hzz⟩ := (m.norm.forward_alike hyx).of_ok hz
  obtain ⟨o, ho, hoo⟩ := (m.lmHead.forward_alike hzz).of_ok ho'
  refine ⟨o, o', ?_, hoo, eo'⟩
  show (m.norm.forward x >>= m.lmHead.forward) = _
  rw [hz', ok_bind, ho]

/-- So there is a row of the vocabulary to sample from. -/
theorem engine_steady {D R : Type} (hdt : IsFloat dt) (hm : m.Formed dt) (hv : m.cfg.Valid)
    {penalty : List K → K → List UInt32 → List K} {parts : Parts K D R} {params : SamplingParams K D}
    {known : UInt32 → Prop}
    (hs : Speaks (m.engine tables penalty parts) params m.cfg.vocabSize known) :
    Steady (m.engine tables penalty parts) params (Shaped m.cfg dt) m.cfg.vocabSize known where
  embed := hs.embed
  decode := hs.decode
  row {n x logits} hx hn h := by
    obtain ⟨o, o', ho, hoo, eo⟩ := output_shaped tables hdt hm hv hx
    cases ho.symm.trans h
    constructor
    · show dim1 logits = _
      unfold dim1
      rw [← hoo.dims, eo.dims]
    · have hrow := LawfulNnCandle.row_result eo (Nat.sub_lt hn Nat.one_pos)
      obtain ⟨row, hrow, hlen⟩ := (ByShape.row_alike (K := K) hoo (n - 1)).of_ok hrow
      exact ⟨row, hrow, by rw [← hlen, List.length_map, List.length_range]⟩
  stays := hs.stays

variable [Encoded K T]

/-- **A loaded model** fails on nothing but foreign tokens and positions past its tables, whatever
    bit patterns the cache holds: on zeros it succeeds, and zeros have every shape. -/
theorem staged_runs (hdt : IsFloat dt) (hm : m.Formed dt) (hv : m.cfg.Valid)
    (ht : tables.Formed m.cfg dt) : Runs (m.staged tables) dt (Shaped m.cfg dt) where
  embed {ids x} h := by
    have hx := LawfulNnCandle.embedding_result hm.embedTokens h
    exact ⟨hx.dims, hx.dtype⟩
  keyValue {layer n pos x} hl hx hn hmax := by
    obtain ⟨l, hlayer, -, hformed⟩ := hm.layer hl
    obtain ⟨y, hyx, ey⟩ := hx.zeros
    obtain ⟨q, k, v, hproject, -, ek, ev⟩ :=
      DecoderLayer.project_heads (X := fun _ _ => 0) hdt hformed ht hv hmax ey
    obtain ⟨⟨d, q', k', v'⟩, hproject', -, -, hk, hv'⟩ :=
      (l.project_alike tables hyx pos).of_ok hproject
    refine ⟨k', v', ?_, ⟨(Encoded.dims_eq k').trans (hk.dims.symm.trans ek.dims),
      (Encoded.dims_eq v').trans (hv'.dims.symm.trans ev.dims),
      (Encoded.dtype_eq k').trans (hk.dtype.symm.trans ek.dtype),
      (Encoded.dtype_eq v').trans (hv'.dtype.symm.trans ev.dtype)⟩⟩
    simp only [CausalLM.staged, hlayer, hproject', ok_bind]
    rfl
  attend {layer n pos x blocks} hl hx hn hmax hshape hrows := by
    obtain ⟨l, hlayer, -, hformed⟩ := hm.layer hl
    obtain ⟨y, hyx, ey⟩ := hx.zeros
    obtain ⟨q, k, v, hproject, eq, -, -⟩ :=
      DecoderLayer.project_heads (X := fun _ _ => 0) hdt hformed ht hv hmax ey
    obtain ⟨⟨d, q', kv'⟩, hproject', hd, hq, -⟩ := (l.project_alike tables hyx pos).of_ok hproject
    obtain ⟨zeros, hzeros, hsplits⟩ := zero_blocks 0 hshape
    rw [hrows, Nat.zero_add] at hsplits
    obtain ⟨o, ho, eo⟩ := DecoderLayer.attention_rows hdt hformed hv hn eq hsplits
    obtain ⟨t, ht', et⟩ := DecoderLayer.rest_rows hdt hformed hv ey eo
    have hattend : l.attend y q 1 n zeros = .ok t := by
      unfold DecoderLayer.attend
      rw [ho, ok_bind, ht']
    obtain ⟨t', ht', htt⟩ := (l.attend_alike hyx hq hzeros 1 n).of_ok hattend
    cases hd
    refine ⟨t', ?_, htt.dims.symm.trans et.dims, htt.dtype.symm.trans et.dtype⟩
    simp only [CausalLM.staged, hlayer, hproject', ok_bind, ht']
  output hx _ := by
    obtain ⟨o, -, ho, -⟩ := output_shaped tables hdt hm hv hx
    exact ⟨o, ho⟩

end Model

end Flour.Models

/-! ## 5. An instance -/

namespace Flour.Backend.Exact

open Flour.Models Flour.Kv Flour.Lib

variable {K : Type} [Field K] [LinearOrder K] [HasElementary K] {x x' y y' : Exact K}

/-- Tensors of one shape differ in their elements. -/
theorem elem_of_sameKind (h : SameKind x y) : ∃ e, y = { x with elem := e } := by
  obtain ⟨ds, dt, e⟩ := x
  obtain ⟨ds', dt', e'⟩ := y
  obtain rfl : ds = ds' := h.dims
  obtain rfl : dt = dt' := h.dtype
  exact ⟨e', rfl⟩

theorem ofFn_alike (ds : List ℕ) (dt : DType) (f g : List ℕ → Option (WithBot K)) :
    Alike SameKind (ofFn ds dt f) (ofFn ds dt g) := ⟨rfl, rfl⟩

theorem elementwise_alike {op : WithBot K → WithBot K → Option (WithBot K)} (hx : SameKind x x')
    (hy : SameKind y y') : Alike SameKind (elementwise op x y) (elementwise op x' y') := by
  obtain ⟨e, rfl⟩ := elem_of_sameKind hx
  obtain ⟨e', rfl⟩ := elem_of_sameKind hy
  exact Alike.ite trivial (Alike.ite trivial (ofFn_alike _ _ _ _))

theorem reduce_alike {op : ℕ → (ℕ → WithBot K) → Option (WithBot K)} (h : SameKind x y) :
    Alike SameKind (reduce op x) (reduce op y) := by
  obtain ⟨e, rfl⟩ := elem_of_sameKind h
  unfold reduce
  dsimp only
  split
  · exact ofFn_alike _ _ _ _
  · exact trivial

instance : ByShape K (Exact K) where
  toDtype_alike h dt := by
    obtain ⟨e, rfl⟩ := elem_of_sameKind h
    exact Alike.ite ⟨rfl, rfl⟩ trivial
  contiguous_alike h := h
  unsqueeze_alike h axis := by
    obtain ⟨e, rfl⟩ := elem_of_sameKind h
    exact ⟨rfl, rfl⟩
  expand_alike h ds := by
    obtain ⟨e, rfl⟩ := elem_of_sameKind h
    exact Alike.ite ⟨rfl, rfl⟩ trivial
  reshape_alike h ds := by
    obtain ⟨e, rfl⟩ := elem_of_sameKind h
    exact Alike.ite ⟨rfl, rfl⟩ trivial
  transpose_alike h i j := by
    obtain ⟨e, rfl⟩ := elem_of_sameKind h
    exact ⟨rfl, rfl⟩
  broadcastAs_alike h ds := by
    obtain ⟨e, rfl⟩ := elem_of_sameKind h
    exact Alike.ite ⟨rfl, rfl⟩ trivial
  whereCond_alike hm hx hy := by
    obtain ⟨e, rfl⟩ := elem_of_sameKind hm
    obtain ⟨e', rfl⟩ := elem_of_sameKind hx
    obtain ⟨e'', rfl⟩ := elem_of_sameKind hy
    exact Alike.ite trivial (Alike.ite trivial (Alike.ite trivial ⟨rfl, rfl⟩))
  mulScalar_alike h s := by
    obtain ⟨e, rfl⟩ := elem_of_sameKind h
    exact ofFn_alike _ _ _ _
  exp_alike h := by
    obtain ⟨e, rfl⟩ := elem_of_sameKind h
    exact ⟨rfl, rfl⟩
  maxKeepdim_alike h := reduce_alike h
  sumKeepdim_alike h := reduce_alike h
  matmul_alike {x x' y y'} hx hy := by
    obtain ⟨e, rfl⟩ := elem_of_sameKind hx
    obtain ⟨e', rfl⟩ := elem_of_sameKind hy
    show Alike SameKind (matmul x y) (matmul { x with elem := e } { y with elem := e' })
    unfold matmul
    dsimp only
    split
    · exact Alike.ite trivial (Alike.ite trivial (ofFn_alike _ _ _ _))
    · exact trivial
  add_alike hx hy := elementwise_alike hx hy
  maximum_alike hx hy := elementwise_alike hx hy
  broadcastSub_alike hx hy := elementwise_alike hx hy
  broadcastMul_alike hx hy := elementwise_alike hx hy
  broadcastDiv_alike hx hy := elementwise_alike hx hy
  linear_alike w b {x y} h := by
    obtain ⟨e, rfl⟩ := elem_of_sameKind h
    show Alike SameKind (linear w b x) (linear w b { x with elem := e })
    unfold linear
    dsimp only
    split
    · exact Alike.ite trivial (Alike.ite trivial (ofFn_alike _ _ _ _))
    · exact trivial
  rmsNorm_alike w eps {x y} h := by
    obtain ⟨e, rfl⟩ := elem_of_sameKind h
    show Alike SameKind (rmsNorm w eps x) (rmsNorm w eps { x with elem := e })
    unfold rmsNorm
    dsimp only
    split
    · exact ofFn_alike _ _ _ _
    · exact trivial
  silu_alike h := by
    obtain ⟨e, rfl⟩ := elem_of_sameKind h
    exact ofFn_alike _ _ _ _
  mul_alike hx hy := elementwise_alike hx hy
  rope_alike {x y} h c s := by
    obtain ⟨e, rfl⟩ := elem_of_sameKind h
    show Alike SameKind (rope x c s) (rope { x with elem := e } c s)
    unfold rope
    dsimp only
    split
    · exact Alike.ite trivial (ofFn_alike _ _ _ _)
    · exact trivial
  row_alike {x y} h i := by
    obtain ⟨e, rfl⟩ := elem_of_sameKind h
    show Alike _ (row x i) (row { x with elem := e } i)
    unfold row
    dsimp only
    split
    · exact Alike.ite (by simp [Alike]) trivial
    · exact trivial

end Flour.Backend.Exact

namespace Flour.Models

open Flour.Backend Flour.Kv

/-- The tiny model, as it is loaded. -/
example : ∃ (m : CausalLM ℚ (Exact ℚ)) (tables : RopeTables (Exact ℚ)) (c : Kv.Cache (Exact ℚ)),
    CausalLM.load tinyCheckpoint tinyConfig = .ok m ∧ newCache tinyConfig .f32 = .ok (tables, c) ∧
      Runs (m.staged tables) .f32 (Shaped tinyConfig .f32) ∧
      Steady (m.textbook tables tinyParts) tinyTask.params (Shaped tinyConfig .f32)
        tinyConfig.vocabSize fun id => id.toNat < tinyConfig.vocabSize := by
  obtain ⟨m, tables, c, hload, hnew⟩ := tiny_loads
  obtain ⟨hm, hcfg, ht, -⟩ := formed_of_load tinyCheckpoint_lawful isFloat_f32 hload hnew
  rw [← hcfg] at ht
  have hv : m.cfg.Valid := hcfg ▸ tinyConfig_valid
  have hspeak : tinyParts.Speak m.cfg tinyTask.params := hcfg ▸ tinyParts_speak tinyTask.params
  exact ⟨m, tables, c, hload, hnew, hcfg ▸ staged_runs isFloat_f32 hm hv ht,
    hcfg ▸ engine_steady isFloat_f32 hm hv (hspeak.engine hm tables)⟩

end Flour.Models
