/-
  File:      Flour/Models/Causal.lean
  Subject:   The loaded model computes the decoder-only transformer of its weights.

  * `CausalLM.decoder` -- the mathematical model with the numbers of the loaded tensors;
  * `project_heads`, `attend_rows` -- a layer, before it writes and after it has read, on a batch of
    any length at any position of the sequence;
  * `CausalLM.rowOf` -- the K/V rows as bit patterns; `splits_of_rows` -- blocks that have these rows
    cut the keys and values of the sequence;
  * **`staged_evaluates`** -- so the cached model computes, position by position, what the
    transformer without a cache does.
-/
import Flour.Kv.Logits
import Flour.Models.Layers

namespace Flour.Models

open Flour.Backend Flour.Kv Flour.Lib
open Flour.Lib.Transformer (Affine Block Decoder Shape)
open ExactCandle

/-! ## 1. The weights as numbers -/

section Weights

variable {K T : Type} [Field K] [ExactCandle K T]

def num (t : T) (idx : List ℕ) : K := (elem t idx).unbotD 0

def vecOf (t : T) (j : ℕ) : K := num t [j]

def tableOf (t : T) (i j : ℕ) : K := num t [i, j]

def Linear.affine (l : Linear T) : Affine K where
  weight := tableOf l.weight
  bias := l.bias.map vecOf

instance : Inhabited (Affine K) := ⟨⟨fun _ _ => 0, none⟩⟩

instance : Inhabited (Block K) :=
  ⟨⟨0, 0, default, default, default, default, none, none, default, default, default⟩⟩

def DecoderLayer.block (l : DecoderLayer K T) : Block K where
  inputNorm := vecOf l.inputLayernorm.weight
  postNorm := vecOf l.postAttentionLayernorm.weight
  q := l.selfAttn.qProj.affine
  k := l.selfAttn.kProj.affine
  v := l.selfAttn.vProj.affine
  o := l.selfAttn.oProj.affine
  qNorm := l.selfAttn.qNorm.map fun n => vecOf n.weight
  kNorm := l.selfAttn.kNorm.map fun n => vecOf n.weight
  gate := l.mlp.gateProj.affine
  up := l.mlp.upProj.affine
  down := l.mlp.downProj.affine

omit [Field K] in
def Config.shape (cfg : Config K) : Shape K where
  hidden := cfg.hiddenSize
  inner := cfg.intermediateSize
  kvHeads := cfg.numKeyValueHeads
  rep := cfg.numAttentionHeads / cfg.numKeyValueHeads
  headDim := cfg.headDim
  eps := cfg.rmsNormEps
  base := cfg.ropeTheta

/-- The transformer of the loaded weights. An id without a row has a row of zeros. -/
def CausalLM.decoder (m : CausalLM K T) : Decoder UInt32 K where
  shape := m.cfg.shape
  layers := m.cfg.numHiddenLayers
  embed id c := if id.toNat < m.cfg.vocabSize then tableOf m.embedTokens id.toNat c else 0
  block i := (m.layers[i]?).elim default DecoderLayer.block
  norm := vecOf m.norm.weight
  unembed := m.lmHead.affine

end Weights

/-! ## 2. What loading makes sure of -/

section Formed

variable {K T : Type} [Field K] [ExactCandle K T]

/-- The weight has the sizes asked for, and all of it are numbers. -/
structure Linear.Formed (dt : DType) (m d : ℕ) (l : Linear T) : Prop where
  weight : Table l.weight dt d m (tableOf l.weight)
  bias : ∀ b ∈ l.bias, Vec b dt d (vecOf b)

structure RmsNorm.Formed (dt : DType) (eps : K) (d : ℕ) (n : RmsNorm K T) : Prop where
  weight : Vec n.weight dt d (vecOf n.weight)
  eps : n.eps = eps

structure DecoderLayer.Formed (cfg : Config K) (dt : DType) (l : DecoderLayer K T) : Prop where
  inputLayernorm : l.inputLayernorm.Formed dt cfg.rmsNormEps cfg.hiddenSize
  postAttentionLayernorm : l.postAttentionLayernorm.Formed dt cfg.rmsNormEps cfg.hiddenSize
  qProj : l.selfAttn.qProj.Formed dt cfg.hiddenSize (cfg.numAttentionHeads * cfg.headDim)
  kProj : l.selfAttn.kProj.Formed dt cfg.hiddenSize (cfg.numKeyValueHeads * cfg.headDim)
  vProj : l.selfAttn.vProj.Formed dt cfg.hiddenSize (cfg.numKeyValueHeads * cfg.headDim)
  oProj : l.selfAttn.oProj.Formed dt (cfg.numAttentionHeads * cfg.headDim) cfg.hiddenSize
  qNorm : ∀ n ∈ l.selfAttn.qNorm, n.Formed dt cfg.rmsNormEps cfg.headDim
  kNorm : ∀ n ∈ l.selfAttn.kNorm, n.Formed dt cfg.rmsNormEps cfg.headDim
  numAttentionHeads : l.selfAttn.numAttentionHeads = cfg.numAttentionHeads
  numKeyValueHeads : l.selfAttn.numKeyValueHeads = cfg.numKeyValueHeads
  headDim : l.selfAttn.headDim = cfg.headDim
  gateProj : l.mlp.gateProj.Formed dt cfg.hiddenSize cfg.intermediateSize
  upProj : l.mlp.upProj.Formed dt cfg.hiddenSize cfg.intermediateSize
  downProj : l.mlp.downProj.Formed dt cfg.intermediateSize cfg.hiddenSize

structure CausalLM.Formed (dt : DType) (m : CausalLM K T) : Prop where
  embedTokens : Table m.embedTokens dt m.cfg.vocabSize m.cfg.hiddenSize (tableOf m.embedTokens)
  layers : ∀ l ∈ m.layers, l.Formed m.cfg dt
  length : m.layers.length = m.cfg.numHiddenLayers
  norm : m.norm.Formed dt m.cfg.rmsNormEps m.cfg.hiddenSize
  lmHead : m.lmHead.Formed dt m.cfg.hiddenSize m.cfg.vocabSize

/-- A checkpoint whose tensors have the shape asked for, one element type, and numbers in it. -/
def VarBuilder.Lawful (dt : DType) (vb : VarBuilder T) : Prop :=
  ∀ name shape t, vb.backend name shape = .ok t →
    dims t = shape ∧ dtype t = dt ∧ ∀ idx, elem t idx ≠ ⊥

variable {dt : DType} {vb : VarBuilder T} {cfg : Config K}

theorem elem_eq_num {t : T} {idx : List ℕ} (h : elem t idx ≠ ⊥) :
    elem t idx = ((num t idx : K) : WithBot K) := by
  obtain ⟨x, hx⟩ := WithBot.ne_bot_iff_exists.mp h
  unfold num
  rw [← hx]
  rfl

namespace VarBuilder.Lawful

omit [Field K] in
theorem at_path (h : vb.Lawful dt) (path : List String) :
    VarBuilder.Lawful dt { vb with path := path } := h

theorem vec (h : vb.Lawful dt) {d : ℕ} {name : String} {t : T} (ht : vb.get [d] name = .ok t) :
    Vec t dt d (vecOf t) := by
  obtain ⟨hd, hdt, he⟩ := h _ _ t ht
  exact ⟨hd, hdt, fun j _ => elem_eq_num (he [j])⟩

theorem table (h : vb.Lawful dt) {n d : ℕ} {name : String} {t : T}
    (ht : vb.get [n, d] name = .ok t) : Table t dt n d (tableOf t) := by
  obtain ⟨hd, hdt, he⟩ := h _ _ t ht
  exact ⟨hd, hdt, fun i j _ _ => elem_eq_num (he [i, j])⟩

theorem linear (h : vb.Lawful dt) {m d : ℕ} {l : Linear T} (hl : Models.linear m d vb = .ok l) :
    l.Formed dt m d := by
  obtain ⟨w, hw, hl⟩ := bind_eq_ok.mp hl
  obtain ⟨b, hb, hl⟩ := bind_eq_ok.mp hl
  cases hl
  exact ⟨h.table hw, fun _ hmem => (Option.mem_some.mp hmem) ▸ h.vec hb⟩

theorem linearNoBias (h : vb.Lawful dt) {m d : ℕ} {l : Linear T}
    (hl : Models.linearNoBias m d vb = .ok l) : l.Formed dt m d := by
  obtain ⟨w, hw, hl⟩ := bind_eq_ok.mp hl
  cases hl
  exact ⟨h.table hw, fun _ hmem => by cases hmem⟩

theorem rmsNorm (h : vb.Lawful dt) {d : ℕ} {eps : K} {n : RmsNorm K T}
    (hn : Models.rmsNorm d eps vb = .ok n) : n.Formed dt eps d := by
  obtain ⟨w, hw, hn⟩ := bind_eq_ok.mp hn
  cases hn
  exact ⟨h.vec hw, rfl⟩

/-- A projection, with or without bias. -/
theorem proj (h : vb.Lawful dt) {m d : ℕ} {bias : Bool} {l : Linear T}
    (hl : (if bias then Models.linear else Models.linearNoBias) m d vb = .ok l) :
    l.Formed dt m d := by
  cases bias with
  | true => exact h.linear hl
  | false => exact h.linearNoBias hl

theorem optionalNorm (h : vb.Lawful dt) {d : ℕ} {eps : K} {use : Bool} {o : Option (RmsNorm K T)}
    (ho : Models.optionalNorm use d eps vb = .ok o) : ∀ n ∈ o, n.Formed dt eps d := by
  cases use with
  | true =>
    obtain ⟨n, hn, ho⟩ := bind_eq_ok.mp ho
    cases ho
    exact fun _ hmem => Option.mem_some.mp hmem ▸ h.rmsNorm hn
  | false =>
    cases ho
    exact fun _ hmem => by cases hmem

end VarBuilder.Lawful

theorem DecoderLayer.formed_load (h : vb.Lawful dt) {l : DecoderLayer K T}
    (hl : DecoderLayer.load vb cfg = .ok l) : l.Formed cfg dt := by
  obtain ⟨inputLayernorm, hinput, hl⟩ := bind_eq_ok.mp hl
  obtain ⟨postLayernorm, hpost, hl⟩ := bind_eq_ok.mp hl
  obtain ⟨attn, hattn, hl⟩ := bind_eq_ok.mp hl
  obtain ⟨mlp, hmlp, hl⟩ := bind_eq_ok.mp hl
  cases hl
  obtain ⟨q, hq, hattn⟩ := bind_eq_ok.mp hattn
  obtain ⟨k, hk, hattn⟩ := bind_eq_ok.mp hattn
  obtain ⟨v, hv, hattn⟩ := bind_eq_ok.mp hattn
  obtain ⟨o, ho, hattn⟩ := bind_eq_ok.mp hattn
  obtain ⟨qNorm, hqNorm, hattn⟩ := bind_eq_ok.mp hattn
  obtain ⟨kNorm, hkNorm, hattn⟩ := bind_eq_ok.mp hattn
  cases hattn
  obtain ⟨gate, hgate, hmlp⟩ := bind_eq_ok.mp hmlp
  obtain ⟨up, hup, hmlp⟩ := bind_eq_ok.mp hmlp
  obtain ⟨down, hdown, hmlp⟩ := bind_eq_ok.mp hmlp
  cases hmlp
  rw [Nat.mul_comm] at hq hk hv ho
  exact { inputLayernorm := (h.at_path _).rmsNorm hinput
          postAttentionLayernorm := (h.at_path _).rmsNorm hpost
          qProj := (h.at_path _).proj hq
          kProj := (h.at_path _).proj hk
          vProj := (h.at_path _).proj hv
          oProj := (h.at_path _).linearNoBias ho
          qNorm := (h.at_path _).optionalNorm hqNorm
          kNorm := (h.at_path _).optionalNorm hkNorm
          numAttentionHeads := rfl
          numKeyValueHeads := rfl
          headDim := rfl
          gateProj := (h.at_path _).linearNoBias hgate
          upProj := (h.at_path _).linearNoBias hup
          downProj := (h.at_path _).linearNoBias hdown }

/-- **A loaded model** has tensors of the configured shapes. -/
theorem CausalLM.formed_load (h : vb.Lawful dt) {m : CausalLM K T}
    (hm : CausalLM.load vb cfg = .ok m) : m.Formed dt ∧ m.cfg = cfg := by
  obtain ⟨embed, hembed, hm⟩ := bind_eq_ok.mp hm
  obtain ⟨layers, hlayers, hm⟩ := bind_eq_ok.mp hm
  obtain ⟨norm, hnorm, hm⟩ := bind_eq_ok.mp hm
  obtain ⟨lmHead, hlmHead, hm⟩ := bind_eq_ok.mp hm
  cases hm
  have hembed : Table embed dt cfg.vocabSize cfg.hiddenSize (tableOf embed) := (h.at_path _).table hembed
  have hloaded := mapM_eq_ok hlayers
  refine ⟨⟨hembed, fun l hl => ?_, by rw [← hloaded.length_eq, List.length_range],
    (h.at_path _).rmsNorm hnorm,
    ?_⟩, rfl⟩
  · obtain ⟨i, hi, rfl⟩ := List.getElem_of_mem hl
    exact DecoderLayer.formed_load (h.at_path _) (hloaded.get (hloaded.length_eq ▸ hi) hi)
  · unfold loadHead at hlmHead
    split_ifs at hlmHead with htie
    · cases hlmHead
      exact ⟨hembed, fun _ hmem => by cases hmem⟩
    · exact (h.at_path _).linearNoBias hlmHead

end Formed

/-! ## 3. The parts of a layer -/

section Parts

variable {K T : Type} [Field K] [LinearOrder K] [HasElementary K] [Candle T] [ExactCandle K T]
  [NnCandle K T] [LawfulNnCandle K T] {dt : DType} {x : T} {f : ℕ → ℕ → K} {n m d : ℕ}

theorem Linear.forward_rows {l : Linear T} (hdt : IsFloat dt) (hl : l.Formed dt m d)
    (hx : Rows x dt n m f) :
    ∃ t, l.forward x = .ok t ∧ Rows t dt n d fun i => l.affine.apply m (f i) := by
  unfold Linear.forward
  cases hb : l.bias with
  | none =>
    obtain ⟨t, ht, hr⟩ := LawfulNnCandle.linear_result hdt hl.weight hx
    exact ⟨t, ht, hr.congr fun i j _ _ => by simp [Affine.apply, Linear.affine, hb]⟩
  | some b =>
    obtain ⟨t, ht, hr⟩ := LawfulNnCandle.linear_bias hdt hl.weight (hl.bias b hb) hx
    exact ⟨t, ht, hr.congr fun i j _ _ => by simp [Affine.apply, Linear.affine, hb]⟩

section Norms

variable [IsStrictOrderedRing K] [LawfulElementary K]

/-- The mean of the squares keeps the root away from zero. -/
theorem sqrt_mean_ne_zero {eps : K} (heps : 0 < eps) (g : ℕ → K) (d : ℕ) :
    HasElementary.sqrt ((∑ p ∈ Finset.range d, g p * g p) / d + eps) ≠ 0 :=
  LawfulElementary.sqrt_ne_zero (add_pos_of_nonneg_of_pos
    (div_nonneg (Finset.sum_nonneg fun p _ => mul_self_nonneg (g p)) d.cast_nonneg) heps)

theorem RmsNorm.forward_rows {w : RmsNorm K T} {eps : K} (hdt : IsFloat dt)
    (hw : w.Formed dt eps d) (heps : 0 < eps) (hx : Rows x dt n d f) : ∃ t, w.forward x = .ok t ∧
      Rows t dt n d fun i => Transformer.rmsNorm (elementary K) eps (vecOf w.weight) d (f i) := by
  unfold RmsNorm.forward
  rw [hw.eps]
  exact LawfulNnCandle.rmsNorm_rows hdt hw.weight hx fun i _ => sqrt_mean_ne_zero heps (f i) d

theorem RmsNorm.forward_heads {w : RmsNorm K T} {eps : K} {g : ℕ → ℕ → ℕ → K} (hdt : IsFloat dt)
    (hw : w.Formed dt eps d) (heps : 0 < eps) (hx : Heads x dt n m d g) :
    ∃ t, w.forward x = .ok t ∧ Heads t dt n m d fun i j =>
      Transformer.rmsNorm (elementary K) eps (vecOf w.weight) d (g i j) := by
  unfold RmsNorm.forward
  rw [hw.eps]
  exact LawfulNnCandle.rmsNorm_heads hdt hw.weight hx fun i j _ _ => sqrt_mean_ne_zero heps (g i j) d

end Norms

variable [LawfulExactCandle K T]

theorem headsFirst_heads {g : ℕ → ℕ → ℕ → K} (hx : Heads x dt n m d g) :
    ∃ t, CausalSelfAttention.headsFirst x = .ok t ∧ Heads t dt m n d fun j i => g i j := by
  obtain ⟨u, hu, eu⟩ := LawfulNnCandle.transpose_middle hx
  obtain ⟨t, ht, et⟩ := contiguous_entries eu
  refine ⟨t, ?_, et⟩
  unfold CausalSelfAttention.headsFirst
  rw [hu, ok_bind, ht]

/-- The tables of a configuration. -/
structure RopeTables.Formed (cfg : Config K) (dt : DType) (r : RopeTables T) : Prop where
  cos : Table r.cos dt cfg.maxSeqLen (cfg.headDim / 2) fun p i =>
    HasElementary.cos (Transformer.angle (elementary K) cfg.ropeTheta cfg.headDim p i)
  sin : Table r.sin dt cfg.maxSeqLen (cfg.headDim / 2) fun p i =>
    HasElementary.sin (Transformer.angle (elementary K) cfg.ropeTheta cfg.headDim p i)

/-- **The tables** can be made, and hold the angles of every position. -/
theorem RopeTables.formed_new {cfg : Config K} (hdt : IsFloat dt) (hmax : cfg.maxSeqLen < 2 ^ 32) :
    ∃ r : RopeTables T, RopeTables.new cfg dt = .ok r ∧ r.Formed cfg dt := by
  obtain ⟨theta, htheta, etheta⟩ := LawfulNnCandle.new_result (T := T)
    ((List.range (cfg.headDim / 2)).map fun i =>
      1 / HasElementary.powf cfg.ropeTheta ((2 * i : ℕ) / (cfg.headDim : K)))
  obtain ⟨pos, hpos, epos⟩ := LawfulNnCandle.arange_result (K := K) (T := T) (cfg.maxSeqLen % 2 ^ 32)
  rw [Nat.mod_eq_of_lt hmax] at hpos epos
  obtain ⟨pos', hpos', epos'⟩ := toDtype_vec epos isFloat_f32
  obtain ⟨column, hcolumn, ecolumn⟩ := reshape_column epos'
  obtain ⟨row, hrow, erow⟩ := reshape_row etheta
  rw [List.length_map, List.length_range] at hrow erow
  obtain ⟨idx, hidx, eidx⟩ := LawfulNnCandle.matmul_result isFloat_f32 ecolumn erow
  obtain ⟨c, hc, ec⟩ := LawfulNnCandle.cos_result isFloat_f32 eidx
  obtain ⟨c', hc', ec'⟩ := toDtype_table ec hdt
  obtain ⟨cos, hcos, ecos⟩ := contiguous_table ec'
  obtain ⟨s, hs, es⟩ := LawfulNnCandle.sin_result isFloat_f32 eidx
  obtain ⟨s', hs', es'⟩ := toDtype_table es hdt
  obtain ⟨sin, hsin, esin⟩ := contiguous_table es'
  -- one product for each position and pair of channels
  have hangle : ∀ p i, i < cfg.headDim / 2 →
      ∑ q ∈ Finset.range 1, ((p : ℕ) : K) * ((List.range (cfg.headDim / 2)).map fun i =>
        1 / HasElementary.powf cfg.ropeTheta ((2 * i : ℕ) / (cfg.headDim : K))).getD i 0 =
      Transformer.angle (elementary K) cfg.ropeTheta cfg.headDim p i := fun p i hi => by
    rw [Finset.sum_range_one, List.getD_eq_getElem _ _ (by simpa using hi), List.getElem_map,
      List.getElem_range]
    rfl
  refine ⟨⟨cos, sin⟩, ?_, ecos.congr fun p i _ hi => congrArg _ (hangle p i hi),
    esin.congr fun p i _ hi => congrArg _ (hangle p i hi)⟩
  unfold RopeTables.new
  simp only [htheta, hpos, hpos', hcolumn, hrow, hidx, hc, hc', hcos, hs, hs', hsin, ok_bind,
    Nat.mod_eq_of_lt hmax]
  rfl

omit [LawfulExactCandle K T] in
/-- The heads of a batch that starts at `indexPos`, turned to their positions. -/
theorem rope_heads {s : Shape K} {g : ℕ → ℕ → ℕ → K} {c sn : T} {indexPos : ℕ}
    (hdt : IsFloat dt) (hd : s.headDim % 2 = 0) (hx : Heads x dt m n s.headDim g)
    (hc : Table c dt n (s.headDim / 2) fun i k =>
      HasElementary.cos (Transformer.angle (elementary K) s.base s.headDim (indexPos + i) k))
    (hs : Table sn dt n (s.headDim / 2) fun i k =>
      HasElementary.sin (Transformer.angle (elementary K) s.base s.headDim (indexPos + i) k)) :
    ∃ t, NnCandle.rope x c sn = .ok t ∧ Heads t dt m n s.headDim fun j i =>
      Transformer.positioned (elementary K) s (indexPos + i) (g j i) := by
  have heven : 2 * (s.headDim / 2) = s.headDim := by omega
  have hx : Heads x dt m n (2 * (s.headDim / 2)) g := heven.symm ▸ hx
  obtain ⟨t, ht, et⟩ := LawfulNnCandle.rope_result hdt hx hc hs
  rw [heven] at et
  exact ⟨t, ht, et⟩

end Parts

section Layers

variable {K T : Type} [Field K] [LinearOrder K] [IsStrictOrderedRing K] [HasElementary K]
  [LawfulElementary K] [Candle T] [ExactCandle K T] [LawfulExactCandle K T] [NnCandle K T]
  [LawfulNnCandle K T] {dt : DType} {x : T} {f : ℕ → ℕ → K} {n m d : ℕ}

theorem splitHeads_heads {s : Shape K} {h : ℕ} {norm : Option (RmsNorm K T)}
    (hdt : IsFloat dt) (hn : ∀ w ∈ norm, w.Formed dt s.eps s.headDim) (heps : 0 < s.eps)
    (hx : Rows x dt n (h * s.headDim) f) :
    ∃ t, CausalSelfAttention.splitHeads x 1 n h s.headDim norm = .ok t ∧
      Heads t dt n h s.headDim fun i j => Transformer.normalized (elementary K) s
        (norm.map fun w => vecOf w.weight) fun c => f i (j * s.headDim + c) := by
  obtain ⟨u, hu, eu⟩ := reshape_heads hx
  unfold CausalSelfAttention.splitHeads
  rw [hu, ok_bind]
  cases norm with
  | none => exact ⟨u, rfl, eu⟩
  | some w =>
    obtain ⟨v, hv, ev⟩ := contiguous_entries eu
    obtain ⟨t, ht, et⟩ := RmsNorm.forward_heads hdt (hn w rfl) heps ev
    refine ⟨t, ?_, et⟩
    show (contiguous u >>= w.forward) = _
    rw [hv, ok_bind, ht]


/-- The sizes a model needs: whole groups of query heads, and pairs of channels. -/
structure Config.Valid (cfg : Config K) : Prop where
  kvHeads : 0 < cfg.numKeyValueHeads
  heads : 0 < cfg.numAttentionHeads
  groups : cfg.numAttentionHeads % cfg.numKeyValueHeads = 0
  headDim : 0 < cfg.headDim
  even : cfg.headDim % 2 = 0
  eps : 0 < cfg.rmsNormEps

variable {cfg : Config K} {l : DecoderLayer K T} {tables : RopeTables T} {X : ℕ → ℕ → K}
  {indexPos : ℕ}

/-- **Before the write**: queries, keys and values of the positions of the batch. -/
theorem DecoderLayer.project_heads (hdt : IsFloat dt) (hl : l.Formed cfg dt)
    (ht : tables.Formed cfg dt) (hv : cfg.Valid) (hmax : indexPos + n ≤ cfg.maxSeqLen)
    (hx : Rows x dt n cfg.hiddenSize fun i => X (indexPos + i)) :
    ∃ q k v, l.project tables x indexPos = .ok ((1, n), q, k, v) ∧
      Heads q dt cfg.numAttentionHeads n cfg.headDim
        (fun j i => l.block.query (elementary K) cfg.shape X (indexPos + i) j) ∧
      Heads k dt cfg.numKeyValueHeads n cfg.headDim
        (fun j i => l.block.key (elementary K) cfg.shape X (indexPos + i) j) ∧
      Heads v dt cfg.numKeyValueHeads n cfg.headDim
        (fun j i => l.block.value (elementary K) cfg.shape X (indexPos + i) j) := by
  obtain ⟨h, hh, eh⟩ := RmsNorm.forward_rows hdt hl.inputLayernorm hv.eps hx
  obtain ⟨q₀, hq₀, eq₀⟩ := Linear.forward_rows hdt hl.qProj eh
  obtain ⟨k₀, hk₀, ek₀⟩ := Linear.forward_rows hdt hl.kProj eh
  obtain ⟨v₀, hv₀, ev₀⟩ := Linear.forward_rows hdt hl.vProj eh
  obtain ⟨q₁, hq₁, eq₁⟩ := splitHeads_heads (s := cfg.shape) hdt hl.qNorm hv.eps eq₀
  obtain ⟨k₁, hk₁, ek₁⟩ := splitHeads_heads (s := cfg.shape) hdt hl.kNorm hv.eps ek₀
  obtain ⟨v₁, hv₁, ev₁⟩ := splitHeads_heads (s := cfg.shape) hdt
    (fun n hmem => absurd hmem (Option.not_mem_none n)) hv.eps ev₀
  obtain ⟨q₂, hq₂, eq₂⟩ := headsFirst_heads eq₁
  obtain ⟨k₂, hk₂, ek₂⟩ := headsFirst_heads ek₁
  obtain ⟨v₂, hv₂, ev₂⟩ := headsFirst_heads ev₁
  obtain ⟨c, hc, ec⟩ := narrow_table ht.cos hmax
  obtain ⟨sn, hs, es⟩ := narrow_table ht.sin hmax
  obtain ⟨q, hq, eq⟩ := rope_heads (s := cfg.shape) hdt hv.even eq₂ ec es
  obtain ⟨k, hk, ek⟩ := rope_heads (s := cfg.shape) hdt hv.even ek₂ ec es
  refine ⟨q, k, v₂, ?_, eq, ek, ev₂⟩
  have hdims : dims3 h = .ok (1, n, cfg.hiddenSize) := by
    unfold dims3
    rw [eh.dims]
  have hq₁ : CausalSelfAttention.splitHeads q₀ 1 n cfg.numAttentionHeads cfg.headDim _ = .ok q₁ := hq₁
  have hk₁ : CausalSelfAttention.splitHeads k₀ 1 n cfg.numKeyValueHeads cfg.headDim _ = .ok k₁ := hk₁
  have hv₁ : CausalSelfAttention.splitHeads v₀ 1 n cfg.numKeyValueHeads cfg.headDim _ = .ok v₁ := hv₁
  have hcos : tables.ropeCos indexPos n = .ok c := hc
  have hsin : tables.ropeSin indexPos n = .ok sn := hs
  unfold DecoderLayer.project CausalSelfAttention.project
  rw [hl.numAttentionHeads, hl.numKeyValueHeads, hl.headDim]
  simp only [hh, hdims, hq₀, hk₀, hv₀, hq₁, hk₁, hv₁, hq₂, hk₂, hv₂, hcos, hsin, hq, hk, ok_bind]
  rfl

omit [LawfulExactCandle K T] in
theorem DecoderLayer.mlp_rows (hdt : IsFloat dt) (hl : l.Formed cfg dt)
    (hx : Rows x dt n cfg.hiddenSize f) :
    ∃ t, l.mlp.forward x = .ok t ∧
      Rows t dt n cfg.hiddenSize fun i => l.block.mlp (elementary K) cfg.shape (f i) := by
  obtain ⟨gate, hgate, egate⟩ := Linear.forward_rows hdt hl.gateProj hx
  obtain ⟨act, hact, eact⟩ := LawfulNnCandle.silu_result hdt egate fun i j _ _ =>
    (add_pos one_pos (LawfulElementary.exp.pos _)).ne'
  obtain ⟨up, hup, eup⟩ := Linear.forward_rows hdt hl.upProj hx
  obtain ⟨y, hy, ey⟩ := LawfulNnCandle.mul_result hdt eact eup
  obtain ⟨t, ht, et⟩ := Linear.forward_rows hdt hl.downProj ey
  refine ⟨t, ?_, et⟩
  unfold MLP.forward
  simp only [hgate, hact, hup, hy, ht, ok_bind]

omit [IsStrictOrderedRing K] [HasElementary K] [LawfulElementary K] in
theorem Config.Valid.heads_eq (hv : cfg.Valid) :
    cfg.numKeyValueHeads * (cfg.numAttentionHeads / cfg.numKeyValueHeads) = cfg.numAttentionHeads :=
  Nat.mul_div_cancel' (Nat.dvd_of_mod_eq_zero hv.groups)

omit [IsStrictOrderedRing K] [HasElementary K] [LawfulElementary K] in
theorem Config.Valid.rep_pos (hv : cfg.Valid) :
    1 ≤ cfg.numAttentionHeads / cfg.numKeyValueHeads :=
  Nat.div_pos (Nat.le_of_dvd hv.heads (Nat.dvd_of_mod_eq_zero hv.groups)) hv.kvHeads

omit [LinearOrder K] [IsStrictOrderedRing K] [LawfulElementary K] in
/-- What is visible of the whole sequence are the positions up to that of the query. -/
theorem softmaxMean_visible (b : Block K) (X : ℕ → ℕ → K) {i kvLen : ℕ} (hi : indexPos + i < kvLen)
    (h c z : ℕ) :
    softmaxMean HasExp.exp
      (visible (fun _ j k => b.query (elementary K) cfg.shape X (indexPos + k) j)
        (fun _ j p => b.key (elementary K) cfg.shape X p (j / cfg.shape.rep)) cfg.headDim indexPos
        (1 / HasElementary.sqrt (cfg.headDim : K)) z h i)
      (fun p => b.value (elementary K) cfg.shape X p (h / cfg.shape.rep) c) kvLen =
    b.mixed (elementary K) cfg.shape X (indexPos + i) h c := by
  refine (softmaxMean_hidden hi fun p hp _ => if_pos hp).trans ?_
  exact softmaxMean_congr (fun p hp => if_neg (by omega)) fun _ _ => rfl

/-- Attention over blocks that cut any keys and values, its heads side by side again. -/
theorem DecoderLayer.attention_rows (hdt : IsFloat dt) (hl : l.Formed cfg dt) (hv : cfg.Valid)
    (hn : 0 < n) {q : T} {blocks : List (T × T)} {g kf vf : ℕ → ℕ → ℕ → K}
    (hq : Heads q dt cfg.numAttentionHeads n cfg.headDim g)
    (hs : Splits dt 1 cfg.numKeyValueHeads cfg.headDim (fun _ => kf) (fun _ => vf) 0 (indexPos + n)
      blocks) :
    ∃ t, l.selfAttn.attend q blocks 1 n = .ok t ∧ Rows t dt n cfg.hiddenSize fun i =>
      l.block.o.apply (cfg.numAttentionHeads * cfg.headDim) fun c => softmaxMean HasExp.exp
        (visible (fun _ => g) (fun _ j => kf (j / cfg.shape.rep)) cfg.headDim indexPos
          (1 / HasElementary.sqrt (cfg.headDim : K)) 0 (c / cfg.headDim) i)
        (fun p => vf (c / cfg.headDim / cfg.shape.rep) p (c % cfg.headDim)) (indexPos + n) := by
  have hheads := hv.heads_eq
  have hq : Heads q dt (cfg.numKeyValueHeads * cfg.shape.rep) n cfg.headDim g := hheads.symm ▸ hq
  obtain ⟨⟨y, hy, ey⟩, -⟩ := pagedAttention_entries LawfulElementary.exp
    (1 / HasElementary.sqrt (cfg.headDim : K)) hdt hv.rep_pos hn (Nat.le_add_left n indexPos) hq hs
  rw [Nat.add_sub_cancel] at ey
  have ey : Heads y dt cfg.numAttentionHeads n cfg.headDim fun j i c => softmaxMean HasExp.exp
      (visible (fun _ => g) (fun _ j => kf (j / cfg.shape.rep)) cfg.headDim indexPos
        (1 / HasElementary.sqrt (cfg.headDim : K)) 0 j i)
      (fun p => vf (j / cfg.shape.rep) p c) (indexPos + n) := hheads ▸ ey
  obtain ⟨y₁, hy₁, ey₁⟩ := LawfulNnCandle.transpose_middle ey
  obtain ⟨y₂, hy₂, ey₂⟩ := reshape_rows hv.headDim ey₁
  obtain ⟨o, ho, eo⟩ := Linear.forward_rows hdt hl.oProj ey₂
  refine ⟨o, ?_, eo⟩
  unfold CausalSelfAttention.attend
  rw [hl.numAttentionHeads, hl.numKeyValueHeads, hl.headDim]
  simp only [hy, hy₁, hy₂, ho, ok_bind]

omit [LawfulExactCandle K T] in
/-- What follows attention. -/
theorem DecoderLayer.rest_rows (hdt : IsFloat dt) (hl : l.Formed cfg dt) (hv : cfg.Valid) {o : T}
    {g : ℕ → ℕ → K} (hx : Rows x dt n cfg.hiddenSize f) (ho : Rows o dt n cfg.hiddenSize g) :
    ∃ t, l.rest x o = .ok t ∧ Rows t dt n cfg.hiddenSize fun i c =>
      f i c + g i c + l.block.mlp (elementary K) cfg.shape (Transformer.rmsNorm (elementary K)
        cfg.rmsNormEps l.block.postNorm cfg.hiddenSize fun c => f i c + g i c) c := by
  obtain ⟨h, hh, eh⟩ := LawfulNnCandle.add_result hdt hx ho
  obtain ⟨w, hw, ew⟩ := RmsNorm.forward_rows hdt hl.postAttentionLayernorm hv.eps eh
  obtain ⟨u, hu, eu⟩ := DecoderLayer.mlp_rows hdt hl ew
  obtain ⟨t, ht, et⟩ := LawfulNnCandle.add_result hdt eh eu
  refine ⟨t, ?_, et⟩
  unfold DecoderLayer.rest
  simp only [hh, hw, hu, ht, ok_bind]

/-- **After the read**: with the keys and values of the whole sequence, the batch leaves the layer as
    its positions leave the block. -/
theorem DecoderLayer.attend_rows (hdt : IsFloat dt) (hl : l.Formed cfg dt) (hv : cfg.Valid)
    (hn : 0 < n) {q : T} {blocks : List (T × T)}
    (hx : Rows x dt n cfg.hiddenSize fun i => X (indexPos + i))
    (hq : Heads q dt cfg.numAttentionHeads n cfg.headDim
      (fun j i => l.block.query (elementary K) cfg.shape X (indexPos + i) j))
    (hs : Splits dt 1 cfg.numKeyValueHeads cfg.headDim
      (fun _ j p => l.block.key (elementary K) cfg.shape X p j)
      (fun _ j p => l.block.value (elementary K) cfg.shape X p j) 0 (indexPos + n) blocks) :
    ∃ t, l.attend x q 1 n blocks = .ok t ∧ Rows t dt n cfg.hiddenSize fun i =>
      l.block.forward (elementary K) cfg.shape X (indexPos + i) := by
  obtain ⟨o, ho, eo⟩ := DecoderLayer.attention_rows hdt hl hv hn hq hs
  have eo : Rows o dt n cfg.hiddenSize fun i =>
      l.block.o.apply (cfg.numAttentionHeads * cfg.headDim) fun c =>
        l.block.mixed (elementary K) cfg.shape X (indexPos + i) (c / cfg.headDim) (c % cfg.headDim) :=
    eo.congr fun i c hi _ => congrArg (fun y => l.block.o.apply _ y c) (funext fun c =>
      softmaxMean_visible l.block X (by omega) (c / cfg.headDim) (c % cfg.headDim) 0)
  obtain ⟨t, ht, et⟩ := DecoderLayer.rest_rows hdt hl hv hx eo
  refine ⟨t, ?_, et.congr fun i c _ _ => ?_⟩
  · unfold DecoderLayer.attend
    rw [ho, ok_bind, ht]
  · rw [← hv.heads_eq]
    rfl

end Layers

/-! ## 4. The blocks of the cache -/

section Bits

variable {K T : Type} [Candle T] [ExactCandle K T] [Encoded K T] {dt : DType} {cfg : Config K}

variable (T) in
/-- A K or V row as bit patterns. -/
def headBits (cfg : Config K) (g : ℕ → ℕ → K) : Row :=
  (List.range cfg.numKeyValueHeads).map fun j =>
    (List.range cfg.headDim).map fun c => Encoded.bits (T := T) (g j c : WithBot K)

/-- The rows of a tensor of numbers. -/
theorem batchRow_heads {t : T} {n i : ℕ} {g : ℕ → ℕ → ℕ → K}
    (h : Heads t dt cfg.numKeyValueHeads n cfg.headDim g) (hi : i < n) :
    batchRow cfg.numKeyValueHeads cfg.headDim t i = headBits T cfg fun j => g j i := by
  unfold batchRow headBits
  refine List.map_congr_left fun j hj => List.map_congr_left fun c hc => ?_
  rw [Encoded.elem_eq, h.elem 0 j i c Nat.one_pos (List.mem_range.mp hj) hi (List.mem_range.mp hc)]

/-- And back: rows with the bit patterns of numbers are these numbers. -/
theorem heads_of_batchRow {t : T} {n : ℕ} {g : ℕ → ℕ → ℕ → K}
    (hd : Candle.dims t = [1, cfg.numKeyValueHeads, n, cfg.headDim]) (hdt : Candle.dtype t = dt)
    (h : ∀ i, i < n →
      batchRow cfg.numKeyValueHeads cfg.headDim t i = headBits T cfg fun j => g j i) :
    Heads t dt cfg.numKeyValueHeads n cfg.headDim g := by
  refine ⟨(Encoded.dims_eq t).symm.trans hd, (Encoded.dtype_eq t).symm.trans hdt,
    fun z j i c hz hj hi hc => Encoded.bits_injective (T := T) ?_⟩
  obtain rfl : z = 0 := Nat.lt_one_iff.mp hz
  rw [← Encoded.elem_eq]
  exact List.map_inj_left.mp (List.map_inj_left.mp (h i hi) j (List.mem_range.mpr hj)) c
    (List.mem_range.mpr hc)

/-- **Blocks** whose rows are those of a run of positions cut their keys and values. -/
theorem splits_of_rows {kf vf : ℕ → ℕ → ℕ → K} {blocks : List (T × T)} {start len : ℕ}
    (hshape : ∀ view ∈ blocks, ∃ n, 0 < n ∧ OfShape cfg.kv dt n view.1 view.2)
    (hrows : liveRows blocks = (List.range' start len).map fun p =>
      (headBits T cfg fun j => kf j p, headBits T cfg fun j => vf j p)) :
    Splits dt 1 cfg.numKeyValueHeads cfg.headDim (fun _ => kf) (fun _ => vf) start (start + len)
      blocks := by
  induction blocks generalizing start len with
  | nil =>
    have hlen : 0 = len := by simpa [liveRows] using congrArg List.length hrows
    rw [← hlen]
    exact .nil start
  | cons view rest ih =>
    obtain ⟨n, hn, hs⟩ := hshape view List.mem_cons_self
    have hview : PagedKvPool.viewKv view = (List.range n).map fun i =>
        (batchRow cfg.numKeyValueHeads cfg.headDim view.1 i,
          batchRow cfg.numKeyValueHeads cfg.headDim view.2 i) := hs.viewKv_eq
    have hsplit : PagedKvPool.viewKv view ++ liveRows rest = _ := hrows
    have hle : n ≤ len := by
      have hlen := congrArg List.length hsplit
      simp [hview] at hlen
      omega
    obtain ⟨len', rfl⟩ := Nat.exists_eq_add_of_le hle
    rw [← List.range'_append_1, List.map_append] at hsplit
    obtain ⟨hfirst, hlater⟩ := List.append_inj hsplit (by simp [hview])
    rw [hview, List.range'_eq_map_range, List.map_map, List.map_inj_left] at hfirst
    rw [← Nat.add_assoc]
    refine .cons hn (heads_of_batchRow hs.kDims hs.kDtype fun i hi => ?_)
      (heads_of_batchRow hs.vDims hs.vDtype fun i hi => ?_)
      (ih (fun v hv => hshape v (List.mem_cons_of_mem view hv)) hlater)
    · exact (Prod.ext_iff.mp (hfirst i (List.mem_range.mpr hi))).1
    · exact (Prod.ext_iff.mp (hfirst i (List.mem_range.mpr hi))).2

end Bits

/-! ## 5. The model -/

section Model

variable {K T : Type} [Field K] [HasElementary K] [Candle T] [ExactCandle K T]

/-- The K/V rows of the last position of a sequence, on its way into a layer. -/
def CausalLM.rowOf [Encoded K T] (m : CausalLM K T) : RowOf := fun layer seq =>
  let X := m.decoder.states (elementary K) seq layer
  let b := m.decoder.block layer
  (headBits T m.cfg (b.key (elementary K) m.cfg.shape X (seq.length - 1)),
    headBits T m.cfg (b.value (elementary K) m.cfg.shape X (seq.length - 1)))

/-- `x` are the states of `ids` after `before`, on their way into a layer. -/
def CausalLM.Hidden (m : CausalLM K T) (dt : DType) (layer : ℕ) (before ids : List UInt32) (x : T) :
    Prop :=
  Rows x dt ids.length m.cfg.hiddenSize fun i =>
    m.decoder.states (elementary K) (before ++ ids) layer (before.length + i)

/-- `o` are the logits of `ids` after `before`. -/
def CausalLM.Logits (m : CausalLM K T) (dt : DType) (before ids : List UInt32) (o : T) : Prop :=
  Rows o dt ids.length m.cfg.vocabSize fun i =>
    m.decoder.logits (elementary K) (before ++ ids) (before.length + i)

/-- A position has the row of the sequence cut off after it. -/
theorem CausalLM.rowOf_take [Encoded K T] (m : CausalLM K T) (layer : ℕ) {seq : List UInt32} {p : ℕ}
    (hp : p < seq.length) :
    m.rowOf layer (seq.take (p + 1)) =
      (headBits T m.cfg ((m.decoder.block layer).key (elementary K) m.cfg.shape
          (m.decoder.states (elementary K) seq layer) p),
        headBits T m.cfg ((m.decoder.block layer).value (elementary K) m.cfg.shape
          (m.decoder.states (elementary K) seq layer) p)) := by
  have hlen : (seq.take (p + 1)).length - 1 = p := by
    rw [List.length_take]
    omega
  have hstate : m.decoder.states (elementary K) (seq.take (p + 1)) layer p =
      m.decoder.states (elementary K) seq layer p := Decoder.states_take (Nat.lt_succ_self p) layer
  unfold CausalLM.rowOf Block.key Block.value
  simp only [hlen, Block.head_congr hstate]

variable [LinearOrder K] [IsStrictOrderedRing K] [LawfulElementary K] [LawfulExactCandle K T]
  [NnCandle K T] [LawfulNnCandle K T] [Encoded K T] {dt : DType} {m : CausalLM K T}
  {tables : RopeTables T}

omit [HasElementary K] [Candle T] [LinearOrder K] [IsStrictOrderedRing K] [LawfulElementary K]
  [LawfulExactCandle K T] [NnCandle K T] [LawfulNnCandle K T] [Encoded K T] in
/-- A layer of a formed model, by its index. -/
theorem CausalLM.Formed.layer (hm : m.Formed dt) {i : ℕ} (hi : i < m.cfg.numHiddenLayers) :
    ∃ l, m.layer i = .ok l ∧ m.decoder.block i = l.block ∧ l.Formed m.cfg dt := by
  have hlt : i < m.layers.length := hm.length.symm ▸ hi
  have hget := List.getElem?_eq_getElem hlt
  refine ⟨m.layers[i], ?_, ?_, hm.layers _ (List.getElem_mem hlt)⟩
  · unfold CausalLM.layer
    rw [hget]
  · show (m.layers[i]?).elim _ _ = _
    rw [hget]
    rfl

/-- **The cached model** promises, layer by layer, the states, rows and logits of the transformer. -/
theorem staged_evaluates (hdt : IsFloat dt) (hm : m.Formed dt) (hv : m.cfg.Valid)
    (ht : tables.Formed m.cfg dt) :
    Evaluates (m.staged tables) dt m.rowOf (m.Hidden dt) (m.Logits dt) where
  embed {before ids x} h := by
    refine (LawfulNnCandle.embedding_result hm.embedTokens h).congr fun i c _ _ => ?_
    show _ = ((before ++ ids)[before.length + i]?).elim 0 m.decoder.embed c
    rw [List.getElem?_append_right (by omega), Nat.add_sub_cancel_left]
    cases ids[i]? <;> rfl
  keyValue {layer before ids x} hl hx hn hmax := by
    obtain ⟨l, hlayer, hblock, hformed⟩ := hm.layer hl
    obtain ⟨q, k, v, hproject, -, ek, ev⟩ := DecoderLayer.project_heads hdt hformed ht hv hmax hx
    refine ⟨k, v, ?_, ⟨(Encoded.dims_eq k).trans ek.dims, (Encoded.dims_eq v).trans ev.dims,
      (Encoded.dtype_eq k).trans ek.dtype, (Encoded.dtype_eq v).trans ev.dtype⟩, fun j hj => ?_⟩
    · simp only [CausalLM.staged, hlayer, hproject, ok_bind]
      rfl
    · have htake : before ++ ids.take (j + 1) = (before ++ ids).take (before.length + j + 1) := by
        rw [Nat.add_assoc, List.take_length_add_append]
      have hlt : before.length + j < (before ++ ids).length := by
        rw [List.length_append]
        omega
      rw [htake, m.rowOf_take layer hlt, hblock]
      exact Prod.ext (batchRow_heads ek hj) (batchRow_heads ev hj)
  attend {layer before ids x blocks} hl hx hn hmax hshape hb := by
    obtain ⟨l, hlayer, hblock, hformed⟩ := hm.layer hl
    obtain ⟨q, k, v, hproject, eq, -, -⟩ := DecoderLayer.project_heads hdt hformed ht hv hmax hx
    have hrows : liveRows blocks = (List.range' 0 (before.length + ids.length)).map fun p =>
        (headBits T m.cfg fun j => l.block.key (elementary K) m.cfg.shape
            (m.decoder.states (elementary K) (before ++ ids) layer) p j,
          headBits T m.cfg fun j => l.block.value (elementary K) m.cfg.shape
            (m.decoder.states (elementary K) (before ++ ids) layer) p j) := by
      rw [hb, rowsOf, List.length_append, List.range_eq_range']
      refine List.map_congr_left fun p hp => ?_
      rw [m.rowOf_take layer (by simpa using hp), hblock]
    have hsplits := splits_of_rows hshape hrows
    rw [Nat.zero_add] at hsplits
    obtain ⟨x', hx', ex'⟩ := DecoderLayer.attend_rows hdt hformed hv hn hx eq hsplits
    refine ⟨x', ?_, ex'.congr fun i c _ _ => ?_⟩
    · simp only [CausalLM.staged, hlayer, hproject, ok_bind, hx']
    · rw [← hblock]
      rfl
  output {before ids x} hx hn := by
    obtain ⟨y, hy, ey⟩ := RmsNorm.forward_rows hdt hm.norm hv.eps hx
    obtain ⟨o, ho, eo⟩ := Linear.forward_rows hdt hm.lmHead ey
    refine ⟨o, ?_, eo⟩
    show (m.norm.forward x >>= m.lmHead.forward) = _
    rw [hy, ok_bind, ho]

end Model

end Flour.Models
