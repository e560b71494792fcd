/-
  File:      Flour/Models/Layers.lean
  Subject:   The model of `src/models/common`: `attention.rs`, `mlp.rs`, `transformer.rs`, `model.rs`
             and the rope tables of `cache.rs`, in exact arithmetic.

  * `load` reads the tensors from a checkpoint by name and shape; `forward` runs on the K/V cache, a
    `Prog` where it reads or writes it.
  * `CausalLM.staged` -- the same model as the cache sees it: what is computed between two accesses.
    The part before the write is computed once more where its queries are needed.
  * `wp_forward_staged` -- **the staged model does what the model does**, to the cache and to the caller.
-/
import Flour.Kv.Session
import Flour.Models.Nn

namespace Flour.Models

open Flour.Backend Flour.Kv Flour.Lib
open ExactCandle

/-! ## 1. Configuration and checkpoint -/

structure Config (K : Type) where
  hiddenSize : ℕ
  intermediateSize : ℕ
  vocabSize : ℕ
  numHiddenLayers : ℕ
  numAttentionHeads : ℕ
  numKeyValueHeads : ℕ
  headDim : ℕ
  rmsNormEps : K
  ropeTheta : K
  maxSeqLen : ℕ
  useQkvBias : Bool
  useQkNorm : Bool
  tieWordEmbeddings : Bool

/-- What the cache reads of it. -/
def Config.kv {K : Type} (cfg : Config K) : Kv.Config where
  numHiddenLayers := cfg.numHiddenLayers
  numKeyValueHeads := cfg.numKeyValueHeads
  headDim := cfg.headDim
  maxSeqLen := cfg.maxSeqLen

/-- The tensors of a checkpoint, by name and shape, and a path to prefix names with. -/
structure VarBuilder (T : Type) where
  backend : String → List ℕ → Except String T
  path : List String

namespace VarBuilder

variable {T : Type}

def pp (vb : VarBuilder T) (s : String) : VarBuilder T := { vb with path := vb.path ++ [s] }

def get (vb : VarBuilder T) (shape : List ℕ) (name : String) : Except String T :=
  vb.backend (".".intercalate (vb.path ++ [name])) shape

end VarBuilder

/-! ## 2. Parts -/

structure Linear (T : Type) where
  weight : T
  bias : Option T

structure RmsNorm (K T : Type) where
  weight : T
  eps : K

structure CausalSelfAttention (K T : Type) where
  qProj : Linear T
  kProj : Linear T
  vProj : Linear T
  oProj : Linear T
  qNorm : Option (RmsNorm K T)
  kNorm : Option (RmsNorm K T)
  numAttentionHeads : ℕ
  numKeyValueHeads : ℕ
  headDim : ℕ

structure MLP (T : Type) where
  gateProj : Linear T
  upProj : Linear T
  downProj : Linear T

structure DecoderLayer (K T : Type) where
  inputLayernorm : RmsNorm K T
  postAttentionLayernorm : RmsNorm K T
  selfAttn : CausalSelfAttention K T
  mlp : MLP T

structure CausalLM (K T : Type) where
  embedTokens : T
  layers : List (DecoderLayer K T)
  norm : RmsNorm K T
  lmHead : Linear T
  cfg : Config K

/-- The fields of the cache that are not about K/V. -/
structure RopeTables (T : Type) where
  cos : T
  sin : T

section Load

variable {K T : Type}

/-- `candle_nn::linear`. -/
def linear (inDim outDim : ℕ) (vb : VarBuilder T) : Except String (Linear T) := do
  let weight ← vb.get [outDim, inDim] "weight"
  let bias ← vb.get [outDim] "bias"
  return ⟨weight, some bias⟩

/-- `candle_nn::linear_no_bias`. -/
def linearNoBias (inDim outDim : ℕ) (vb : VarBuilder T) : Except String (Linear T) := do
  let weight ← vb.get [outDim, inDim] "weight"
  return ⟨weight, none⟩

def rmsNorm (size : ℕ) (eps : K) (vb : VarBuilder T) : Except String (RmsNorm K T) := do
  let weight ← vb.get [size] "weight"
  return ⟨weight, eps⟩

/-- A norm of queries or keys, where the configuration has one. -/
def optionalNorm (use : Bool) (size : ℕ) (eps : K) (vb : VarBuilder T) :
    Except String (Option (RmsNorm K T)) :=
  if use then do
    let norm ← rmsNorm size eps vb
    return some norm
  else return none

def CausalSelfAttention.load (vb : VarBuilder T) (cfg : Config K) :
    Except String (CausalSelfAttention K T) := do
  let h := cfg.hiddenSize
  let sizeQ := cfg.headDim * cfg.numAttentionHeads
  let sizeKv := cfg.headDim * cfg.numKeyValueHeads
  let proj := if cfg.useQkvBias then linear else linearNoBias
  let qProj ← proj h sizeQ (vb.pp "q_proj")
  let kProj ← proj h sizeKv (vb.pp "k_proj")
  let vProj ← proj h sizeKv (vb.pp "v_proj")
  let oProj ← linearNoBias sizeQ h (vb.pp "o_proj")
  let qNorm ← optionalNorm cfg.useQkNorm cfg.headDim cfg.rmsNormEps (vb.pp "q_norm")
  let kNorm ← optionalNorm cfg.useQkNorm cfg.headDim cfg.rmsNormEps (vb.pp "k_norm")
  return ⟨qProj, kProj, vProj, oProj, qNorm, kNorm, cfg.numAttentionHeads, cfg.numKeyValueHeads,
    cfg.headDim⟩

def MLP.load (vb : VarBuilder T) (cfg : Config K) : Except String (MLP T) := do
  let h := cfg.hiddenSize
  let i := cfg.intermediateSize
  let gateProj ← linearNoBias h i (vb.pp "gate_proj")
  let upProj ← linearNoBias h i (vb.pp "up_proj")
  let downProj ← linearNoBias i h (vb.pp "down_proj")
  return ⟨gateProj, upProj, downProj⟩

def DecoderLayer.load (vb : VarBuilder T) (cfg : Config K) :
    Except String (DecoderLayer K T) := do
  let inputLayernorm ← rmsNorm cfg.hiddenSize cfg.rmsNormEps (vb.pp "input_layernorm")
  let postAttentionLayernorm ←
    rmsNorm cfg.hiddenSize cfg.rmsNormEps (vb.pp "post_attention_layernorm")
  let selfAttn ← CausalSelfAttention.load (vb.pp "self_attn") cfg
  let mlp ← MLP.load (vb.pp "mlp") cfg
  return ⟨inputLayernorm, postAttentionLayernorm, selfAttn, mlp⟩

/-- The projection to logits: the embeddings again, where they are tied. -/
def loadHead (vb : VarBuilder T) (cfg : Config K) (embedTokens : T) : Except String (Linear T) :=
  if cfg.tieWordEmbeddings then return ⟨embedTokens, none⟩
  else linearNoBias cfg.hiddenSize cfg.vocabSize (vb.pp "lm_head")

def CausalLM.load (vb : VarBuilder T) (cfg : Config K) : Except String (CausalLM K T) := do
  let embedTokens ← (vb.pp "model.embed_tokens").get [cfg.vocabSize, cfg.hiddenSize] "weight"
  let vbLayers := vb.pp "model.layers"
  let layers ← (List.range cfg.numHiddenLayers).mapM fun i =>
    DecoderLayer.load (vbLayers.pp (toString i)) cfg
  let norm ← rmsNorm cfg.hiddenSize cfg.rmsNormEps (vb.pp "model.norm")
  let lmHead ← loadHead vb cfg embedTokens
  return ⟨embedTokens, layers, norm, lmHead, cfg⟩

end Load

/-! ## 3. Forward -/

section Forward

variable {K T : Type} [Candle T] [ExactCandle K T] [NnCandle K T]

omit [Candle T] [ExactCandle K T] in
def Linear.forward (l : Linear T) (x : T) : Except String T := NnCandle.linear l.weight l.bias x

omit [Candle T] [ExactCandle K T] in
def RmsNorm.forward (n : RmsNorm K T) (x : T) : Except String T := NnCandle.rmsNorm n.weight n.eps x

/-- `t.dims3()`. -/
def dims3 (t : T) : Except String (ℕ × ℕ × ℕ) :=
  match dims t with
  | [a, b, c] => .ok (a, b, c)
  | _ => .error (NnCandle.dims3Error t)

/-- The tables of `Cache::new`; the length of the model is cast to a `u32` on the way. -/
def RopeTables.new [Field K] [HasElementary K] (cfg : Config K) (dtype : DType) :
    Except String (RopeTables T) := do
  let halfDim := cfg.headDim / 2
  let theta ← NnCandle.new ((List.range halfDim).map fun i =>
    1 / HasElementary.powf cfg.ropeTheta ((2 * i : ℕ) / (cfg.headDim : K)))
  let pos ← NnCandle.arange (cfg.maxSeqLen % 2 ^ 32)
  let pos ← toDtype pos .f32
  let pos ← reshape pos [cfg.maxSeqLen, 1]
  let theta ← reshape theta [1, halfDim]
  let idxTheta ← NnCandle.matmul pos theta
  let cos ← NnCandle.cos idxTheta
  let cos ← toDtype cos dtype
  let cos ← contiguous cos
  let sin ← NnCandle.sin idxTheta
  let sin ← toDtype sin dtype
  let sin ← contiguous sin
  return ⟨cos, sin⟩

/-- `Cache::new`: the tables, and the K/V cache. -/
def newCache [Field K] [HasElementary K] (cfg : Config K) (dtype : DType) :
    Except String (RopeTables T × Kv.Cache T) := do
  let tables ← RopeTables.new cfg dtype
  let kv ← Kv.Cache.new cfg.kv dtype
  return (tables, kv)

def RopeTables.ropeCos (r : RopeTables T) (indexPos seqLen : ℕ) : Except String T := do
  let cos ← Candle.narrow r.cos 0 indexPos seqLen
  contiguous (K := K) cos

def RopeTables.ropeSin (r : RopeTables T) (indexPos seqLen : ℕ) : Except String T := do
  let sin ← Candle.narrow r.sin 0 indexPos seqLen
  contiguous (K := K) sin

namespace CausalSelfAttention

/-- One head after another. -/
def splitHeads (x : T) (bSz seqLen heads headDim : ℕ) (norm : Option (RmsNorm K T)) :
    Except String T := do
  let x ← reshape x [bSz, seqLen, heads, headDim]
  match norm with
  | some n => do
    let x ← contiguous x
    n.forward x
  | none => return x

/-- `x.transpose(1, 2)?.contiguous()?`. -/
def headsFirst (x : T) : Except String T := do
  let x ← transpose x 1 2
  contiguous x

/-- Queries, keys and values of the batch, at their positions. -/
def project (a : CausalSelfAttention K T) (tables : RopeTables T) (x : T)
    (bSz seqLen indexPos : ℕ) : Except String (T × T × T) := do
  let q ← a.qProj.forward x
  let k ← a.kProj.forward x
  let v ← a.vProj.forward x
  let q ← splitHeads q bSz seqLen a.numAttentionHeads a.headDim a.qNorm
  let k ← splitHeads k bSz seqLen a.numKeyValueHeads a.headDim a.kNorm
  let v ← splitHeads v bSz seqLen a.numKeyValueHeads a.headDim none
  let q ← headsFirst q
  let k ← headsFirst k
  let v ← headsFirst v
  let cos ← tables.ropeCos indexPos seqLen
  let sin ← tables.ropeSin indexPos seqLen
  let q ← NnCandle.rope q cos sin
  let k ← NnCandle.rope k cos sin
  return (q, k, v)

variable [Field K] [HasElementary K]

/-- Attention over the blocks of the cache, the heads side by side again. -/
def attend (a : CausalSelfAttention K T) (q : T) (blocks : List (T × T)) (bSz seqLen : ℕ) :
    Except String T := do
  let nRep := a.numAttentionHeads / a.numKeyValueHeads
  let scale := 1 / HasElementary.sqrt (a.headDim : K)
  let y ← pagedAttention q blocks nRep scale
  let y ← transpose y 1 2
  let y ← reshape y [bSz, seqLen, a.numAttentionHeads * a.headDim]
  a.oProj.forward y

/-- The K/V of the batch are written before the cache is read. -/
def forward (a : CausalSelfAttention K T) (tables : RopeTables T) (x : T)
    (indexPos layerIdx : ℕ) : Prog (Kv.Cache T) T := do
  let (bSz, seqLen, _) ← Prog.ofExcept (dims3 x)
  let (q, k, v) ← Prog.ofExcept (a.project tables x bSz seqLen indexPos)
  Cache.writeKv layerIdx k v
  let blocks ← Cache.kvBlocks layerIdx
  -- the division by the number of K/V heads
  if a.numKeyValueHeads = 0 then Prog.crash
  else Prog.ofExcept (a.attend q blocks bSz seqLen)

end CausalSelfAttention

omit [Candle T] [ExactCandle K T] in
def MLP.forward (m : MLP T) (x : T) : Except String T := do
  let gate ← m.gateProj.forward x
  let gate ← NnCandle.silu gate
  let up ← m.upProj.forward x
  let y ← NnCandle.mul gate up
  m.downProj.forward y

variable [Field K] [HasElementary K]

/-- What follows attention in a layer, with the states `x` before it. -/
def DecoderLayer.rest (l : DecoderLayer K T) (x h : T) : Except String T := do
  let h ← add x h
  let y ← l.postAttentionLayernorm.forward h
  let y ← l.mlp.forward y
  add h y

def DecoderLayer.forward (l : DecoderLayer K T) (tables : RopeTables T) (x : T)
    (indexPos layerIdx : ℕ) : Prog (Kv.Cache T) T := do
  let h ← Prog.ofExcept (l.inputLayernorm.forward x)
  let h ← l.selfAttn.forward tables h indexPos layerIdx
  Prog.ofExcept (l.rest x h)

namespace CausalLM

/-- The loop over the layers, from layer `i` on. -/
def layersForward (tables : RopeTables T) (indexPos : ℕ) :
    List (DecoderLayer K T) → ℕ → T → Prog (Kv.Cache T) T
  | [], _, x => pure x
  | l :: rest, i, x => do
    let x ← l.forward tables x indexPos i
    layersForward tables indexPos rest (i + 1) x

/-- Slots are reserved once, before any layer writes. -/
def forward (m : CausalLM K T) (tables : RopeTables T) (inputIds : List UInt32) (indexPos : ℕ) :
    Prog (Kv.Cache T) T := do
  let x ← Prog.ofExcept (NnCandle.embedding m.embedTokens inputIds)
  Cache.allocateKv inputIds.length
  let x ← layersForward tables indexPos m.layers 0 x
  let x ← Prog.ofExcept (m.norm.forward x)
  Prog.ofExcept (m.lmHead.forward x)

end CausalLM

end Forward

/-! ## 4. As the cache sees it -/

section Staged

variable {K T : Type} [Candle T] [ExactCandle K T] [NnCandle K T]

/-- What a layer computes before it writes. -/
def DecoderLayer.project (l : DecoderLayer K T) (tables : RopeTables T) (x : T) (indexPos : ℕ) :
    Except String ((ℕ × ℕ) × T × T × T) := do
  let h ← l.inputLayernorm.forward x
  let (bSz, seqLen, _) ← dims3 h
  let qkv ← l.selfAttn.project tables h bSz seqLen indexPos
  return ((bSz, seqLen), qkv)

variable [Field K] [HasElementary K]

/-- What it computes after it has read. -/
def DecoderLayer.attend (l : DecoderLayer K T) (x q : T) (bSz seqLen : ℕ) (blocks : List (T × T)) :
    Except String T := do
  let h ← l.selfAttn.attend q blocks bSz seqLen
  l.rest x h

namespace CausalLM

def layer (m : CausalLM K T) (i : ℕ) : Except String (DecoderLayer K T) :=
  match m.layers[i]? with
  | some l => .ok l
  | none => .error "index out of bounds"

/-- The model by what is computed between two accesses to the cache. -/
def staged (m : CausalLM K T) (tables : RopeTables T) : Kv.CausalLM T T T where
  cfg := m.cfg.kv
  embed := NnCandle.embedding m.embedTokens
  keyValue i x indexPos := do
    let l ← m.layer i
    let (_, _, k, v) ← l.project tables x indexPos
    return (k, v)
  attend i x indexPos blocks := do
    let l ← m.layer i
    let ((bSz, seqLen), q, _) ← l.project tables x indexPos
    l.attend x q bSz seqLen blocks
  output x := do
    let x ← m.norm.forward x
    m.lmHead.forward x

variable {m : CausalLM K T} {tables : RopeTables T} {Q : T → Kv.Cache T → Prop}
  {E : String → Kv.Cache T → Prop}

omit [Candle T] [ExactCandle K T] [NnCandle K T] [Field K] [HasElementary K] in
theorem wp_ofExcept_cache {r : Except String T} {t : Traced T} :
    Prog.wp (Prog.ofExcept r) Q E t.cache ↔
      Prog.wp (Prog.ofExcept r) (fun a t' => Q a t'.cache) (fun e t' => E e t'.cache) t := by
  rw [Prog.wp_ofExcept, Prog.wp_ofExcept]

theorem wp_layer_staged {i : ℕ} {l : DecoderLayer K T} (hl : m.layers[i]? = some l)
    (hkv : l.selfAttn.numKeyValueHeads ≠ 0) {x : T} {indexPos : ℕ} {t : Traced T} :
    Prog.wp (l.forward tables x indexPos i) Q E t.cache ↔
      Prog.wp ((m.staged tables).layerForward indexPos i x) (fun a t' => Q a t'.cache)
        (fun e t' => E e t'.cache) t := by
  have hlayer : m.layer i = .ok l := by
    unfold layer
    rw [hl]
  unfold DecoderLayer.forward CausalSelfAttention.forward Kv.CausalLM.layerForward staged
    DecoderLayer.project DecoderLayer.attend
  simp only [hlayer, ok_bind, Prog.wp_bind, Prog.wp_ofExcept, if_neg hkv]
  cases l.inputLayernorm.forward x with
  | error e => exact Iff.rfl
  | ok h =>
    simp only [ok_bind]
    cases hd : dims3 h with
    | error e => exact Iff.rfl
    | ok d =>
      simp only [ok_bind]
      cases hp : l.selfAttn.project tables h d.1 d.2.1 indexPos with
      | error e => exact Iff.rfl
      | ok qkv =>
        show _ ↔ Prog.wp (onCache (Cache.writeKv i qkv.2.1 qkv.2.2)) _ _ t
        rw [wp_onCache]
        refine Prog.wp_congr (fun _ c => ?_) fun _ _ => Iff.rfl
        rw [Prog.wp_bind, Prog.wp_bind, wp_onCache]
        refine Prog.wp_congr (fun blocks c' => ?_) fun _ _ => Iff.rfl
        rw [Prog.wp_ofExcept, Prog.wp_bind, record, Prog.wp_modify]
        show _ ↔ Prog.wp (Prog.ofExcept (l.selfAttn.attend qkv.1 blocks d.1 d.2.1 >>= l.rest x)) _ _ _
        cases l.selfAttn.attend qkv.1 blocks d.1 d.2.1 with
        | error e => exact Iff.rfl
        | ok h => exact wp_ofExcept_cache (t := ⟨c', _⟩)

theorem wp_layers_staged (hkv : ∀ l ∈ m.layers, l.selfAttn.numKeyValueHeads ≠ 0) {i n : ℕ}
    (hn : m.layers.length = i + n) {x : T} {indexPos : ℕ} {t : Traced T} :
    Prog.wp (layersForward tables indexPos (m.layers.drop i) i x) Q E t.cache ↔
      Prog.wp ((m.staged tables).layersForward indexPos (List.range' i n) x)
        (fun a t' => Q a t'.cache) (fun e t' => E e t'.cache) t := by
  induction n generalizing i x t with
  | zero =>
    rw [List.drop_eq_nil_of_le (by omega)]
    exact Iff.rfl
  | succ n ih =>
    have hi : i < m.layers.length := by omega
    rw [List.drop_eq_getElem_cons hi, List.range'_succ, layersForward, Kv.CausalLM.layersForward,
      Prog.wp_bind, Prog.wp_bind,
      wp_layer_staged (List.getElem?_eq_getElem hi) (hkv _ (List.getElem_mem hi))]
    exact Prog.wp_congr (fun _ _ => ih (by omega)) fun _ _ => Iff.rfl

/-- **The staged model** does to the cache and to the caller what the model does. -/
theorem wp_forward_staged (hkv : ∀ l ∈ m.layers, l.selfAttn.numKeyValueHeads ≠ 0)
    (hn : m.layers.length = m.cfg.numHiddenLayers) {inputIds : List UInt32} {indexPos : ℕ}
    {t : Traced T} :
    Prog.wp (m.forward tables inputIds indexPos) Q E t.cache ↔
      Prog.wp ((m.staged tables).forward inputIds indexPos) (fun a t' => Q a t'.cache)
        (fun e t' => E e t'.cache) t := by
  unfold forward Kv.CausalLM.forward
  rw [Prog.wp_bind, Prog.wp_ofExcept, Prog.wp_bind, Prog.wp_get, Prog.wp_bind, record,
    Prog.wp_modify, Prog.wp_bind, Prog.wp_ofExcept]
  rw [show (m.staged tables).embed inputIds = NnCandle.embedding m.embedTokens inputIds from rfl]
  cases NnCandle.embedding m.embedTokens inputIds with
  | error e => exact Iff.rfl
  | ok x =>
    dsimp only
    rw [Prog.wp_bind, Prog.wp_bind, wp_onCache]
    refine Prog.wp_congr (fun _ c => ?_) fun _ _ => Iff.rfl
    rw [Prog.wp_bind, Prog.wp_bind, List.range_eq_range']
    rw [show (m.staged tables).cfg.numHiddenLayers = m.layers.length from hn.symm]
    refine (wp_layers_staged hkv (i := 0) (Nat.zero_add _).symm
      (t := ⟨c, t.events ++ [.forward inputIds indexPos t.cache.kvs.table.len]⟩)).trans ?_
    refine Prog.wp_congr (fun y t' => ?_) fun _ _ => Iff.rfl
    show _ ↔ Prog.wp (Prog.ofExcept (m.norm.forward y >>= m.lmHead.forward)) _ _ _
    rw [Prog.wp_bind, Prog.wp_ofExcept]
    cases m.norm.forward y with
    | error e => exact Iff.rfl
    | ok z => exact wp_ofExcept_cache

end CausalLM

end Staged

end Flour.Models
