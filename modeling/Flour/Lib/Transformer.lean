/-
  File:      Flour/Lib/Transformer.lean
  Subject:   The decoder-only transformer as mathematics: rotary positions, grouped-query causal
             attention, gated MLPs. Names nothing of the program.

  * A state is a function of position and channel; `Block.forward` maps the states before a block to
    those after it. There is no cache and no batch.
  * `Decoder.states D seq l` -- the states after `l` blocks; `Decoder.logits` -- the logits of every
    position.
  * `Block.forward_congr`, `Decoder.states_congr` -- **causality**: a position depends on nothing
    after it.
-/
import Flour.Lib.OnlineSoftmax

namespace Flour.Lib.Transformer

open Finset

/-! ## 1. Parts -/

/-- The functions beyond the field operations. -/
structure Elementary (K : Type*) where
  exp : K → K
  sqrt : K → K
  cos : K → K
  sin : K → K
  pow : K → K → K

/-- The sizes and constants of a model. Every K/V head serves `rep` query heads. -/
structure Shape (K : Type*) where
  hidden : ℕ
  inner : ℕ
  kvHeads : ℕ
  rep : ℕ
  headDim : ℕ
  eps : K
  base : K

/-- An affine map; the weight is indexed by output and input. -/
structure Affine (K : Type*) where
  weight : ℕ → ℕ → K
  bias : Option (ℕ → K)

/-- The weights of a block. -/
structure Block (K : Type*) where
  inputNorm : ℕ → K
  postNorm : ℕ → K
  q : Affine K
  k : Affine K
  v : Affine K
  o : Affine K
  qNorm : Option (ℕ → K)
  kNorm : Option (ℕ → K)
  gate : Affine K
  up : Affine K
  down : Affine K

section Parts

variable {K : Type*} [Field K] (E : Elementary K)

/-- On the first `d` inputs. -/
def Affine.apply (f : Affine K) (d : ℕ) (x : ℕ → K) (o : ℕ) : K :=
  (∑ p ∈ range d, x p * f.weight o p) + f.bias.elim 0 (· o)

def rmsNorm (eps : K) (w : ℕ → K) (d : ℕ) (x : ℕ → K) (c : ℕ) : K :=
  x c / E.sqrt ((∑ j ∈ range d, x j * x j) / d + eps) * w c

def silu (x : K) : K := x / (1 + E.exp (-x))

/-- The angle of channel pair `i` at a position. -/
def angle (base : K) (headDim pos i : ℕ) : K :=
  pos * (1 / E.pow base ((2 * i : ℕ) / (headDim : K)))

/-- Channel `c` of the first half is rotated with channel `c + half`. -/
def rotate (cos sin : ℕ → K) (half : ℕ) (x : ℕ → K) (c : ℕ) : K :=
  if c < half then x c * cos c - x (c + half) * sin c
  else x (c - half) * sin (c - half) + x c * cos (c - half)

/-- A head turned to its position. -/
def positioned (s : Shape K) (pos : ℕ) (x : ℕ → K) : ℕ → K :=
  rotate (fun i => E.cos (angle E s.base s.headDim pos i))
    (fun i => E.sin (angle E s.base s.headDim pos i)) (s.headDim / 2) x

def normalized (s : Shape K) (norm : Option (ℕ → K)) (x : ℕ → K) : ℕ → K :=
  match norm with
  | some w => rmsNorm E s.eps w s.headDim x
  | none => x

/-- The scale of the scores. -/
def scale (s : Shape K) : K := 1 / E.sqrt s.headDim

end Parts

/-! ## 2. Blocks -/

namespace Block

variable {K : Type*} [Field K] (E : Elementary K) (s : Shape K) (b : Block K) (X : ℕ → ℕ → K)

/-- Head `h` of a projection of position `p`. -/
def head (f : Affine K) (p h c : ℕ) : K :=
  f.apply s.hidden (rmsNorm E s.eps b.inputNorm s.hidden (X p)) (h * s.headDim + c)

def query (p h : ℕ) : ℕ → K := positioned E s p (normalized E s b.qNorm (head E s b X b.q p h))

def key (p h : ℕ) : ℕ → K := positioned E s p (normalized E s b.kNorm (head E s b X b.k p h))

def value (p h : ℕ) : ℕ → K := head E s b X b.v p h

def score (p h q : ℕ) : K :=
  (∑ c ∈ range s.headDim, query E s b X p h c * key E s b X q (h / s.rep) c) * scale E s

/-- The values up to position `p`, averaged under its scores. -/
def mixed (p h c : ℕ) : K :=
  softmaxMean E.exp (fun q => ((score E s b X p h q : K) : WithBot K))
    (fun q => value E s b X q (h / s.rep) c) (p + 1)

/-- The states after attention, the heads side by side. -/
def attended (p c : ℕ) : K :=
  X p c + b.o.apply (s.kvHeads * s.rep * s.headDim)
    (fun j => mixed E s b X p (j / s.headDim) (j % s.headDim)) c

/-- The gated MLP. -/
def mlp (x : ℕ → K) (c : ℕ) : K :=
  b.down.apply s.inner (fun i => silu E (b.gate.apply s.hidden x i) * b.up.apply s.hidden x i) c

def forward (p c : ℕ) : K :=
  attended E s b X p c + mlp E s b (rmsNorm E s.eps b.postNorm s.hidden (attended E s b X p)) c

variable {E s b X} {Y : ℕ → ℕ → K}

theorem head_congr {p : ℕ} (h : X p = Y p) (f : Affine K) : head E s b X f p = head E s b Y f p := by
  unfold head
  rw [h]

theorem mixed_congr {p : ℕ} (h : ∀ q, q ≤ p → X q = Y q) : mixed E s b X p = mixed E s b Y p := by
  funext hd c
  unfold mixed score query key value softmaxMean
  have hq : ∀ q ∈ range (p + 1), X q = Y q := fun q hq =>
    h q (Nat.lt_succ_iff.mp (mem_range.mp hq))
  have hp : X p = Y p := h p le_rfl
  congr 1
  · refine sum_congr rfl fun q hr => ?_
    simp only [head_congr (hq q hr), head_congr hp]
  · refine sum_congr rfl fun q hr => ?_
    simp only [head_congr (hq q hr), head_congr hp]

/-- **Causality** of a block. -/
theorem forward_congr {p : ℕ} (h : ∀ q, q ≤ p → X q = Y q) :
    forward E s b X p = forward E s b Y p := by
  have hattended : attended E s b X p = attended E s b Y p := by
    funext c
    unfold attended
    rw [h p le_rfl, mixed_congr h]
  funext c
  unfold forward
  rw [hattended]

end Block

/-! ## 3. The stack -/

/-- A model over tokens of type `α`. -/
structure Decoder (α K : Type*) where
  shape : Shape K
  layers : ℕ
  embed : α → ℕ → K
  block : ℕ → Block K
  norm : ℕ → K
  unembed : Affine K

namespace Decoder

variable {α K : Type*} [Field K] (E : Elementary K) (D : Decoder α K)

/-- The states after `l` blocks. -/
def states (seq : List α) : ℕ → ℕ → ℕ → K
  | 0, p => (seq[p]?).elim 0 D.embed
  | l + 1, p => (D.block l).forward E D.shape (states seq l) p

def logits (seq : List α) (p v : ℕ) : K :=
  D.unembed.apply D.shape.hidden
    (rmsNorm E D.shape.eps D.norm D.shape.hidden (D.states E seq D.layers p)) v

variable {E D} {seq seq' : List α}

/-- **Causality**: sequences that agree up to a position have the same state there. -/
theorem states_congr {p : ℕ} (h : ∀ q, q ≤ p → seq[q]? = seq'[q]?) (l : ℕ) :
    D.states E seq l p = D.states E seq' l p := by
  induction l generalizing p with
  | zero =>
    unfold states
    rw [h p le_rfl]
  | succ l ih => exact Block.forward_congr fun q hq => ih fun r hr => h r (hr.trans hq)

/-- The state of a position is that of the sequence cut off after it. -/
theorem states_take {p n : ℕ} (hp : p < n) (l : ℕ) :
    D.states E (seq.take n) l p = D.states E seq l p :=
  states_congr (fun _ hq => List.getElem?_take_of_lt (lt_of_le_of_lt hq hp)) l

theorem logits_congr {p : ℕ} (h : ∀ q, q ≤ p → seq[q]? = seq'[q]?) :
    D.logits E seq p = D.logits E seq' p := by
  unfold logits
  rw [states_congr h]

end Decoder

end Flour.Lib.Transformer
