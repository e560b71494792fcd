/-
  File:      Flour/Models/Nn.lean
  Subject:   The further operations the layers of a model call, which are not part of the
             repository, in exact arithmetic: their interface, and what the layers rely on.

  * `HasElementary K` -- square root, power, sine and cosine, beside the exponential.
  * `NnCandle K T` -- the operations. The K/V cache stores the same tensors: `Encoded K T` says that
    the bit pattern of an element is a function of its number, and different for another number.
  * `Vec`, `Table`, `Rows`, `Heads` -- tensors of numbers of one to four axes, the batch being one
    sequence.
  * `LawfulNnCandle K T` -- the documented results, on the shapes the layers use. Where the
    arithmetic has no result (a division by zero) nothing is assumed.
  * `Exact K` is an instance of all of it, when the numbers can be counted.
-/
import Flour.Backend.Cpu
import Flour.Kv.Encode
import Flour.Lib.Transformer
import Mathlib.Logic.Denumerable

namespace Flour.Models

open Flour.Backend Flour.Kv Flour.Lib
open ExactCandle

/-! ## 1. The interface -/

/-- The functions of the element type beyond the field operations. -/
class HasElementary (K : Type) extends HasExp K where
  sqrt : K → K
  powf : K → K → K
  cos : K → K
  sin : K → K

/-- What is used of them. -/
class LawfulElementary (K : Type) [Field K] [LinearOrder K] [HasElementary K] : Prop where
  exp : IsExponential (HasExp.exp : K → K)
  sqrt_ne_zero {x : K} (h : 0 < x) : HasElementary.sqrt x ≠ 0

/-- These functions, for the mathematical model. -/
def elementary (K : Type) [HasElementary K] : Transformer.Elementary K where
  exp := HasExp.exp
  sqrt := HasElementary.sqrt
  cos := HasElementary.cos
  sin := HasElementary.sin
  pow := HasElementary.powf

/-- The operations, under the names they have in the calls. -/
class NnCandle (K : outParam Type) (T : Type) where
  /-- `Tensor::new(slice)`. -/
  new : List K → Except String T
  /-- `Tensor::arange(0, n)` of `u32`. -/
  arange : ℕ → Except String T
  /-- Of matrices. -/
  matmul : T → T → Except String T
  cos : T → Except String T
  sin : T → Except String T
  /-- `Embedding::forward` with this table, on one sequence of ids. -/
  embedding : T → List UInt32 → Except String T
  /-- `Linear::forward` with this weight and bias. -/
  linear : T → Option T → T → Except String T
  /-- `RmsNorm::forward` with this weight and epsilon. -/
  rmsNorm : T → K → T → Except String T
  silu : T → Except String T
  mul : T → T → Except String T
  /-- `rotary_emb::rope(x, cos, sin)`. -/
  rope : T → T → T → Except String T
  /-- `logits.i((0, i))`, as a vector of numbers. -/
  row : T → ℕ → Except String (List K)
  /-- The texts of the errors of `dims3` and of `dim(1)`. -/
  dims3Error : T → String
  dim1Error : T → String

/-- Tensors that the cache stores. -/
class Encoded (K : outParam Type) (T : Type) [Candle T] [ExactCandle K T] where
  bits : WithBot K → ℕ
  bits_injective : Function.Injective bits
  dims_eq (t : T) : Candle.dims t = dims t
  dtype_eq (t : T) : Candle.dtype t = dtype t
  elem_eq (t : T) (idx : List ℕ) : Candle.elem t idx = bits (elem t idx)

section Shapes

variable {K T : Type} [ExactCandle K T]

/-- A vector of the numbers `f`. -/
structure Vec (t : T) (dt : DType) (d : ℕ) (f : ℕ → K) : Prop where
  dims : dims t = [d]
  dtype : dtype t = dt
  elem : ∀ j, j < d → elem t [j] = (f j : WithBot K)

/-- A matrix of the numbers `f`. -/
structure Table (t : T) (dt : DType) (n d : ℕ) (f : ℕ → ℕ → K) : Prop where
  dims : dims t = [n, d]
  dtype : dtype t = dt
  elem : ∀ i j, i < n → j < d → elem t [i, j] = (f i j : WithBot K)

/-- A batch of one sequence, with a row of the numbers `f` at each position. -/
structure Rows (t : T) (dt : DType) (n d : ℕ) (f : ℕ → ℕ → K) : Prop where
  dims : dims t = [1, n, d]
  dtype : dtype t = dt
  elem : ∀ i j, i < n → j < d → elem t [0, i, j] = (f i j : WithBot K)

/-- A batch of one, of rank 4. -/
abbrev Heads (t : T) (dt : DType) (a b d : ℕ) (f : ℕ → ℕ → ℕ → K) : Prop :=
  Entries t dt 1 a b d fun _ i j k => (f i j k : WithBot K)

theorem Rows.congr {t : T} {dt : DType} {n d : ℕ} {f g : ℕ → ℕ → K} (h : Rows t dt n d f)
    (hfg : ∀ i j, i < n → j < d → f i j = g i j) : Rows t dt n d g :=
  ⟨h.dims, h.dtype, fun i j hi hj => (h.elem i j hi hj).trans (congrArg _ (hfg i j hi hj))⟩

theorem Table.congr {t : T} {dt : DType} {n d : ℕ} {f g : ℕ → ℕ → K} (h : Table t dt n d f)
    (hfg : ∀ i j, i < n → j < d → f i j = g i j) : Table t dt n d g :=
  ⟨h.dims, h.dtype, fun i j hi hj => (h.elem i j hi hj).trans (congrArg _ (hfg i j hi hj))⟩

end Shapes

/-- What the layers rely on. -/
class LawfulNnCandle (K T : Type) [Field K] [LinearOrder K] [HasElementary K] [Candle T]
    [ExactCandle K T] [NnCandle K T] : Prop where
  new_result (xs : List K) :
    ∃ t : T, NnCandle.new xs = .ok t ∧ Vec t .f32 xs.length fun i => xs.getD i 0
  arange_result (n : ℕ) : ∃ t : T, NnCandle.arange n = .ok t ∧ Vec t .u32 n fun i => (i : K)
  /-- The elements stay in row-major order. -/
  reshape_result {t : T} {ds : List ℕ} (h : (dims t).prod = ds.prod) :
    ∃ t', reshape t ds = .ok t' ∧ dims t' = ds ∧ dtype t' = dtype t ∧
      ∀ idx idx', List.Forall₂ (· < ·) idx (dims t) → List.Forall₂ (· < ·) idx' ds →
        Exact.flatten (dims t) idx = Exact.flatten ds idx' → elem t' idx' = elem t idx
  matmul_result {x y : T} {dt : DType} {n m d : ℕ} {f g : ℕ → ℕ → K} (hdt : IsFloat dt)
    (hx : Table x dt n m f) (hy : Table y dt m d g) :
    ∃ t, NnCandle.matmul x y = .ok t ∧
      Table t dt n d fun i j => ∑ p ∈ Finset.range m, f i p * g p j
  cos_result {x : T} {dt : DType} {n d : ℕ} {f : ℕ → ℕ → K} (hdt : IsFloat dt)
    (hx : Table x dt n d f) :
    ∃ t, NnCandle.cos x = .ok t ∧ Table t dt n d fun i j => HasElementary.cos (f i j)
  sin_result {x : T} {dt : DType} {n d : ℕ} {f : ℕ → ℕ → K} (hdt : IsFloat dt)
    (hx : Table x dt n d f) :
    ∃ t, NnCandle.sin x = .ok t ∧ Table t dt n d fun i j => HasElementary.sin (f i j)
  narrow_rows {x : T} {dt : DType} {n d s m : ℕ} {f : ℕ → ℕ → K} (hx : Table x dt n d f)
    (h : s + m ≤ n) :
    ∃ t, Candle.narrow x 0 s m = .ok t ∧ Table t dt m d fun i j => f (s + i) j
  embedding_ok {w : T} {dt : DType} {n d : ℕ} {g : ℕ → ℕ → K} (hw : Table w dt n d g)
    {ids : List UInt32} (h : ∀ id ∈ ids, id.toNat < n) : ∃ t, NnCandle.embedding w ids = .ok t
  /-- An id without a row is an error, or has a row of zeros. -/
  embedding_result {w t : T} {dt : DType} {n d : ℕ} {g : ℕ → ℕ → K} (hw : Table w dt n d g)
    {ids : List UInt32} (h : NnCandle.embedding w ids = .ok t) :
    Rows t dt ids.length d fun i j =>
      (ids[i]?).elim 0 fun id => if id.toNat < n then g id.toNat j else 0
  linear_result {w x : T} {dt : DType} {n m d : ℕ} {f g : ℕ → ℕ → K} (hdt : IsFloat dt)
    (hw : Table w dt d m g) (hx : Rows x dt n m f) :
    ∃ t, NnCandle.linear w none x = .ok t ∧
      Rows t dt n d fun i o => ∑ p ∈ Finset.range m, f i p * g o p
  linear_bias {w x y : T} {dt : DType} {n m d : ℕ} {f g : ℕ → ℕ → K} {c : ℕ → K}
    (hdt : IsFloat dt) (hw : Table w dt d m g) (hy : Vec y dt d c) (hx : Rows x dt n m f) :
    ∃ t, NnCandle.linear w (some y) x = .ok t ∧
      Rows t dt n d fun i o => (∑ p ∈ Finset.range m, f i p * g o p) + c o
  /-- Defined where no root is zero. -/
  rmsNorm_rows {w x : T} {dt : DType} {n d : ℕ} {g : ℕ → K} {f : ℕ → ℕ → K} {eps : K}
    (hdt : IsFloat dt) (hw : Vec w dt d g) (hx : Rows x dt n d f)
    (h : ∀ i, i < n →
      HasElementary.sqrt ((∑ p ∈ Finset.range d, f i p * f i p) / d + eps) ≠ 0) :
    ∃ t, NnCandle.rmsNorm w eps x = .ok t ∧ Rows t dt n d fun i j =>
      f i j / HasElementary.sqrt ((∑ p ∈ Finset.range d, f i p * f i p) / d + eps) * g j
  rmsNorm_heads {w x : T} {dt : DType} {a b d : ℕ} {g : ℕ → K} {f : ℕ → ℕ → ℕ → K} {eps : K}
    (hdt : IsFloat dt) (hw : Vec w dt d g) (hx : Heads x dt a b d f)
    (h : ∀ i j, i < a → j < b →
      HasElementary.sqrt ((∑ p ∈ Finset.range d, f i j p * f i j p) / d + eps) ≠ 0) :
    ∃ t, NnCandle.rmsNorm w eps x = .ok t ∧ Heads t dt a b d fun i j k =>
      f i j k / HasElementary.sqrt ((∑ p ∈ Finset.range d, f i j p * f i j p) / d + eps) * g k
  /-- Defined where no divisor is zero. -/
  silu_result {x : T} {dt : DType} {n d : ℕ} {f : ℕ → ℕ → K} (hdt : IsFloat dt)
    (hx : Rows x dt n d f)
    (h : ∀ i j, i < n → j < d → 1 + HasExp.exp (-f i j) ≠ 0) :
    ∃ t, NnCandle.silu x = .ok t ∧ Rows t dt n d fun i j => f i j / (1 + HasExp.exp (-f i j))
  mul_result {x y : T} {dt : DType} {n d : ℕ} {f g : ℕ → ℕ → K} (hdt : IsFloat dt)
    (hx : Rows x dt n d f) (hy : Rows y dt n d g) :
    ∃ t, NnCandle.mul x y = .ok t ∧ Rows t dt n d fun i j => f i j * g i j
  add_result {x y : T} {dt : DType} {n d : ℕ} {f g : ℕ → ℕ → K} (hdt : IsFloat dt)
    (hx : Rows x dt n d f) (hy : Rows y dt n d g) :
    ∃ t, add x y = .ok t ∧ Rows t dt n d fun i j => f i j + g i j
  transpose_middle {x : T} {dt : DType} {a b d : ℕ} {f : ℕ → ℕ → ℕ → K} (hx : Heads x dt a b d f) :
    ∃ t, transpose x 1 2 = .ok t ∧ Heads t dt b a d fun j i k => f i j k
  rope_result {x c s : T} {dt : DType} {h n m : ℕ} {f : ℕ → ℕ → ℕ → K} {fc fs : ℕ → ℕ → K}
    (hdt : IsFloat dt) (hx : Heads x dt h n (2 * m) f) (hc : Table c dt n m fc) (hs : Table s dt n m fs) :
    ∃ t, NnCandle.rope x c s = .ok t ∧ Heads t dt h n (2 * m) fun j i k =>
      if k < m then f j i k * fc i k - f j i (k + m) * fs i k
      else f j i (k - m) * fs i (k - m) + f j i k * fc i (k - m)
  row_result {x : T} {dt : DType} {n d : ℕ} {f : ℕ → ℕ → K} (hx : Rows x dt n d f) {i : ℕ}
    (hi : i < n) : NnCandle.row x i = .ok ((List.range d).map (f i))

/-! ## 2. Shapes -/

section Parts

variable {K T : Type} [Field K] [LinearOrder K] [HasElementary K] [ExactCandle K T] {dt : DType}
  {x : T} {f : ℕ → ℕ → K} {n m d : ℕ}

section Copies

variable [LawfulExactCandle K T]

theorem contiguous_table (hx : Table x dt n d f) :
    ∃ t, contiguous x = .ok t ∧ Table t dt n d f := by
  obtain ⟨t, ht, hd, hdt, he⟩ := LawfulExactCandle.contiguous_copy (K := K) x
  exact ⟨t, ht, hd.trans hx.dims, hdt.trans hx.dtype, fun i j hi hj =>
    (he _).trans (hx.elem i j hi hj)⟩

theorem toDtype_table {dt' : DType} (hx : Table x dt n d f) (hdt : IsFloat dt') :
    ∃ t, toDtype x dt' = .ok t ∧ Table t dt' n d f := by
  obtain ⟨t, ht, hd, hdt', he⟩ := LawfulExactCandle.toDtype_float (K := K) x hdt
  exact ⟨t, ht, hd.trans hx.dims, hdt', fun i j hi hj => (he _).trans (hx.elem i j hi hj)⟩

theorem toDtype_vec {dt' : DType} {g : ℕ → K} (hx : Vec x dt d g) (hdt : IsFloat dt') :
    ∃ t, toDtype x dt' = .ok t ∧ Vec t dt' d g := by
  obtain ⟨t, ht, hd, hdt', he⟩ := LawfulExactCandle.toDtype_float (K := K) x hdt
  exact ⟨t, ht, hd.trans hx.dims, hdt', fun j hj => (he _).trans (hx.elem j hj)⟩

end Copies

variable [Candle T] [NnCandle K T] [LawfulNnCandle K T]

theorem reshape_column {g : ℕ → K} (hx : Vec x dt n g) :
    ∃ t, reshape x [n, 1] = .ok t ∧ Table t dt n 1 fun i _ => g i := by
  have hprod : (dims x).prod = [n, 1].prod := by simp [hx.dims]
  obtain ⟨t, ht, hd, hdt, he⟩ := LawfulNnCandle.reshape_result hprod
  refine ⟨t, ht, hd, hdt.trans hx.dtype, fun i j hi hj => ?_⟩
  obtain rfl : j = 0 := Nat.lt_one_iff.mp hj
  rw [he [i] [i, 0] (by simp [hx.dims, hi]) (by simp [hi]) (by simp [hx.dims, Exact.flatten])]
  exact hx.elem i hi

theorem reshape_row {g : ℕ → K} (hx : Vec x dt n g) :
    ∃ t, reshape x [1, n] = .ok t ∧ Table t dt 1 n fun _ j => g j := by
  have hprod : (dims x).prod = [1, n].prod := by simp [hx.dims]
  obtain ⟨t, ht, hd, hdt, he⟩ := LawfulNnCandle.reshape_result hprod
  refine ⟨t, ht, hd, hdt.trans hx.dtype, fun i j hi hj => ?_⟩
  obtain rfl : i = 0 := Nat.lt_one_iff.mp hi
  rw [he [j] [0, j] (by simp [hx.dims, hj]) (by simp [hj]) (by simp [hx.dims, Exact.flatten])]
  exact hx.elem j hj

/-- Channel `c` of head `j` is channel `j * d + c` of the row. -/
theorem reshape_heads {h : ℕ} (hx : Rows x dt n (h * d) f) :
    ∃ t, reshape x [1, n, h, d] = .ok t ∧ Heads t dt n h d fun i j c => f i (j * d + c) := by
  have hprod : (dims x).prod = [1, n, h, d].prod := by simp [hx.dims]
  obtain ⟨t, ht, hd, hdt, he⟩ := LawfulNnCandle.reshape_result hprod
  refine ⟨t, ht, hd, hdt.trans hx.dtype, fun z i j c hz hi hj hc => ?_⟩
  obtain rfl : z = 0 := Nat.lt_one_iff.mp hz
  have hlt : j * d + c < h * d :=
    calc j * d + c < (j + 1) * d := by rw [Nat.succ_mul]; omega
      _ ≤ h * d := Nat.mul_le_mul_right d hj
  rw [he [0, i, j * d + c] [0, i, j, c] (by simp [hx.dims, hi, hlt]) (by simp [hi, hj, hc])
    (by simp only [hx.dims, Exact.flatten, List.prod_cons, List.prod_nil]; ring)]
  exact hx.elem i _ hi hlt

/-- The heads side by side. -/
theorem reshape_rows {h : ℕ} {g : ℕ → ℕ → ℕ → K} (hd : 0 < d) (hx : Heads x dt n h d g) :
    ∃ t, reshape x [1, n, h * d] = .ok t ∧ Rows t dt n (h * d) fun i c => g i (c / d) (c % d) := by
  have hprod : (dims x).prod = [1, n, h * d].prod := by simp [hx.dims]
  obtain ⟨t, ht, htd, hdt, he⟩ := LawfulNnCandle.reshape_result hprod
  refine ⟨t, ht, htd, hdt.trans hx.dtype, fun i c hi hc => ?_⟩
  have hj : c / d < h := Nat.div_lt_of_lt_mul (by rwa [Nat.mul_comm] at hc)
  have hr : c % d < d := Nat.mod_lt c hd
  have hflat : Exact.flatten (dims x) [0, i, c / d, c % d] =
      Exact.flatten [1, n, h * d] [0, i, c] := by
    simp only [hx.dims, Exact.flatten, List.prod_cons, List.prod_nil, Nat.mul_one, Nat.zero_mul,
      Nat.zero_add, Nat.add_zero]
    rw [Nat.div_add_mod' c d]
  rw [he [0, i, c / d, c % d] [0, i, c] (by simp [hx.dims, hi, hj, hr]) (by simp [hi, hc]) hflat]
  exact hx.elem 0 i _ _ Nat.one_pos hi hj hr

/-- Rows `indexPos` to `indexPos + n` of a table, copied out. -/
theorem narrow_table [LawfulExactCandle K T] {s : ℕ} (hx : Table x dt n d f) (h : s + m ≤ n) :
    ∃ t, (Candle.narrow x 0 s m >>= contiguous (K := K)) = .ok t ∧
      Table t dt m d fun i => f (s + i) := by
  obtain ⟨u, hu, eu⟩ := LawfulNnCandle.narrow_rows hx h
  obtain ⟨t, ht, et⟩ := contiguous_table eu
  exact ⟨t, by rw [hu, ok_bind, ht], et⟩

end Parts

end Flour.Models

/-! ## 3. The instance -/

namespace Flour.Backend.Exact

open Flour.Models Flour.Kv Flour.Lib
open ExactCandle (elem)

section Operations

variable {K : Type} [Field K] [LinearOrder K] [HasElementary K]

/-- A function of a number; it has no result on `-∞`. -/
def onReal (f : K → K) : WithBot K → Option (WithBot K)
  | (x : K) => some (f x : K)
  | ⊥ => none

def matmul₂ (x y : Exact K) : Except String (Exact K) :=
  match x.dims, y.dims with
  | [n, m], [m', d] =>
    if x.dtype ≠ y.dtype then .error "dtype mismatch in matmul"
    else if m ≠ m' then .error "shape mismatch in matmul"
    else ofFn [n, d] x.dtype fun idx => sumReals m fun p =>
      onReals (· * ·) (x.elem (idx.set 1 p)) (y.elem (idx.set 0 p))
  | _, _ => .error "shape mismatch in matmul"

def embedding (w : Exact K) (ids : List UInt32) : Except String (Exact K) :=
  match w.dims with
  | [n, d] =>
    if ids.all fun id => decide (id.toNat < n) then
      .ok ⟨[1, ids.length, d], w.dtype,
        fun idx => w.elem [(ids.getD (idx.getD 1 0) 0).toNat, idx.getD 2 0]⟩
    else .error "index-select out of range"
  | _ => .error "unexpected rank"

def linear (w : Exact K) (bias : Option (Exact K)) (x : Exact K) : Except String (Exact K) :=
  match w.dims, x.dims with
  | [d, m], [b, n, m'] =>
    if x.dtype ≠ w.dtype then .error "dtype mismatch in matmul"
    else if m ≠ m' then .error "shape mismatch in matmul"
    else ofFn [b, n, d] x.dtype fun idx => do
      let s ← sumReals m fun p =>
        onReals (· * ·) (x.elem (idx.set 2 p)) (w.elem [idx.getD 2 0, p])
      match bias with
      | none => some s
      | some y => onReals (· + ·) s (y.elem [idx.getD 2 0])
  | _, _ => .error "shape mismatch in matmul"

def rmsNorm (w : Exact K) (eps : K) (x : Exact K) : Except String (Exact K) :=
  match x.dims.getLast? with
  | some d => ofFn x.dims x.dtype fun idx => do
      let square ← sumReals d fun p =>
        onReals (· * ·) (x.elem (idx.dropLast ++ [p])) (x.elem (idx.dropLast ++ [p]))
      let root ← onReal (fun s => HasElementary.sqrt (s / d + eps)) square
      onReals (· * ·) (← div (x.elem idx) root) (w.elem [idx.getLastD 0])
  | none => .error "dimension index out of range"

def silu (x : Exact K) : Except String (Exact K) :=
  ofFn x.dims x.dtype fun idx => do
    div (x.elem idx) (← onReal (fun y => 1 + HasExp.exp (-y)) (x.elem idx))

/-- A rotated pair: the first or the second number. -/
def turned (op : K → K → K) (x c y s : WithBot K) : Option (WithBot K) := do
  onReals op (← onReals (· * ·) x c) (← onReals (· * ·) y s)

def rope (x c s : Exact K) : Except String (Exact K) :=
  match x.dims, c.dims, s.dims with
  | [b, h, n, d], [n', m], [n'', m'] =>
    if n ≠ n' ∨ n ≠ n'' ∨ d ≠ 2 * m ∨ m ≠ m' then .error "inconsistent dims in rope"
    else ofFn [b, h, n, d] x.dtype fun idx =>
      let i := idx.getD 2 0
      let k := idx.getD 3 0
      if k < m then
        turned (· - ·) (x.elem idx) (c.elem [i, k]) (x.elem (idx.set 3 (k + m))) (s.elem [i, k])
      else turned (· + ·) (x.elem (idx.set 3 (k - m))) (s.elem [i, k - m]) (x.elem idx)
        (c.elem [i, k - m])
  | _, _, _ => .error "unexpected rank in rope"

def row (x : Exact K) (i : ℕ) : Except String (List K) :=
  match x.dims with
  | [_, n, d] =>
    if i < n then .ok ((List.range d).map fun j => (x.elem [0, i, j]).unbotD 0)
    else .error "index out of range"
  | _ => .error "unexpected rank"

instance : NnCandle K (Exact K) where
  new xs := .ok ⟨[xs.length], .f32, fun idx => (xs.getD (idx.headD 0) 0 : K)⟩
  arange n := .ok ⟨[n], .u32, fun idx => ((idx.headD 0 : ℕ) : K)⟩
  matmul := matmul₂
  cos x := ofFn x.dims x.dtype fun idx => onReal HasElementary.cos (x.elem idx)
  sin x := ofFn x.dims x.dtype fun idx => onReal HasElementary.sin (x.elem idx)
  embedding := embedding
  linear := linear
  rmsNorm := rmsNorm
  silu := silu
  mul := elementwise (onReals (· * ·))
  rope := rope
  row := row
  dims3Error t := s!"unexpected rank, expected: 3, got: {t.dims.length}"
  dim1Error t := s!"dim out of range, rank: {t.dims.length}, dim: 1"

end Operations

/-! The cache stores such a tensor as one of bit patterns. -/

section Stored

variable {K : Type} [Denumerable K] [Zero K]

/-- The numbers and `-∞`, counted. -/
def code : WithBot K ≃ ℕ := Denumerable.eqv (Option K)

def dense (t : Exact K) : Dense := ⟨t.dims, t.dtype, true, fun idx => code (t.elem idx)⟩

def ofDense (t : Dense) : Exact K := ⟨t.dims, t.dtype, fun idx => code.symm (t.elem idx)⟩

/-- An operation on the stored tensor. -/
def stored (r : Except String Dense) : Except String (Exact K) := r.map ofDense

instance : Candle (Exact K) where
  dims t := Candle.dims t.dense
  dtype t := Candle.dtype t.dense
  isContiguous t := Candle.isContiguous t.dense
  elem t := Candle.elem t.dense
  zeros ds dt := .ok ⟨ds, dt, fun _ => (0 : K)⟩
  squeeze t axis := stored (Candle.squeeze t.dense axis)
  unsqueeze t axis := stored (Candle.unsqueeze t.dense axis)
  narrow t axis start len := stored (Candle.narrow t.dense axis start len)
  contiguous t := stored (Candle.contiguous t.dense)
  sliceSet t src axis offset := stored (Candle.sliceSet t.dense src.dense axis offset)
  fromVec vals ds dt := stored (Candle.fromVec vals ds dt)
  rankError t := Candle.rankError t.dense
  grants := Candle.grants Dense

instance : HostCandle (Exact K) where
  flattenAll t := stored (HostCandle.flattenAll t.dense)
  toVec1 t dt := HostCandle.toVec1 t.dense dt

omit [Zero K] in
theorem stored_ok {r : Except String Dense} {t : Dense} (h : r = .ok t) :
    (stored r : Except String (Exact K)) = .ok (ofDense t) := by
  rw [h]
  rfl

omit [Zero K] in
theorem of_stored_ok {r : Except String Dense} {t : Exact K} (h : stored r = .ok t) :
    ∃ t', r = .ok t' ∧ t = ofDense t' := by
  cases r with
  | error e => cases h
  | ok t' => exact ⟨t', rfl, by cases h; rfl⟩

@[simp] theorem dims_ofDense (t : Dense) : Candle.dims (ofDense t : Exact K) = Candle.dims t := rfl

@[simp] theorem dtype_ofDense (t : Dense) : Candle.dtype (ofDense t : Exact K) = Candle.dtype t := rfl

@[simp] theorem elem_ofDense (t : Dense) (idx : List ℕ) :
    Candle.elem (ofDense t : Exact K) idx = Candle.elem t idx := code.apply_symm_apply (t.elem idx)

instance : LawfulCandle (Exact K) where
  zeros_result h := by
    cases h
    exact ⟨rfl, rfl, rfl⟩
  squeeze_one {t ds} h := by
    obtain ⟨t', ht, hd, hdt, he⟩ := LawfulCandle.squeeze_one (t := t.dense) h
    exact ⟨ofDense t', stored_ok ht, hd, hdt, fun idx => (elem_ofDense t' idx).trans (he idx)⟩
  squeeze_ne_one {t d ds} h hd := by
    refine (stored_ok (LawfulCandle.squeeze_ne_one (t := t.dense) h hd)).trans (congrArg _ ?_)
    simp [ofDense, dense]
  unsqueeze_zero t := by
    obtain ⟨t', ht, hd, hdt, he⟩ := LawfulCandle.unsqueeze_zero t.dense
    exact ⟨ofDense t', stored_ok ht, hd, hdt, fun idx => (elem_ofDense t' _).trans (he idx)⟩
  narrow_slots {t a b c s n} h hn := by
    obtain ⟨t', ht, hd, hdt, he⟩ := LawfulCandle.narrow_slots (t := t.dense) h hn
    exact ⟨ofDense t', stored_ok ht, hd, hdt, fun i j k hi hj hk =>
      (elem_ofDense t' _).trans (he i j k hi hj hk)⟩
  contiguous_copy t := by
    obtain ⟨t', ht, hd, hdt, hc, he⟩ := LawfulCandle.contiguous_copy t.dense
    exact ⟨ofDense t', stored_ok ht, hd, hdt, rfl, fun idx => (elem_ofDense t' idx).trans (he idx)⟩
  sliceSet_ok_iff {t src a b c off} h hc := by
    have hiff : (∃ t', Candle.sliceSet t.dense src.dense 1 off = .ok t') ↔ _ :=
      LawfulCandle.sliceSet_ok_iff (t := t.dense) h hc
    refine Iff.trans ?_ hiff
    constructor
    · rintro ⟨t', ht⟩
      obtain ⟨u, hu, -⟩ := of_stored_ok ht
      exact ⟨u, hu⟩
    · rintro ⟨t', ht⟩
      exact ⟨ofDense t', stored_ok ht⟩
  sliceSet_result {t src t' a b c n off} h hs ht := by
    obtain ⟨u, hu, rfl⟩ := of_stored_ok ht
    have hs : Candle.dims src.dense = [a, n, c] := hs
    obtain ⟨hd, hdt, -, he⟩ := LawfulCandle.sliceSet_result (t := t.dense) h hs hu
    exact ⟨hd, hdt, rfl, fun i j k hi hj hk => (elem_ofDense u _).trans (he i j k hi hj hk)⟩
  fromVec_result {vals a b c dt} h := by
    obtain ⟨t', ht, hd, hdt, he⟩ : ∃ t' : Dense, Candle.fromVec vals [a, b, c] dt = .ok t' ∧ _ ∧ _ ∧ _ :=
      LawfulCandle.fromVec_result h
    exact ⟨ofDense t', stored_ok ht, hd, hdt, fun i j k hi hj hk =>
      (he i j k hi hj hk).trans (congrArg some (elem_ofDense t' _).symm)⟩

instance : LawfulHostCandle (Exact K) where
  toVec1_flattenAll {t a b c} h := by
    obtain ⟨vals, hv, hlen, he⟩ := LawfulHostCandle.toVec1_flattenAll (t := t.dense) h
    refine ⟨vals, ?_, hlen, he⟩
    obtain ⟨u, hu, hv⟩ := bind_eq_ok.mp hv
    show (stored (HostCandle.flattenAll t.dense) >>= fun u => HostCandle.toVec1 u.dense _) = _
    rw [stored_ok hu]
    cases hu
    refine Eq.trans ?_ hv
    simp [ofDense, dense, HostCandle.toVec1]
    rfl

end Stored

/-! ## 4. It meets the interface -/

section Lawful

variable {K : Type} [Field K] [LinearOrder K] [HasElementary K]

theorem ofFn_table {n d : ℕ} {f : List ℕ → Option (WithBot K)} {g : ℕ → ℕ → K} (dt : DType)
    (h : ∀ i j, i < n → j < d → f [i, j] = some (g i j : WithBot K)) :
    ∃ t : Exact K, ofFn [n, d] dt f = .ok t ∧ Table t dt n d g := by
  refine ⟨_, rfl, rfl, rfl, fun i j hi hj => ?_⟩
  show (f [i, j]).getD ⊥ = _
  rw [h i j hi hj]
  rfl

theorem ofFn_rows {n d : ℕ} {f : List ℕ → Option (WithBot K)} {g : ℕ → ℕ → K} (dt : DType)
    (h : ∀ i j, i < n → j < d → f [0, i, j] = some (g i j : WithBot K)) :
    ∃ t : Exact K, ofFn [1, n, d] dt f = .ok t ∧ Rows t dt n d g := by
  refine ⟨_, rfl, rfl, rfl, fun i j hi hj => ?_⟩
  show (f [0, i, j]).getD ⊥ = _
  rw [h i j hi hj]
  rfl

/-- An elementwise operation on two batches. -/
theorem elementwise_rows {op : K → K → K} {x y : Exact K} {dt : DType} {n d : ℕ} {f g : ℕ → ℕ → K}
    (hx : Rows x dt n d f) (hy : Rows y dt n d g) :
    ∃ t, elementwise (onReals op) x y = .ok t ∧ Rows t dt n d fun i j => op (f i j) (g i j) := by
  have hxd : x.dims = [1, n, d] := hx.dims
  have hyd : y.dims = [1, n, d] := hy.dims
  have hdt : x.dtype = y.dtype := hx.dtype.trans hy.dtype.symm
  have hto : expandsTo [1, n, d] [1, n, d] = true := by simp [expandsTo]
  unfold elementwise
  rw [if_neg (not_not.mpr hdt), hxd, hyd, hto, show x.dtype = dt from hx.dtype]
  refine ofFn_rows dt fun i j hi hj => ?_
  have hclip : clip [1, n, d] [0, i, j] = [0, i, j] := by
    simp only [clip, List.zipWith, clip_of_lt hi, clip_of_lt hj, ite_self]
  rw [hclip, show x.elem [0, i, j] = _ from hx.elem i j hi hj,
    show y.elem [0, i, j] = _ from hy.elem i j hi hj]
  rfl

omit [LinearOrder K] [HasElementary K] in
/-- The sum of the products of a row and a row of a matrix. -/
theorem sumReals_mul {x w : ℕ → WithBot K} {f g : ℕ → K} {m : ℕ} (hx : ∀ p, p < m → x p = f p)
    (hw : ∀ p, p < m → w p = g p) :
    sumReals m (fun p => onReals (· * ·) (x p) (w p)) =
      some ((∑ p ∈ Finset.range m, f p * g p : K) : WithBot K) :=
  sumReals_coe fun p hp => by
    rw [hx p hp, hw p hp]
    rfl

/-- One number of a normalised row. -/
theorem rmsNorm_elem {x : ℕ → WithBot K} {f : ℕ → K} {w : WithBot K} {g eps : K} {d k : ℕ}
    (hx : ∀ p, p < d → x p = f p) (hk : k < d) (hw : w = g)
    (h : HasElementary.sqrt ((∑ p ∈ Finset.range d, f p * f p) / d + eps) ≠ 0) :
    (do
      let square ← sumReals d fun p => onReals (· * ·) (x p) (x p)
      let root ← onReal (fun s => HasElementary.sqrt (s / d + eps)) square
      onReals (· * ·) (← div (x k) root) w) =
      some ((f k / HasElementary.sqrt ((∑ p ∈ Finset.range d, f p * f p) / d + eps) * g : K) :
        WithBot K) := by
  rw [sumReals_mul hx hx, hx k hk, hw]
  show (do onReals (· * ·) (← div (f k : WithBot K) ((_ : K) : WithBot K)) (g : WithBot K)) = _
  unfold div
  dsimp only
  rw [if_neg h]
  rfl

variable [Denumerable K]

instance : Encoded K (Exact K) where
  bits := code
  bits_injective := code.injective
  dims_eq _ := rfl
  dtype_eq _ := rfl
  elem_eq _ _ := rfl

instance : LawfulNnCandle K (Exact K) where
  new_result xs := ⟨_, rfl, rfl, rfl, fun _ _ => rfl⟩
  arange_result n := ⟨_, rfl, rfl, rfl, fun _ _ => rfl⟩
  reshape_result {t ds} h := by
    have hp : t.dims.prod = ds.prod := h
    refine ⟨_, if_pos hp, rfl, rfl, fun idx idx' hidx _ hflat => ?_⟩
    show t.elem (unflatten t.dims (flatten ds idx')) = t.elem idx
    have hidx : List.Forall₂ (· < ·) idx t.dims := hidx
    have hflat : flatten t.dims idx = flatten ds idx' := hflat
    rw [← hflat, (unflatten_flatten hidx).2]
  matmul_result {x y dt n m d f g} _ hx hy := by
    have hxd : x.dims = [n, m] := hx.dims
    have hyd : y.dims = [m, d] := hy.dims
    have hdt : x.dtype = y.dtype := hx.dtype.trans hy.dtype.symm
    show ∃ t, matmul₂ x y = .ok t ∧ _
    unfold matmul₂
    rw [hxd, hyd]
    simp only [ne_eq, hdt, not_true_eq_false, if_false]
    rw [show y.dtype = dt from hy.dtype]
    exact ofFn_table dt fun i j hi hj => sumReals_mul (x := fun p => x.elem [i, p])
      (w := fun p => y.elem [p, j]) (fun p hp => hx.elem i p hi hp) fun p hp => hy.elem p j hp hj
  cos_result {x dt n d f} _ hx := by
    have hxd : x.dims = [n, d] := hx.dims
    show ∃ t, ofFn x.dims x.dtype _ = .ok t ∧ _
    rw [hxd, show x.dtype = dt from hx.dtype]
    refine ofFn_table dt fun i j hi hj => ?_
    rw [show x.elem [i, j] = _ from hx.elem i j hi hj]
    rfl
  sin_result {x dt n d f} _ hx := by
    have hxd : x.dims = [n, d] := hx.dims
    show ∃ t, ofFn x.dims x.dtype _ = .ok t ∧ _
    rw [hxd, show x.dtype = dt from hx.dtype]
    refine ofFn_table dt fun i j hi hj => ?_
    rw [show x.elem [i, j] = _ from hx.elem i j hi hj]
    rfl
  narrow_rows {x dt n d s m f} hx h := by
    have hxd : x.dims = [n, d] := hx.dims
    have hok : Candle.narrow x.dense 0 s m = .ok { x.dense with
        dims := [m, d], contiguous := false
        elem := fun idx => code (x.elem (idx.modify 0 (s + ·))) } := by
      simp [Candle.narrow, dense, hxd, h]
    refine ⟨_, stored_ok hok, rfl, hx.dtype, fun i j hi hj => ?_⟩
    show code.symm (code (x.elem [s + i, j])) = _
    rw [Equiv.symm_apply_apply]
    exact hx.elem (s + i) j (by omega) hj
  embedding_ok {w dt n d g} hw ids h := by
    have hwd : w.dims = [n, d] := hw.dims
    show ∃ t, embedding w ids = .ok t
    unfold embedding
    rw [hwd]
    exact ⟨_, if_pos (List.all_eq_true.mpr fun id hid => decide_eq_true (h id hid))⟩
  embedding_result {w t dt n d g} hw ids h := by
    have hwd : w.dims = [n, d] := hw.dims
    have h : embedding w ids = .ok t := h
    unfold embedding at h
    rw [hwd] at h
    dsimp only at h
    split_ifs at h with hall
    cases h
    refine ⟨rfl, hw.dtype, fun i j hi hj => ?_⟩
    have hlt : ids[i].toNat < n :=
      of_decide_eq_true (List.all_eq_true.mp hall _ (List.getElem_mem hi))
    show w.elem [(ids.getD i 0).toNat, j] = _
    rw [List.getD_eq_getElem _ _ hi, List.getElem?_eq_getElem hi]
    show _ = ((if ids[i].toNat < n then g ids[i].toNat j else 0 : K) : WithBot K)
    rw [if_pos hlt]
    exact hw.elem _ j hlt hj
  linear_result {w x dt n m d f g} _ hw hx := by
    have hwd : w.dims = [d, m] := hw.dims
    have hxd : x.dims = [1, n, m] := hx.dims
    have hdt : x.dtype = w.dtype := hx.dtype.trans hw.dtype.symm
    show ∃ t, linear w none x = .ok t ∧ _
    unfold linear
    rw [hwd, hxd]
    simp only [ne_eq, hdt, not_true_eq_false, if_false]
    rw [show w.dtype = dt from hw.dtype]
    refine ofFn_rows dt fun i o hi ho => ?_
    have hsum := sumReals_mul (x := fun p => x.elem [0, i, p]) (w := fun p => w.elem [o, p])
      (fun p hp => hx.elem i p hi hp) fun p hp => hw.elem o p ho hp
    show (sumReals m (fun p => onReals (· * ·) (x.elem [0, i, p]) (w.elem [o, p]))).bind _ = _
    rw [hsum]
    rfl
  linear_bias {w x y dt n m d f g c} _ hw hy hx := by
    have hwd : w.dims = [d, m] := hw.dims
    have hxd : x.dims = [1, n, m] := hx.dims
    have hdt : x.dtype = w.dtype := hx.dtype.trans hw.dtype.symm
    show ∃ t, linear w (some y) x = .ok t ∧ _
    unfold linear
    rw [hwd, hxd]
    simp only [ne_eq, hdt, not_true_eq_false, if_false]
    rw [show w.dtype = dt from hw.dtype]
    refine ofFn_rows dt fun i o hi ho => ?_
    have hsum := sumReals_mul (x := fun p => x.elem [0, i, p]) (w := fun p => w.elem [o, p])
      (fun p hp => hx.elem i p hi hp) fun p hp => hw.elem o p ho hp
    show (sumReals m (fun p => onReals (· * ·) (x.elem [0, i, p]) (w.elem [o, p]))).bind
      (fun s => onReals (· + ·) s (y.elem [o])) = _
    rw [hsum, show y.elem [o] = _ from hy.elem o ho]
    rfl
  rmsNorm_rows {w x dt n d g f eps} _ hw hx h := by
    have hxd : x.dims = [1, n, d] := hx.dims
    show ∃ t, rmsNorm w eps x = .ok t ∧ _
    unfold rmsNorm
    simp only [hxd, List.getLast?_cons_cons, List.getLast?_singleton]
    rw [show x.dtype = dt from hx.dtype]
    exact ofFn_rows dt fun i j hi hj => rmsNorm_elem (x := fun p => x.elem [0, i, p])
      (fun p hp => hx.elem i p hi hp) hj (hw.elem j hj) (h i hi)
  rmsNorm_heads {w x dt a b d g f eps} _ hw hx h := by
    have hxd : x.dims = [1, a, b, d] := hx.dims
    show ∃ t, rmsNorm w eps x = .ok t ∧ _
    unfold rmsNorm
    simp only [hxd, List.getLast?_cons_cons, List.getLast?_singleton]
    rw [show x.dtype = dt from hx.dtype]
    refine ofFn_entries dt fun z i j k hz hi hj hk => ?_
    exact rmsNorm_elem (x := fun p => x.elem [z, i, j, p])
      (fun p hp => hx.elem z i j p hz hi hj hp) hk (hw.elem k hk) (h i j hi hj)
  silu_result {x dt n d f} _ hx h := by
    have hxd : x.dims = [1, n, d] := hx.dims
    show ∃ t, silu x = .ok t ∧ _
    unfold silu
    rw [hxd, show x.dtype = dt from hx.dtype]
    refine ofFn_rows dt fun i j hi hj => ?_
    rw [show x.elem [0, i, j] = _ from hx.elem i j hi hj]
    exact if_neg (h i j hi hj)
  mul_result _ hx hy := elementwise_rows hx hy
  add_result _ hx hy := elementwise_rows hx hy
  transpose_middle {x dt a b d f} hx := by
    have hxd : x.dims = [1, a, b, d] := hx.dims
    refine ⟨_, rfl, ?_, hx.dtype, fun z j i k hz hj hi hk => hx.elem z i j k hz hi hj hk⟩
    simp [ExactCandle.dims, hxd]
  rope_result {x c s dt h n m f fc fs} _ hx hc hs := by
    have hxd : x.dims = [1, h, n, 2 * m] := hx.dims
    have hcd : c.dims = [n, m] := hc.dims
    have hsd : s.dims = [n, m] := hs.dims
    show ∃ t, rope x c s = .ok t ∧ _
    unfold rope
    rw [hxd, hcd, hsd]
    simp only [ne_eq, not_true_eq_false, or_self, if_false]
    rw [show x.dtype = dt from hx.dtype]
    refine ofFn_entries dt fun z j i k hz hj hi hk => ?_
    show (if k < m then
        turned (· - ·) (x.elem [z, j, i, k]) (c.elem [i, k]) (x.elem [z, j, i, k + m]) (s.elem [i, k])
      else turned (· + ·) (x.elem [z, j, i, k - m]) (s.elem [i, k - m]) (x.elem [z, j, i, k])
        (c.elem [i, k - m])) = _
    rw [show x.elem [z, j, i, k] = _ from hx.elem z j i k hz hj hi hk]
    dsimp only
    split_ifs with hlt
    · rw [show c.elem [i, k] = _ from hc.elem i k hi hlt,
        show x.elem [z, j, i, k + m] = _ from hx.elem z j i (k + m) hz hj hi (by omega),
        show s.elem [i, k] = _ from hs.elem i k hi hlt]
      rfl
    · rw [show c.elem [i, k - m] = _ from hc.elem i (k - m) hi (by omega),
        show x.elem [z, j, i, k - m] = _ from hx.elem z j i (k - m) hz hj hi (by omega),
        show s.elem [i, k - m] = _ from hs.elem i (k - m) hi (by omega)]
      rfl
  row_result {x dt n d f} hx i hi := by
    have hxd : x.dims = [1, n, d] := hx.dims
    show row x i = _
    unfold row
    rw [hxd]
    dsimp only
    rw [if_pos hi]
    refine congrArg Except.ok (List.map_congr_left fun j hj => ?_)
    rw [show x.elem [0, i, j] = _ from hx.elem i j hi (List.mem_range.mp hj)]
    rfl

end Lawful

end Flour.Backend.Exact
