/-
  File:      Flour/Backend/Tensor.lean
  Subject:   The tensor operations the attention kernels call, which are not part of the repository,
             in exact arithmetic: their interface, and what the kernels rely on.

  * `ExactCandle K T` -- the operations on tensors of type `T`; an element is a number of `K` or
    `-∞`. Nothing is rounded, and memory layout plays no part.
  * `Entries t dt a b c d f` -- `t` is a tensor `(a, b, c, d)` of element type `dt` whose elements
    are `f`.
  * `LawfulExactCandle K T` -- the documented results of the operations, on the shapes the kernels
    use. Where the arithmetic has no result (`-∞ - (-∞)`, a division by zero, `-∞` as a factor)
    nothing is assumed.
  * `Exact` -- a tensor that stores its elements, as an instance; there an operation without a
    result fails.
-/
import Flour.Kv.Candle
import Flour.Lib.OnlineSoftmax

namespace Flour.Backend

open Flour.Kv (DType)
open Flour.Lib

/-- The exponential of the element type. -/
class HasExp (K : Type) where
  exp : K → K

/-- The element types a number or `-∞` can be cast to. -/
def IsFloat : DType → Bool
  | .bf16 | .f16 | .f32 | .f64 => true
  | .u8 | .u32 | .i64 => false

theorem isFloat_f32 : IsFloat .f32 := rfl

/-- The tensor operations the kernels call. Axes are as in the calls; reductions and the softmax
    are over the last axis, which reductions keep. -/
class ExactCandle (K : outParam Type) (T : Type) where
  dims : T → List ℕ
  dtype : T → DType
  elem : T → List ℕ → WithBot K
  new : WithBot K → Except String T
  full : WithBot K → List ℕ → Except String T
  zeros : List ℕ → DType → Except String T
  /-- `from_slice(bytes, shape)`. -/
  fromSlice : List ℕ → List ℕ → Except String T
  toDtype : T → DType → Except String T
  contiguous : T → Except String T
  unsqueeze : T → ℕ → Except String T
  expand : T → List ℕ → Except String T
  reshape : T → List ℕ → Except String T
  transpose : T → ℕ → ℕ → Except String T
  broadcastAs : T → List ℕ → Except String T
  /-- `mask.where_cond(on_true, on_false)`. -/
  whereCond : T → T → T → Except String T
  matmul : T → T → Except String T
  mulScalar : T → K → Except String T
  add : T → T → Except String T
  maximum : T → T → Except String T
  exp : T → Except String T
  maxKeepdim : T → Except String T
  sumKeepdim : T → Except String T
  softmaxLastDim : T → Except String T
  broadcastSub : T → T → Except String T
  broadcastMul : T → T → Except String T
  broadcastDiv : T → T → Except String T
  /-- The text of the error for an unexpected number of dimensions. -/
  rankError : T → String

open ExactCandle

/-- `t` has dimensions `(a, b, c, d)`, element type `dt` and the elements `f`. -/
structure Entries {K T : Type} [ExactCandle K T] (t : T) (dt : DType) (a b c d : ℕ)
    (f : ℕ → ℕ → ℕ → ℕ → WithBot K) : Prop where
  dims : dims t = [a, b, c, d]
  dtype : dtype t = dt
  elem : ∀ i j k l, i < a → j < b → k < c → l < d → elem t [i, j, k, l] = f i j k l

theorem Entries.congr {K T : Type} [ExactCandle K T] {t : T} {dt : DType} {a b c d : ℕ}
    {f g : ℕ → ℕ → ℕ → ℕ → WithBot K} (h : Entries t dt a b c d f)
    (hfg : ∀ i j k l, i < a → j < b → k < c → l < d → f i j k l = g i j k l) :
    Entries t dt a b c d g :=
  ⟨h.dims, h.dtype, fun i j k l hi hj hk hl =>
    (h.elem i j k l hi hj hk hl).trans (hfg i j k l hi hj hk hl)⟩

/-- What the kernels rely on. -/
class LawfulExactCandle (K T : Type) [Field K] [LinearOrder K] [HasExp K] [ExactCandle K T] :
    Prop where
  new_result (x : WithBot K) :
    ∃ t : T, new x = .ok t ∧ dims t = [] ∧ dtype t = .f32 ∧ elem t [] = x
  full_result (x : WithBot K) (a b c d : ℕ) :
    ∃ t : T, full x [a, b, c, d] = .ok t ∧ Entries t .f32 a b c d fun _ _ _ _ => x
  zeros_result (dt : DType) (a b c d : ℕ) :
    ∃ t : T, zeros [a, b, c, d] dt = .ok t ∧ Entries t dt a b c d fun _ _ _ _ => ((0 : K) : WithBot K)
  fromSlice_result {vals : List ℕ} {n m : ℕ} (h : vals.length = n * m) :
    ∃ t : T, fromSlice vals [n, m] = .ok t ∧ dims t = [n, m] ∧ dtype t = .u8 ∧
      ∀ i j, i < n → j < m → elem t [i, j] = ((vals.getD (i * m + j) 0 : K) : WithBot K)
  toDtype_float (t : T) {dt : DType} (h : IsFloat dt) :
    ∃ t', toDtype t dt = .ok t' ∧ dims t' = dims t ∧ dtype t' = dt ∧
      ∀ idx, elem t' idx = elem t idx
  contiguous_copy (t : T) :
    ∃ t', contiguous t = .ok t' ∧ dims t' = dims t ∧ dtype t' = dtype t ∧
      ∀ idx, elem t' idx = elem t idx
  /-- A new axis in the middle. -/
  unsqueeze_two {t : T} {a b c d : ℕ} (h : dims t = [a, b, c, d]) :
    ∃ t', unsqueeze t 2 = .ok t' ∧ dims t' = [a, b, 1, c, d] ∧ dtype t' = dtype t ∧
      ∀ i j k l, elem t' [i, j, 0, k, l] = elem t [i, j, k, l]
  expand_two {t : T} {a b c d : ℕ} (r : ℕ) (h : dims t = [a, b, 1, c, d]) :
    ∃ t', expand t [a, b, r, c, d] = .ok t' ∧ dims t' = [a, b, r, c, d] ∧ dtype t' = dtype t ∧
      ∀ i j s k l, i < a → j < b → s < r → k < c → l < d →
        elem t' [i, j, s, k, l] = elem t [i, j, 0, k, l]
  /-- Merging two adjacent axes. -/
  reshape_merge {t : T} {a b r c d : ℕ} (h : dims t = [a, b, r, c, d]) :
    ∃ t', reshape t [a, b * r, c, d] = .ok t' ∧ dims t' = [a, b * r, c, d] ∧ dtype t' = dtype t ∧
      ∀ i j s k l, i < a → j < b → s < r → k < c → l < d →
        elem t' [i, j * r + s, k, l] = elem t [i, j, s, k, l]
  transpose_last {t : T} {dt : DType} {a b c d : ℕ} {f : ℕ → ℕ → ℕ → ℕ → WithBot K}
    (h : Entries t dt a b c d f) :
    ∃ t', transpose t 2 3 = .ok t' ∧ Entries t' dt a b d c fun i j l k => f i j k l
  broadcastAs_scalar {t : T} (h : dims t = []) (a b c d : ℕ) :
    ∃ t', broadcastAs t [a, b, c, d] = .ok t' ∧
      Entries t' (dtype t) a b c d fun _ _ _ _ => elem t []
  broadcastAs_matrix {t : T} {c d : ℕ} (h : dims t = [c, d]) (a b : ℕ) :
    ∃ t', broadcastAs t [a, b, c, d] = .ok t' ∧
      Entries t' (dtype t) a b c d fun _ _ k l => elem t [k, l]
  whereCond_result {m x y : T} {dt : DType} {a b c d : ℕ} {g f f' : ℕ → ℕ → ℕ → ℕ → WithBot K}
    (hm : Entries m .u8 a b c d g) (hx : Entries x dt a b c d f) (hy : Entries y dt a b c d f') :
    ∃ t, whereCond m x y = .ok t ∧ Entries t dt a b c d fun i j k l =>
      if g i j k l = ((0 : K) : WithBot K) then f' i j k l else f i j k l
  matmul_result {x y : T} {dt : DType} {a b n m d : ℕ} {f g : ℕ → ℕ → ℕ → ℕ → K}
    (hdt : IsFloat dt) (hx : Entries x dt a b n m fun i j k l => f i j k l)
    (hy : Entries y dt a b m d fun i j k l => g i j k l) :
    ∃ t, matmul x y = .ok t ∧ Entries t dt a b n d fun i j k l =>
      ((∑ p ∈ Finset.range m, f i j k p * g i j p l : K) : WithBot K)
  mulScalar_result {x : T} {dt : DType} {a b c d : ℕ} {f : ℕ → ℕ → ℕ → ℕ → K} (s : K)
    (hdt : IsFloat dt) (hx : Entries x dt a b c d fun i j k l => f i j k l) :
    ∃ t, mulScalar x s = .ok t ∧ Entries t dt a b c d fun i j k l =>
      ((f i j k l * s : K) : WithBot K)
  add_result {x y : T} {dt : DType} {a b c d : ℕ} {f g : ℕ → ℕ → ℕ → ℕ → K}
    (hdt : IsFloat dt) (hx : Entries x dt a b c d fun i j k l => f i j k l)
    (hy : Entries y dt a b c d fun i j k l => g i j k l) :
    ∃ t, add x y = .ok t ∧ Entries t dt a b c d fun i j k l =>
      ((f i j k l + g i j k l : K) : WithBot K)
  maximum_result {x y : T} {dt : DType} {a b c d : ℕ} {f g : ℕ → ℕ → ℕ → ℕ → WithBot K}
    (hdt : IsFloat dt) (hx : Entries x dt a b c d f) (hy : Entries y dt a b c d g) :
    ∃ t, maximum x y = .ok t ∧ Entries t dt a b c d fun i j k l => f i j k l ⊔ g i j k l
  exp_result {x : T} {dt : DType} {a b c d : ℕ} {f : ℕ → ℕ → ℕ → ℕ → WithBot K}
    (hdt : IsFloat dt) (hx : Entries x dt a b c d f) :
    ∃ t, exp x = .ok t ∧ Entries t dt a b c d fun i j k l =>
      ((expBot HasExp.exp (f i j k l) : K) : WithBot K)
  /-- The maximum of an empty axis is not defined. -/
  maxKeepdim_result {x : T} {dt : DType} {a b c d : ℕ} {f : ℕ → ℕ → ℕ → ℕ → WithBot K}
    (hdt : IsFloat dt) (hx : Entries x dt a b c d f) (hd : 0 < d) :
    ∃ t, maxKeepdim x = .ok t ∧ Entries t dt a b c 1 fun i j k _ =>
      (Finset.range d).sup fun l => f i j k l
  sumKeepdim_result {x : T} {dt : DType} {a b c d : ℕ} {f : ℕ → ℕ → ℕ → ℕ → K}
    (hdt : IsFloat dt) (hx : Entries x dt a b c d fun i j k l => f i j k l) :
    ∃ t, sumKeepdim x = .ok t ∧ Entries t dt a b c 1 fun i j k _ =>
      ((∑ l ∈ Finset.range d, f i j k l : K) : WithBot K)
  /-- Defined where the exponentials of every row have a sum other than zero. -/
  softmaxLastDim_result {x : T} {dt : DType} {a b c d : ℕ} {f : ℕ → ℕ → ℕ → ℕ → WithBot K}
    (hdt : IsFloat dt) (hx : Entries x dt a b c d f)
    (hf : ∀ i j k, i < a → j < b → k < c →
      ∑ p ∈ Finset.range d, expBot HasExp.exp (f i j k p) ≠ 0) :
    ∃ t, softmaxLastDim x = .ok t ∧ Entries t dt a b c d fun i j k l =>
      ((expBot HasExp.exp (f i j k l) /
        ∑ p ∈ Finset.range d, expBot HasExp.exp (f i j k p) : K) : WithBot K)
  /-- Defined where what is subtracted is a number. -/
  broadcastSub_result {x y : T} {dt : DType} {a b c d : ℕ} {f : ℕ → ℕ → ℕ → ℕ → WithBot K}
    {g : ℕ → ℕ → ℕ → K} (hdt : IsFloat dt) (hx : Entries x dt a b c d f)
    (hy : Entries y dt a b c 1 fun i j k _ => g i j k) :
    ∃ t, broadcastSub x y = .ok t ∧ Entries t dt a b c d fun i j k l =>
      lowered (f i j k l) (g i j k)
  broadcastMul_result {x y : T} {dt : DType} {a b c d : ℕ} {f : ℕ → ℕ → ℕ → ℕ → K}
    {g : ℕ → ℕ → ℕ → K} (hdt : IsFloat dt) (hx : Entries x dt a b c d fun i j k l => f i j k l)
    (hy : Entries y dt a b c 1 fun i j k _ => g i j k) :
    ∃ t, broadcastMul x y = .ok t ∧ Entries t dt a b c d fun i j k l =>
      ((f i j k l * g i j k : K) : WithBot K)
  /-- Defined where the divisor is not zero. -/
  broadcastDiv_result {x y : T} {dt : DType} {a b c d : ℕ} {f : ℕ → ℕ → ℕ → ℕ → K}
    {g : ℕ → ℕ → ℕ → K} (hdt : IsFloat dt) (hx : Entries x dt a b c d fun i j k l => f i j k l)
    (hy : Entries y dt a b c 1 fun i j k _ => g i j k)
    (hg : ∀ i j k, i < a → j < b → k < c → g i j k ≠ 0) :
    ∃ t, broadcastDiv x y = .ok t ∧ Entries t dt a b c d fun i j k l =>
      ((f i j k l / g i j k : K) : WithBot K)

/-! ## 2. An instance -/

/-- A tensor with its elements given by multi-index. -/
structure Exact (K : Type) where
  dims : List ℕ
  dtype : DType
  elem : List ℕ → WithBot K

namespace Exact

/-- The tensor of the elements `f`. Where the arithmetic has none, `-∞` stands for no number. -/
def ofFn {K : Type} (ds : List ℕ) (dt : DType) (f : List ℕ → Option (WithBot K)) :
    Except String (Exact K) :=
  .ok ⟨ds, dt, fun idx => (f idx).getD ⊥⟩

/-- The position of a multi-index in row-major order. -/
def flatten : List ℕ → List ℕ → ℕ
  | _ :: ds, i :: idx => i * ds.prod + flatten ds idx
  | _, _ => 0

/-- The multi-index of a position in row-major order. -/
def unflatten : List ℕ → ℕ → List ℕ
  | [], _ => []
  | _ :: ds, n => n / ds.prod :: unflatten ds (n % ds.prod)

/-- The index into an axis of size one is always zero. -/
def clip (ds idx : List ℕ) : List ℕ :=
  ds.zipWith (fun d i => if d = 1 then 0 else i) idx

/-- Whether a tensor of dimensions `ds` is repeated along its axes of size one to `ds'`. -/
def expandsTo (ds ds' : List ℕ) : Bool :=
  ds.length == ds'.length && (ds.zip ds').all fun p => p.1 = p.2 || p.1 = 1

section Scalar

variable {K : Type} [Field K] [DecidableEq K]

/-- An operation on numbers; it has no result on `-∞`. -/
def onReals (op : K → K → K) : WithBot K → WithBot K → Option (WithBot K)
  | (x : K), (y : K) => some (op x y : K)
  | _, _ => none

/-- A difference; nothing can be subtracted from by `-∞`. -/
def sub : WithBot K → WithBot K → Option (WithBot K)
  | x, (y : K) => some (lowered x y)
  | _, ⊥ => none

/-- A quotient, by a number other than zero. -/
def div : WithBot K → WithBot K → Option (WithBot K)
  | (x : K), (y : K) => if y = 0 then none else some (x / y : K)
  | _, _ => none

/-- The sum of `n` numbers. -/
def sumReals : ℕ → (ℕ → Option (WithBot K)) → Option (WithBot K)
  | 0, _ => some (0 : K)
  | n + 1, f => do onReals (· + ·) (← sumReals n f) (← f n)

end Scalar

section Operations

variable {K : Type} [Field K] [LinearOrder K]

/-- An elementwise operation, the second operand repeated to the shape of the first. -/
def elementwise (op : WithBot K → WithBot K → Option (WithBot K)) (x y : Exact K) :
    Except String (Exact K) :=
  if x.dtype ≠ y.dtype then .error "dtype mismatch in binary op"
  else if !expandsTo y.dims x.dims then .error "shape mismatch in binary op"
  else ofFn x.dims x.dtype fun idx => op (x.elem idx) (y.elem (clip y.dims idx))

/-- A reduction of the last axis. -/
def reduce (op : ℕ → (ℕ → WithBot K) → Option (WithBot K)) (x : Exact K) :
    Except String (Exact K) :=
  match x.dims.getLast? with
  | some d => ofFn (x.dims.dropLast ++ [1]) x.dtype fun idx =>
      op d fun l => x.elem (idx.dropLast ++ [l])
  | none => .error "dimension index out of range in reduce"

def matmul (x y : Exact K) : Except String (Exact K) :=
  match x.dims, y.dims with
  | [a, b, n, m], [a', b', m', d] =>
    if x.dtype ≠ y.dtype then .error "dtype mismatch in matmul"
    else if a ≠ a' ∨ b ≠ b' ∨ m ≠ m' then .error "shape mismatch in matmul"
    else ofFn [a, b, n, d] x.dtype fun idx => sumReals m fun p =>
      onReals (· * ·) (x.elem (idx.take 3 ++ [p])) (y.elem (idx.set 2 p))
  | _, _ => .error "shape mismatch in matmul"

variable [HasExp K]

instance : ExactCandle K (Exact K) where
  dims := Exact.dims
  dtype := Exact.dtype
  elem := Exact.elem
  new x := .ok ⟨[], .f32, fun _ => x⟩
  full x ds := .ok ⟨ds, .f32, fun _ => x⟩
  zeros ds dt := .ok ⟨ds, dt, fun _ => ((0 : K) : WithBot K)⟩
  fromSlice vals ds :=
    if vals.length = ds.prod then
      .ok ⟨ds, .u8, fun idx => ((vals.getD (flatten ds idx) 0 : K) : WithBot K)⟩
    else .error "shape mismatch in from_slice"
  toDtype t dt :=
    if IsFloat dt then .ok { t with dtype := dt } else .error "no result in exact arithmetic"
  contiguous t := .ok t
  unsqueeze t axis :=
    .ok { t with dims := t.dims.insertIdx axis 1, elem := fun idx => t.elem (idx.eraseIdx axis) }
  expand t ds :=
    if expandsTo t.dims ds then .ok ⟨ds, t.dtype, fun idx => t.elem (clip t.dims idx)⟩
    else .error "cannot broadcast"
  reshape t ds :=
    if t.dims.prod = ds.prod then
      .ok ⟨ds, t.dtype, fun idx => t.elem (unflatten t.dims (flatten ds idx))⟩
    else .error "shape mismatch in reshape"
  transpose t axis axis' :=
    let swap (l : List ℕ) := (l.set axis (l.getD axis' 0)).set axis' (l.getD axis 0)
    .ok ⟨swap t.dims, t.dtype, fun idx => t.elem (swap idx)⟩
  broadcastAs t ds :=
    let lead := ds.length - t.dims.length
    if expandsTo t.dims (ds.drop lead) then
      .ok ⟨ds, t.dtype, fun idx => t.elem (clip t.dims (idx.drop lead))⟩
    else .error "cannot broadcast"
  whereCond m x y :=
    if m.dtype ≠ .u8 then .error "unsupported dtype for where-cond"
    else if x.dtype ≠ y.dtype then .error "dtype mismatch in where_cond"
    else if m.dims ≠ x.dims ∨ x.dims ≠ y.dims then .error "shape mismatch in where_cond"
    else .ok ⟨x.dims, x.dtype, fun idx =>
      if m.elem idx = ((0 : K) : WithBot K) then y.elem idx else x.elem idx⟩
  matmul := matmul
  mulScalar t s := ofFn t.dims t.dtype fun idx => onReals (· * ·) (t.elem idx) (s : K)
  add := elementwise (onReals (· + ·))
  maximum := elementwise fun x y => some (x ⊔ y)
  exp t := .ok { t with elem := fun idx => (expBot HasExp.exp (t.elem idx) : K) }
  maxKeepdim := reduce fun d f => if d = 0 then none else some ((Finset.range d).sup f)
  sumKeepdim := reduce fun d f => sumReals d fun l => some (f l)
  softmaxLastDim t :=
    match t.dims.getLast? with
    | some d => ofFn t.dims t.dtype fun idx =>
        div (expBot HasExp.exp (t.elem idx) : K)
          (∑ p ∈ Finset.range d, expBot HasExp.exp (t.elem (idx.dropLast ++ [p])) : K)
    | none => .error "dimension index out of range in softmax"
  broadcastSub := elementwise sub
  broadcastMul := elementwise (onReals (· * ·))
  broadcastDiv := elementwise div
  rankError t := s!"unexpected rank, expected: 4, got: {t.dims.length}"

end Operations

/-! ## 3. It meets the interface -/

section Lawful

/-- Reading back the position of a multi-index. -/
theorem unflatten_flatten {ds idx : List ℕ} (h : List.Forall₂ (· < ·) idx ds) :
    flatten ds idx < ds.prod ∧ unflatten ds (flatten ds idx) = idx := by
  induction h with
  | nil => exact ⟨Nat.one_pos, rfl⟩
  | @cons i d idx ds hi _ ih =>
    obtain ⟨hlt, ih⟩ := ih
    have hpos : 0 < ds.prod := lt_of_le_of_lt (Nat.zero_le _) hlt
    constructor
    · calc i * ds.prod + flatten ds idx < i * ds.prod + ds.prod := by omega
        _ = (i + 1) * ds.prod := (Nat.succ_mul i ds.prod).symm
        _ ≤ d * ds.prod := Nat.mul_le_mul_right _ hi
        _ = (d :: ds).prod := List.prod_cons.symm
    · show (i * ds.prod + flatten ds idx) / ds.prod ::
        unflatten ds ((i * ds.prod + flatten ds idx) % ds.prod) = i :: idx
      rw [Nat.mul_comm i, Nat.mul_add_div hpos, Nat.div_eq_of_lt hlt, Nat.mul_add_mod,
        Nat.mod_eq_of_lt hlt, ih, Nat.add_zero]

theorem clip_of_lt {d i : ℕ} (h : i < d) : (if d = 1 then 0 else i) = i := by
  split_ifs with hd
  · omega
  · rfl

variable {K : Type} [Field K]

theorem sumReals_coe {n : ℕ} {f : ℕ → Option (WithBot K)} {g : ℕ → K}
    (h : ∀ p < n, f p = some (g p : WithBot K)) :
    sumReals n f = some ((∑ p ∈ Finset.range n, g p : K) : WithBot K) := by
  induction n with
  | zero => rfl
  | succ n ih =>
    rw [sumReals, ih fun p hp => h p (by omega), h n (by omega), Finset.sum_range_succ]
    rfl

variable [LinearOrder K] [HasExp K]

theorem ofFn_entries {a b c d : ℕ} {f : List ℕ → Option (WithBot K)}
    {g : ℕ → ℕ → ℕ → ℕ → WithBot K} (dt : DType)
    (h : ∀ i j k l, i < a → j < b → k < c → l < d → f [i, j, k, l] = some (g i j k l)) :
    ∃ t : Exact K, ofFn [a, b, c, d] dt f = .ok t ∧ Entries t dt a b c d g := by
  refine ⟨_, rfl, rfl, rfl, fun i j k l hi hj hk hl => ?_⟩
  show (f [i, j, k, l]).getD ⊥ = g i j k l
  rw [h i j k l hi hj hk hl]
  rfl

/-- An elementwise operation, with the second operand of the same shape or of one column. -/
theorem elementwise_entries {op : WithBot K → WithBot K → Option (WithBot K)} {x y : Exact K}
    {dt : DType} {a b c d d' : ℕ} {f g r : ℕ → ℕ → ℕ → ℕ → WithBot K}
    (hx : Entries x dt a b c d f) (hy : Entries y dt a b c d' g) (hd : d' = d ∨ d' = 1)
    (h : ∀ i j k l, i < a → j < b → k < c → l < d →
      op (f i j k l) (g i j k (if d' = 1 then 0 else l)) = some (r i j k l)) :
    ∃ t, elementwise op x y = .ok t ∧ Entries t dt a b c d r := by
  have hxd : x.dims = [a, b, c, d] := hx.dims
  have hyd : y.dims = [a, b, c, d'] := hy.dims
  have hdt : x.dtype = y.dtype := hx.dtype.trans hy.dtype.symm
  have hto : expandsTo [a, b, c, d'] [a, b, c, d] = true := by
    simpa [expandsTo] using hd
  unfold elementwise
  rw [if_neg (not_not.mpr hdt), hxd, hyd, hto, show x.dtype = dt from hx.dtype]
  refine ofFn_entries dt fun i j k l hi hj hk hl => ?_
  have hl' : (if d' = 1 then 0 else l) < d' := by split_ifs <;> omega
  have hclip : clip [a, b, c, d'] [i, j, k, l] = [i, j, k, if d' = 1 then 0 else l] := by
    simp only [clip, List.zipWith, clip_of_lt hi, clip_of_lt hj, clip_of_lt hk]
  rw [hclip, show x.elem [i, j, k, l] = f i j k l from hx.elem i j k l hi hj hk hl,
    show y.elem [i, j, k, _] = _ from hy.elem i j k _ hi hj hk hl']
  exact h i j k l hi hj hk hl

theorem reduce_entries {op : ℕ → (ℕ → WithBot K) → Option (WithBot K)} {x : Exact K} {dt : DType}
    {a b c d : ℕ} {f : ℕ → ℕ → ℕ → ℕ → WithBot K} {r : ℕ → ℕ → ℕ → WithBot K}
    (hx : Entries x dt a b c d f)
    (h : ∀ i j k, i < a → j < b → k < c → ∀ row : ℕ → WithBot K, (∀ l < d, row l = f i j k l) →
      op d row = some (r i j k)) :
    ∃ t, reduce op x = .ok t ∧ Entries t dt a b c 1 fun i j k _ => r i j k := by
  have hxd : x.dims = [a, b, c, d] := hx.dims
  unfold reduce
  rw [hxd, show x.dtype = dt from hx.dtype]
  refine ofFn_entries dt fun i j k l hi hj hk _ => ?_
  exact h i j k hi hj hk _ fun l hl => hx.elem i j k l hi hj hk hl

instance : LawfulExactCandle K (Exact K) where
  new_result x := ⟨_, rfl, rfl, rfl, rfl⟩
  full_result x a b c d := ⟨_, rfl, rfl, rfl, fun _ _ _ _ _ _ _ _ => rfl⟩
  zeros_result dt a b c d := ⟨_, rfl, rfl, rfl, fun _ _ _ _ _ _ _ _ => rfl⟩
  fromSlice_result {vals n m} h := by
    have hp : vals.length = [n, m].prod := by simp [h]
    refine ⟨_, if_pos hp, rfl, rfl, fun i j _ _ => ?_⟩
    simp [ExactCandle.elem, flatten]
  toDtype_float t dt h := ⟨_, if_pos h, rfl, rfl, fun _ => rfl⟩
  contiguous_copy t := ⟨t, rfl, rfl, rfl, fun _ => rfl⟩
  unsqueeze_two {t a b c d} h := by
    have h : t.dims = [a, b, c, d] := h
    exact ⟨_, rfl, by simp [ExactCandle.dims, h], rfl, fun _ _ _ _ => rfl⟩
  expand_two {t a b c d} r h := by
    have h : t.dims = [a, b, 1, c, d] := h
    have hto : expandsTo t.dims [a, b, r, c, d] = true := by simp [expandsTo, h]
    refine ⟨_, if_pos hto, rfl, rfl, fun i j s k l hi hj _ hk hl => ?_⟩
    show t.elem (clip t.dims [i, j, s, k, l]) = _
    simp only [clip, h, List.zipWith, clip_of_lt hi, clip_of_lt hj, clip_of_lt hk, clip_of_lt hl,
      if_true]
    rfl
  reshape_merge {t a b r c d} h := by
    have h : t.dims = [a, b, r, c, d] := h
    have hp : t.dims.prod = [a, b * r, c, d].prod := by simp [h, Nat.mul_assoc]
    refine ⟨_, if_pos hp, rfl, rfl, fun i j s k l hi hj hs hk hl => ?_⟩
    have hflat : flatten [a, b * r, c, d] [i, j * r + s, k, l]
        = flatten [a, b, r, c, d] [i, j, s, k, l] := by
      simp only [flatten, List.prod_cons, List.prod_nil]
      ring
    have hback : _ ∧ unflatten [a, b, r, c, d] (flatten [a, b, r, c, d] [i, j, s, k, l]) =
        [i, j, s, k, l] := unflatten_flatten (by simp [hi, hj, hs, hk, hl])
    show t.elem (unflatten t.dims (flatten [a, b * r, c, d] [i, j * r + s, k, l])) = _
    rw [hflat, h, hback.2]
    rfl
  transpose_last {t dt a b c d f} h := by
    have hd : t.dims = [a, b, c, d] := h.dims
    refine ⟨_, rfl, ?_, h.dtype, fun i j l k hi hj hl hk => h.elem i j k l hi hj hk hl⟩
    simp [ExactCandle.dims, hd]
  broadcastAs_scalar {t} h a b c d := by
    have h : t.dims = [] := h
    have hto : expandsTo t.dims ([a, b, c, d].drop ([a, b, c, d].length - t.dims.length)) = true := by
      simp [expandsTo, h]
    refine ⟨_, if_pos hto, rfl, rfl, fun i j k l _ _ _ _ => ?_⟩
    simp [ExactCandle.elem, clip, h]
  broadcastAs_matrix {t c d} h a b := by
    have h : t.dims = [c, d] := h
    have hto : expandsTo t.dims ([a, b, c, d].drop ([a, b, c, d].length - t.dims.length)) = true := by
      simp [expandsTo, h]
    refine ⟨_, if_pos hto, rfl, rfl, fun i j k l _ _ hk hl => ?_⟩
    simp [ExactCandle.elem, clip, h, clip_of_lt hk, clip_of_lt hl]
  whereCond_result {m x y dt a b c d g f f'} hm hx hy := by
    have hmx : ¬(m.dims ≠ x.dims ∨ x.dims ≠ y.dims) := by
      rw [show m.dims = _ from hm.dims, show x.dims = _ from hx.dims, show y.dims = _ from hy.dims]
      simp
    have hdt : x.dtype = y.dtype := hx.dtype.trans hy.dtype.symm
    have hu8 : m.dtype = .u8 := hm.dtype
    refine ⟨_, (if_neg (not_not.mpr hu8)).trans ((if_neg (not_not.mpr hdt)).trans (if_neg hmx)),
      hx.dims, hx.dtype, fun i j k l hi hj hk hl => ?_⟩
    show (if m.elem [i, j, k, l] = _ then y.elem [i, j, k, l] else x.elem [i, j, k, l]) = _
    rw [show m.elem [i, j, k, l] = _ from hm.elem i j k l hi hj hk hl,
      show x.elem [i, j, k, l] = _ from hx.elem i j k l hi hj hk hl,
      show y.elem [i, j, k, l] = _ from hy.elem i j k l hi hj hk hl]
  matmul_result {x y dt a b n m d f g} _ hx hy := by
    have hxd : x.dims = [a, b, n, m] := hx.dims
    have hyd : y.dims = [a, b, m, d] := hy.dims
    have hdt : x.dtype = y.dtype := hx.dtype.trans hy.dtype.symm
    show ∃ t, Exact.matmul x y = .ok t ∧ _
    unfold Exact.matmul
    rw [hxd, hyd]
    simp only [ne_eq, hdt, not_true_eq_false, if_false, or_self]
    rw [show y.dtype = dt from hy.dtype]
    refine ofFn_entries dt fun i j k l hi hj hk hl => sumReals_coe fun p hp => ?_
    show onReals (· * ·) (x.elem [i, j, k, p]) (y.elem [i, j, p, l]) = _
    rw [show x.elem [i, j, k, p] = _ from hx.elem i j k p hi hj hk hp,
      show y.elem [i, j, p, l] = _ from hy.elem i j p l hi hj hp hl]
    rfl
  mulScalar_result {x dt a b c d f} s _ hx := by
    have hxd : x.dims = [a, b, c, d] := hx.dims
    show ∃ t, ofFn x.dims x.dtype (fun idx => onReals (· * ·) (x.elem idx) (s : K)) = .ok t ∧ _
    rw [hxd, show x.dtype = dt from hx.dtype]
    refine ofFn_entries dt fun i j k l hi hj hk hl => ?_
    rw [show x.elem [i, j, k, l] = _ from hx.elem i j k l hi hj hk hl]
    rfl
  add_result _ hx hy := elementwise_entries hx hy (.inl rfl) fun i j k l _ _ _ hl => by
    split_ifs with hd
    · obtain rfl : l = 0 := by omega
      rfl
    · rfl
  maximum_result _ hx hy := elementwise_entries hx hy (.inl rfl) fun i j k l _ _ _ hl => by
    split_ifs with hd
    · obtain rfl : l = 0 := by omega
      rfl
    · rfl
  exp_result {x dt a b c d f} _ hx := by
    refine ⟨_, rfl, hx.dims, hx.dtype, fun i j k l hi hj hk hl => ?_⟩
    show ((expBot HasExp.exp (x.elem [i, j, k, l]) : K) : WithBot K) = _
    rw [show x.elem [i, j, k, l] = _ from hx.elem i j k l hi hj hk hl]
  maxKeepdim_result {x dt a b c d f} _ hx hd :=
    reduce_entries hx fun i j k _ _ _ row hrow => by
      rw [if_neg hd.ne', Finset.sup_congr rfl fun l hl => hrow l (Finset.mem_range.mp hl)]
  sumKeepdim_result {x dt a b c d f} _ hx :=
    reduce_entries (r := fun i j k => ((∑ l ∈ Finset.range d, f i j k l : K) : WithBot K)) hx
      fun i j k _ _ _ row hrow => sumReals_coe fun l hl => congrArg some (hrow l hl)
  softmaxLastDim_result {x dt a b c d f} _ hx hf := by
    have hxd : x.dims = [a, b, c, d] := hx.dims
    simp only [ExactCandle.softmaxLastDim, hxd, List.getLast?_cons_cons, List.getLast?_singleton]
    rw [show x.dtype = dt from hx.dtype]
    refine ofFn_entries dt fun i j k l hi hj hk hl => ?_
    have hrow : ∑ p ∈ Finset.range d, expBot HasExp.exp (x.elem [i, j, k, p])
        = ∑ p ∈ Finset.range d, expBot HasExp.exp (f i j k p) :=
      Finset.sum_congr rfl fun p hp =>
        congrArg (expBot HasExp.exp) (hx.elem i j k p hi hj hk (Finset.mem_range.mp hp))
    show div ((expBot HasExp.exp (x.elem [i, j, k, l]) : K) : WithBot K)
      ((∑ p ∈ Finset.range d, expBot HasExp.exp (x.elem [i, j, k, p]) : K) : WithBot K) = _
    rw [hrow, show x.elem [i, j, k, l] = _ from hx.elem i j k l hi hj hk hl]
    exact if_neg (hf i j k hi hj hk)
  broadcastSub_result _ hx hy := elementwise_entries hx hy (.inr rfl) fun i j k l _ _ _ _ => rfl
  broadcastMul_result _ hx hy := elementwise_entries hx hy (.inr rfl) fun i j k l _ _ _ _ => rfl
  broadcastDiv_result _ hx hy hg := elementwise_entries hx hy (.inr rfl) fun i j k l hi hj hk _ =>
    if_neg (hg i j k hi hj hk)

end Lawful

end Exact

end Flour.Backend
