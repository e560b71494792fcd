/-
  File:      Flour/Kv/Candle.lean
  Subject:   The tensor operations the cache calls, which are not part of the repository: their
             interface, and what the code relies on.

  * `Candle T` -- the operations on tensors of type `T`; an element is a bit pattern, read at a
    multi-index by `elem`. With them come the answers of the memory allocator, on which nothing
    relies.
  * `LawfulCandle T` -- the documented behaviour of these operations on the shapes the cache uses.
    Results about bookkeeping alone do not assume it.
  * `row`, `rows` -- a K/V row: the elements of all heads at one position of the slot axis, and
    the list of them; `rows_view` and `row_sliceSet` say what a view and a write do to them.
  * `Dense` -- a tensor that stores its elements, as an instance; its vectors get up to 2^40 bytes.
-/
import Mathlib.Algebra.BigOperators.Group.List.Basic
import Mathlib.Data.List.Range
import Mathlib.Data.Nat.Notation

namespace Flour.Kv

/-- Element types. -/
inductive DType where
  | u8
  | u32
  | i64
  | bf16
  | f16
  | f32
  | f64
  deriving DecidableEq, Repr

/-- The tensor operations the cache calls. Axes and offsets are as in the calls. -/
class Candle (T : Type) where
  dims : T → List ℕ
  dtype : T → DType
  isContiguous : T → Bool
  /-- The bit pattern of the element at a multi-index. -/
  elem : T → List ℕ → ℕ
  zeros : List ℕ → DType → Except String T
  squeeze : T → ℕ → Except String T
  unsqueeze : T → ℕ → Except String T
  narrow : T → ℕ → ℕ → ℕ → Except String T
  contiguous : T → Except String T
  /-- `slice_set(src, axis, offset)`, in place: the result is the tensor written to. -/
  sliceSet : T → T → ℕ → ℕ → Except String T
  /-- `from_vec(values, shape)`, the values as bit patterns. -/
  fromVec : List ℕ → List ℕ → DType → Except String T
  /-- The text of the error for an unexpected number of dimensions. -/
  rankError : T → String
  /-- Whether the memory allocator grants the `i`-th vector of a decode its bytes. -/
  grants : ℕ → ℕ → Bool

open Candle

/-- What the cache relies on: axis 0 is only squeezed and added, and views and writes are along
    axis 1 of tensors of rank 3. -/
class LawfulCandle (T : Type) [Candle T] : Prop where
  zeros_result {ds : List ℕ} {dt : DType} {t : T} (h : zeros ds dt = .ok t) :
    dims t = ds ∧ dtype t = dt ∧ isContiguous t = true
  squeeze_one {t : T} {ds : List ℕ} (h : dims t = 1 :: ds) :
    ∃ t', squeeze t 0 = .ok t' ∧ dims t' = ds ∧ dtype t' = dtype t ∧
      ∀ idx, elem t' idx = elem t (0 :: idx)
  /-- An axis whose size is not one stays. -/
  squeeze_ne_one {t : T} {d : ℕ} {ds : List ℕ} (h : dims t = d :: ds) (hd : d ≠ 1) :
    squeeze t 0 = .ok t
  unsqueeze_zero (t : T) :
    ∃ t', unsqueeze t 0 = .ok t' ∧ dims t' = 1 :: dims t ∧ dtype t' = dtype t ∧
      ∀ idx, elem t' (0 :: idx) = elem t idx
  narrow_slots {t : T} {a b c s n : ℕ} (h : dims t = [a, b, c]) (hn : s + n ≤ b) :
    ∃ t', narrow t 1 s n = .ok t' ∧ dims t' = [a, n, c] ∧ dtype t' = dtype t ∧
      ∀ i j k, i < a → j < n → k < c → elem t' [i, j, k] = elem t [i, s + j, k]
  contiguous_copy (t : T) :
    ∃ t', contiguous t = .ok t' ∧ dims t' = dims t ∧ dtype t' = dtype t ∧
      isContiguous t' = true ∧ ∀ idx, elem t' idx = elem t idx
  /-- A write succeeds when the source fits, and only then. -/
  sliceSet_ok_iff {t src : T} {a b c off : ℕ} (h : dims t = [a, b, c])
    (hc : isContiguous t = true) :
    (∃ t', sliceSet t src 1 off = .ok t') ↔ ∃ n, dims src = [a, n, c] ∧ dtype src = dtype t ∧
      isContiguous src = true ∧ off + n ≤ b
  sliceSet_result {t src t' : T} {a b c n off : ℕ} (h : dims t = [a, b, c])
    (hs : dims src = [a, n, c]) (ht : sliceSet t src 1 off = .ok t') :
    dims t' = dims t ∧ dtype t' = dtype t ∧ isContiguous t' = isContiguous t ∧
      ∀ i j k, i < a → j < b → k < c → elem t' [i, j, k] =
        if off ≤ j ∧ j < off + n then elem src [i, j - off, k] else elem t [i, j, k]
  fromVec_result {vals : List ℕ} {a b c : ℕ} {dt : DType} (h : vals.length = a * b * c) :
    ∃ t : T, fromVec vals [a, b, c] dt = .ok t ∧ dims t = [a, b, c] ∧ dtype t = dt ∧
      ∀ i j k, i < a → j < b → k < c → vals[(i * b + j) * c + k]? = some (elem t [i, j, k])

/-! ## 1. Rows -/

/-- A K or V row: the bit patterns of all heads at one position. -/
abbrev Row := List (List ℕ)

section Rows

variable {T : Type} [Candle T]

/-- The row at slot `j` of a tensor `(kv_heads, slots, head_dim)`. -/
def row (kvHeads headDim : ℕ) (t : T) (j : ℕ) : Row :=
  (List.range kvHeads).map fun h => (List.range headDim).map fun d => elem t [h, j, d]

/-- The row at position `j` of a tensor `(1, kv_heads, seq, head_dim)`. -/
def batchRow (kvHeads headDim : ℕ) (t : T) (j : ℕ) : Row :=
  (List.range kvHeads).map fun h => (List.range headDim).map fun d => elem t [0, h, j, d]

/-- All rows of a tensor `(1, kv_heads, seq, head_dim)`, in order. -/
def rows (t : T) : List Row :=
  match dims t with
  | [_, kvHeads, n, headDim] => (List.range n).map (batchRow kvHeads headDim t)
  | _ => []

theorem row_congr {kvHeads headDim : ℕ} {t t' : T} {j j' : ℕ}
    (h : ∀ i k, i < kvHeads → k < headDim → elem t [i, j, k] = elem t' [i, j', k]) :
    row kvHeads headDim t j = row kvHeads headDim t' j' := by
  unfold row
  refine List.map_congr_left fun i hi => List.map_congr_left fun k hk => ?_
  exact h i k (List.mem_range.mp hi) (List.mem_range.mp hk)

/-- Equal rows have equal elements. -/
theorem elem_of_row {kvHeads headDim : ℕ} {t t' : T} {j j' : ℕ}
    (h : row kvHeads headDim t j = row kvHeads headDim t' j') {i k : ℕ} (hi : i < kvHeads)
    (hk : k < headDim) : elem t [i, j, k] = elem t' [i, j', k] :=
  List.map_inj_left.mp (List.map_inj_left.mp h i (List.mem_range.mpr hi)) k (List.mem_range.mpr hk)

variable [LawfulCandle T]

/-- Squeezing the batch axis keeps the rows. -/
theorem squeeze_rows {t : T} {a n c : ℕ} (h : dims t = [1, a, n, c]) :
    ∃ t', squeeze t 0 = .ok t' ∧ dims t' = [a, n, c] ∧ dtype t' = dtype t ∧
      ∀ j, row a c t' j = batchRow a c t j := by
  obtain ⟨t', hsq, hd, hdt, he⟩ := LawfulCandle.squeeze_one h
  exact ⟨t', hsq, hd, hdt, fun j => by simp only [row, batchRow, he]⟩

/-- A contiguous run of `n` slots, copied out. -/
theorem narrow_contiguous {t : T} {a b c s n : ℕ} (h : dims t = [a, b, c]) (hn : s + n ≤ b) :
    ∃ t', (narrow t 1 s n >>= contiguous) = .ok t' ∧ dims t' = [a, n, c] ∧
      dtype t' = dtype t ∧ isContiguous t' = true ∧
      ∀ j, j < n → row a c t' j = row a c t (s + j) := by
  obtain ⟨u, hu, hd, hdt, he⟩ := LawfulCandle.narrow_slots h hn
  obtain ⟨t', ht', hd', hdt', hc, he'⟩ := LawfulCandle.contiguous_copy u
  refine ⟨t', ?_, by rw [hd', hd], by rw [hdt', hdt], hc, fun j hj => row_congr fun i k hi hk => ?_⟩
  · rw [hu]
    exact ht'
  · rw [he', he i j k hi hj hk]

/-- **A write** that fits succeeds, and replaces exactly the rows it covers. -/
theorem row_sliceSet {t src : T} {a b c n off : ℕ} (h : dims t = [a, b, c])
    (hc : isContiguous t = true) (hs : dims src = [a, n, c]) (hdt : dtype src = dtype t)
    (hsc : isContiguous src = true) (hn : off + n ≤ b) :
    ∃ t', sliceSet t src 1 off = .ok t' ∧ dims t' = [a, b, c] ∧ dtype t' = dtype t ∧
      isContiguous t' = true ∧ ∀ j, j < b → row a c t' j =
        if off ≤ j ∧ j < off + n then row a c src (j - off) else row a c t j := by
  obtain ⟨t', ht'⟩ := (LawfulCandle.sliceSet_ok_iff h hc).mpr ⟨n, hs, hdt, hsc, hn⟩
  obtain ⟨hd, hdt', hc', he⟩ := LawfulCandle.sliceSet_result h hs ht'
  refine ⟨t', ht', by rw [hd, h], hdt', by rw [hc', hc], fun j hj => ?_⟩
  by_cases hin : off ≤ j ∧ j < off + n
  · rw [if_pos hin]
    exact row_congr fun i k hi hk => by rw [he i j k hi hj hk, if_pos hin]
  · rw [if_neg hin]
    exact row_congr fun i k hi hk => by rw [he i j k hi hj hk, if_neg hin]

/-- **A view** of `n` slots has the rows of these slots. -/
theorem rows_view {t : T} {a b c s n : ℕ} (h : dims t = [a, b, c]) (hn : s + n ≤ b) :
    ∃ t', (narrow t 1 s n >>= fun u => unsqueeze u 0) = .ok t' ∧ dims t' = [1, a, n, c] ∧
      dtype t' = dtype t ∧ rows t' = (List.range n).map fun j => row a c t (s + j) := by
  obtain ⟨u, hu, hd, hdt, he⟩ := LawfulCandle.narrow_slots h hn
  obtain ⟨t', ht', hd', hdt', he'⟩ := LawfulCandle.unsqueeze_zero u
  have hdims : dims t' = [1, a, n, c] := by rw [hd', hd]
  refine ⟨t', ?_, hdims, hdt'.trans hdt, ?_⟩
  · rw [hu]
    exact ht'
  · unfold rows
    rw [hdims]
    refine List.map_congr_left fun j hj => ?_
    unfold batchRow row
    refine List.map_congr_left fun i hi => List.map_congr_left fun k hk => ?_
    rw [he', he i j k (List.mem_range.mp hi) (List.mem_range.mp hj) (List.mem_range.mp hk)]

end Rows

/-! ## 2. A dense instance -/

/-- A tensor with its elements given by multi-index. -/
structure Dense where
  dims : List ℕ
  dtype : DType
  contiguous : Bool
  elem : List ℕ → ℕ

namespace Dense

/-- Whether a source of dimensions `src` fits a target of dimensions `ds` at `offset` of `axis`. -/
def fits (axis offset : ℕ) (ds src : List ℕ) : Bool :=
  ds.length == src.length && (List.range ds.length).all fun i =>
    if i = axis then src.getD i 0 + offset ≤ ds.getD i 0 else src.getD i 0 = ds.getD i 0

/-- The elements after `src` is written at `offset` of `axis`. -/
def written (t src : Dense) (axis offset : ℕ) (idx : List ℕ) : ℕ :=
  let j := idx.getD axis 0
  if offset ≤ j ∧ j < offset + src.dims.getD axis 0 then src.elem (idx.modify axis (· - offset))
  else t.elem idx

/-- The position of a multi-index in row-major order. -/
def flatIndex (ds idx : List ℕ) : ℕ :=
  (ds.zip idx).foldl (fun n p => n * p.1 + p.2) 0

def sliceSet (t src : Dense) (axis offset : ℕ) : Except String Dense :=
  if !(t.contiguous && src.contiguous) then .error "slice-set only supports contiguous tensors"
  else if t.dtype ≠ src.dtype then .error "dtype mismatch in slice-set"
  else if !fits axis offset t.dims src.dims then .error "shape mismatch on target dim in slice-set"
  else .ok { t with elem := t.written src axis offset }

instance : Candle Dense where
  dims := Dense.dims
  dtype := Dense.dtype
  isContiguous := Dense.contiguous
  elem := Dense.elem
  zeros ds dt := .ok ⟨ds, dt, true, fun _ => 0⟩
  squeeze t axis :=
    match t.dims[axis]? with
    | none => .error "dimension index out of range in squeeze"
    | some d =>
      if d = 1 then
        .ok { t with dims := t.dims.eraseIdx axis, elem := fun idx => t.elem (idx.insertIdx axis 0) }
      else .ok t
  unsqueeze t axis :=
    .ok { t with dims := t.dims.insertIdx axis 1, elem := fun idx => t.elem (idx.eraseIdx axis) }
  narrow t axis start len :=
    match t.dims[axis]? with
    | none => .error "dimension index out of range in narrow"
    | some d =>
      if start + len ≤ d then
        .ok { t with dims := t.dims.set axis len, contiguous := false,
                     elem := fun idx => t.elem (idx.modify axis (start + ·)) }
      else .error "invalid narrow"
  contiguous t := .ok { t with contiguous := true }
  sliceSet := Dense.sliceSet
  fromVec vals ds dt :=
    if vals.length = ds.prod then
      .ok ⟨ds, dt, true, fun idx => vals.getD (flatIndex ds idx) 0⟩
    else .error "shape mismatch in from_vec"
  rankError t := s!"unexpected rank, got: {t.dims.length}"
  grants _ bytes := decide (bytes ≤ 2 ^ 40)

theorem fits_iff {a b c off : ℕ} {src : List ℕ} :
    fits 1 off [a, b, c] src = true ↔ ∃ n, src = [a, n, c] ∧ off + n ≤ b := by
  constructor
  · intro h
    unfold fits at h
    rcases src with _ | ⟨x, _ | ⟨y, _ | ⟨z, _ | ⟨w, src⟩⟩⟩⟩ <;>
      simp [List.range_succ] at h
    obtain ⟨hx, hy, hz⟩ := h
    exact ⟨y, by rw [hx, hz], by omega⟩
  · rintro ⟨n, rfl, hn⟩
    simp [fits, List.range_succ]
    omega

instance : LawfulCandle Dense where
  zeros_result h := by
    cases h
    exact ⟨rfl, rfl, rfl⟩
  squeeze_one {t ds} h := by
    have h : t.dims = 1 :: ds := h
    refine ⟨{ t with dims := ds, elem := fun idx => t.elem (0 :: idx) }, ?_, rfl, rfl, fun _ => rfl⟩
    simp [Candle.squeeze, h]
  squeeze_ne_one {t d ds} h hd := by
    have h : t.dims = d :: ds := h
    simp [Candle.squeeze, h, hd]
  unsqueeze_zero t :=
    ⟨{ t with dims := 1 :: t.dims, elem := fun idx => t.elem (idx.eraseIdx 0) }, rfl, rfl, rfl,
      fun _ => rfl⟩
  narrow_slots {t a b c s n} h hn := by
    have h : t.dims = [a, b, c] := h
    refine ⟨{ t with dims := [a, n, c], contiguous := false,
                     elem := fun idx => t.elem (idx.modify 1 (s + ·)) }, ?_, rfl, rfl,
      fun _ _ _ _ _ _ => rfl⟩
    simp [Candle.narrow, h, hn]
  contiguous_copy t := ⟨{ t with contiguous := true }, rfl, rfl, rfl, rfl, fun _ => rfl⟩
  sliceSet_ok_iff {t src a b c off} h hc := by
    have h : t.dims = [a, b, c] := h
    have hc : t.contiguous = true := hc
    show (∃ t', Dense.sliceSet t src 1 off = .ok t') ↔ _
    unfold Dense.sliceSet
    rw [hc, h, Bool.true_and]
    constructor
    · rintro ⟨t', ht'⟩
      split_ifs at ht' with h1 h2 h3
      simp only [Bool.not_eq_true', Bool.not_eq_false, ne_eq, not_not] at h1 h2 h3
      obtain ⟨n, hn, hoff⟩ := fits_iff.mp h3
      exact ⟨n, hn, h2.symm, h1, hoff⟩
    · rintro ⟨n, hn, hdt, hsc, hoff⟩
      have hsc : src.contiguous = true := hsc
      have hdt : t.dtype = src.dtype := hdt.symm
      have hfit : fits 1 off [a, b, c] src.dims = true := fits_iff.mpr ⟨n, hn, hoff⟩
      rw [if_neg (by simp [hsc]), if_neg (by simp [hdt]), if_neg (by simp [hfit])]
      exact ⟨_, rfl⟩
  sliceSet_result {t src t' a b c n off} h hs ht := by
    have hs : src.dims = [a, n, c] := hs
    have ht : Dense.sliceSet t src 1 off = .ok t' := ht
    unfold Dense.sliceSet at ht
    split_ifs at ht
    cases ht
    refine ⟨rfl, rfl, rfl, fun i j k _ _ _ => ?_⟩
    simp [Candle.elem, written, hs]
  fromVec_result {vals a b c dt} h := by
    have hp : vals.length = [a, b, c].prod := by simp [h, Nat.mul_assoc]
    refine ⟨_, if_pos hp, rfl, rfl, fun i j k hi hj hk => ?_⟩
    have hlt : (i * b + j) * c + k < vals.length := by
      have h1 : i * b + j + 1 ≤ a * b :=
        le_trans (by omega) (le_trans (le_of_eq (Nat.succ_mul i b).symm) (Nat.mul_le_mul_right b hi))
      calc (i * b + j) * c + k < (i * b + j + 1) * c := by rw [Nat.succ_mul]; omega
        _ ≤ a * b * c := Nat.mul_le_mul_right c h1
        _ = vals.length := h.symm
    simp [Candle.elem, flatIndex, hlt]

end Dense

end Flour.Kv
