/-
  File:      Flour/Lib/LittleEndian.lean
  Subject:   Numbers as bytes, the least significant first. Names nothing of the program.

  * `toLeBytes`, `fromLeBytes` -- the bytes of a number, the number of bytes;
    **`fromLeBytes_toLeBytes`**, **`toLeBytes_fromLeBytes`** -- each reads what the other wrote;
  * `chunksExact` -- bytes cut into numbers of one width: **`chunksExact_flatMap`**,
    **`flatMap_chunksExact`**.
-/
import Mathlib.Algebra.Order.Group.Nat
import Mathlib.Data.List.Basic

namespace Flour.Lib

/-! ## 1. Numbers -/

/-- The `size` lowest bytes of a number. -/
def toLeBytes : ℕ → ℕ → List UInt8
  | 0, _ => []
  | size + 1, n => UInt8.ofNat n :: toLeBytes size (n / 256)

/-- The value of little-endian bytes. -/
def fromLeBytes (bytes : List UInt8) : ℕ := bytes.foldr (fun b n => b.toNat + 256 * n) 0

@[simp] theorem length_toLeBytes (size n : ℕ) : (toLeBytes size n).length = size := by
  induction size generalizing n with
  | zero => rfl
  | succ size ih => rw [toLeBytes, List.length_cons, ih]

@[simp] theorem fromLeBytes_cons (b : UInt8) (bytes : List UInt8) :
    fromLeBytes (b :: bytes) = b.toNat + 256 * fromLeBytes bytes := rfl

theorem fromLeBytes_lt (bytes : List UInt8) : fromLeBytes bytes < 256 ^ bytes.length := by
  induction bytes with
  | nil => exact Nat.one_pos
  | cons b bytes ih =>
    have hb : b.toNat < 256 := b.toNat_lt
    rw [fromLeBytes_cons, List.length_cons, Nat.pow_succ]
    omega

/-- **A number that fits** is read back. -/
theorem fromLeBytes_toLeBytes {size n : ℕ} (h : n < 256 ^ size) :
    fromLeBytes (toLeBytes size n) = n := by
  induction size generalizing n with
  | zero =>
    rw [Nat.pow_zero, Nat.lt_one_iff] at h
    rw [h]
    rfl
  | succ size ih =>
    have hq : n / 256 < 256 ^ size := by
      rw [Nat.pow_succ] at h
      exact Nat.div_lt_of_lt_mul (by rwa [Nat.mul_comm] at h)
    have hb : (UInt8.ofNat n).toNat = n % 256 := rfl
    rw [toLeBytes, fromLeBytes_cons, ih hq, hb, Nat.mod_add_div]

/-- **Bytes** are written back. -/
theorem toLeBytes_fromLeBytes {size : ℕ} {bytes : List UInt8} (h : bytes.length = size) :
    toLeBytes size (fromLeBytes bytes) = bytes := by
  induction bytes generalizing size with
  | nil =>
    subst h
    rfl
  | cons b bytes ih =>
    subst h
    have hb : b.toNat < 256 := b.toNat_lt
    have hq : (b.toNat + 256 * fromLeBytes bytes) / 256 = fromLeBytes bytes := by omega
    have hr : UInt8.ofNat (b.toNat + 256 * fromLeBytes bytes) = b := by
      rw [← UInt8.toNat_inj]
      show (b.toNat + 256 * fromLeBytes bytes) % 256 = b.toNat
      omega
    rw [List.length_cons, toLeBytes, fromLeBytes_cons, hq, hr, ih rfl]

/-! ## 2. Chunks -/

/-- The chunks of `size` bytes; a shorter rest is dropped. -/
def chunksExact (size : ℕ) (bytes : List UInt8) : List (List UInt8) :=
  (List.range (bytes.length / size)).map fun i => (bytes.drop (i * size)).take size

theorem chunksExact_append {size : ℕ} {chunk bytes : List UInt8} (hs : 0 < size)
    (h : chunk.length = size) :
    chunksExact size (chunk ++ bytes) = chunk :: chunksExact size bytes := by
  have hlen : (chunk ++ bytes).length / size = bytes.length / size + 1 := by
    rw [List.length_append, h, Nat.add_comm, Nat.add_div_right _ hs]
  unfold chunksExact
  rw [hlen, List.range_succ_eq_map, List.map_cons, List.map_map, Nat.zero_mul, List.drop_zero,
    ← h, List.take_left]
  congr 1
  refine List.map_congr_left fun i _ => ?_
  show List.take _ (List.drop ((i + 1) * chunk.length) (chunk ++ bytes)) = _
  rw [Nat.succ_mul, Nat.add_comm, ← List.drop_drop, List.drop_left]

theorem chunksExact_nil (size : ℕ) : chunksExact size [] = [] := by
  unfold chunksExact
  rw [List.length_nil, Nat.zero_div]
  rfl

theorem chunksExact_flatMap {size : ℕ} (hs : 0 < size) (vals : List ℕ) :
    chunksExact size (vals.flatMap (toLeBytes size)) = vals.map (toLeBytes size) := by
  induction vals with
  | nil => exact chunksExact_nil size
  | cons v vals ih =>
    rw [List.flatMap_cons, chunksExact_append hs (length_toLeBytes size v), ih, List.map_cons]

/-- The values of the chunks, written back. -/
theorem flatMap_chunksExact {size n : ℕ} (hs : 0 < size) {bytes : List UInt8}
    (h : bytes.length = n * size) :
    ((chunksExact size bytes).map fromLeBytes).flatMap (toLeBytes size) = bytes ∧
      ∀ v ∈ (chunksExact size bytes).map fromLeBytes, v < 256 ^ size := by
  induction n generalizing bytes with
  | zero =>
    rw [Nat.zero_mul, List.length_eq_zero_iff] at h
    rw [h, chunksExact_nil]
    exact ⟨rfl, fun _ hv => absurd hv List.not_mem_nil⟩
  | succ n ih =>
    rw [Nat.succ_mul] at h
    have hchunk : (bytes.take size).length = size := by
      rw [List.length_take]
      omega
    have hrest : (bytes.drop size).length = n * size := by
      rw [List.length_drop]
      omega
    obtain ⟨heq, hlt⟩ := ih hrest
    have hsplit : chunksExact size bytes = bytes.take size :: chunksExact size (bytes.drop size) := by
      rw [← chunksExact_append hs hchunk, List.take_append_drop]
    rw [hsplit, List.map_cons]
    refine ⟨?_, List.forall_mem_cons.mpr ⟨?_, hlt⟩⟩
    · rw [List.flatMap_cons, heq, toLeBytes_fromLeBytes hchunk, List.take_append_drop]
    · have hb := fromLeBytes_lt (bytes.take size)
      rwa [hchunk] at hb

end Flour.Lib
