/-
  File:      Flour/Kv/Key.lean
  Subject:   `PrefixKeyBuilder` of `src/kv_cache/key.rs`: the object key of a prompt's reusable
             prefix.

  * `keyForReusablePrefix_congr` -- the key depends on the reusable tokens alone;
  * **`modelId_eq_of_key`** -- the key determines the model id and the number of its tokens. The model
    id may contain anything, also what follows it in a key: the key is read from the right, where
    a numeral, a slash and a field of fixed width come first.
-/
import Flour.Lib.Fields
import Flour.Lib.LittleEndian

namespace Flour.Kv

open Flour.Lib

structure PrefixKeyBuilder where
  modelId : String
  blockSize : ℕ

namespace PrefixKeyBuilder

def new (modelId : String) (blockSize : ℕ) : PrefixKeyBuilder :=
  { modelId, blockSize := max blockSize 1 }

/-- The largest multiple of the block size below the length of the prompt. -/
def reusableTokenCount (b : PrefixKeyBuilder) (promptLen : ℕ) : ℕ :=
  if promptLen = 0 then 0 else (promptLen - 1) / b.blockSize * b.blockSize

/-- One byte fed to the hash. -/
def feed (h : UInt64) (b : UInt8) : UInt64 := (h ^^^ b.toUInt64) * 0x00000100000001b3

def hash (b : PrefixKeyBuilder) (tokenIds : List UInt32) : UInt64 :=
  let bytes := b.modelId.toUTF8.toList ++ toLeBytes 8 b.blockSize ++
    tokenIds.flatMap fun t => toLeBytes 4 t.toNat
  bytes.foldl feed 0xcbf29ce484222325

/-- `{:016x}`. -/
def hex16 (h : UInt64) : String :=
  let digits := Nat.toDigits 16 h.toNat
  String.ofList (List.replicate (16 - digits.length) '0' ++ digits)

/-- The key of the reusable prefix, and its number of tokens. -/
def keyForReusablePrefix (b : PrefixKeyBuilder) (tokenIds : List UInt32) : Option (String × ℕ) :=
  let tokenCount := b.reusableTokenCount tokenIds.length
  if tokenCount = 0 then none
  else some (s!"kv://v1/model/{b.modelId}/prefix/{hex16 (b.hash (tokenIds.take tokenCount))}" ++
    s!"/tokens/{tokenCount}", tokenCount)

/-! ## 1. What a key says -/

section Key

variable {b b' : PrefixKeyBuilder} {p q : List UInt32} {key : String} {m n : ℕ}

/-- The key depends on the reusable tokens alone. -/
theorem keyForReusablePrefix_congr
    (hcount : b.reusableTokenCount q.length = b.reusableTokenCount p.length)
    (htake : q.take (b.reusableTokenCount p.length) = p.take (b.reusableTokenCount p.length)) :
    b.keyForReusablePrefix q = b.keyForReusablePrefix p := by
  unfold keyForReusablePrefix
  rw [hcount]
  dsimp only
  rw [htake]

theorem reusableTokenCount_le (b : PrefixKeyBuilder) (promptLen : ℕ) :
    b.reusableTokenCount promptLen ≤ promptLen := by
  unfold reusableTokenCount
  split_ifs
  · exact Nat.zero_le _
  · exact Nat.le_trans (Nat.div_mul_le_self _ _) (Nat.sub_le _ _)

/-- A hash has 16 hexadecimal digits, with zeros in front. -/
theorem length_hex16 (h : UInt64) : (hex16 h).toList.length = 16 := by
  have hlen : (Nat.toDigits 16 h.toNat).length ≤ 16 :=
    (Nat.length_toDigits_le_iff (by decide) (by decide)).mpr h.toNat_lt
  show (String.ofList (padded 16 (Nat.toDigits 16 h.toNat))).toList.length = 16
  rw [String.toList_ofList, length_padded hlen]

/-- The text of a key. -/
theorem keyForReusablePrefix_eq_some (h : b.keyForReusablePrefix p = some (key, n)) :
    n = b.reusableTokenCount p.length ∧ ∃ hash : UInt64, key.toList =
      ("kv://v1/model/".toList ++ b.modelId.toList ++ "/prefix/".toList ++ (hex16 hash).toList ++
        "/tokens".toList) ++ '/' :: Nat.toDigits 10 n := by
  unfold keyForReusablePrefix at h
  dsimp only at h
  split_ifs at h
  cases h
  refine ⟨rfl, b.hash (p.take (b.reusableTokenCount p.length)), ?_⟩
  simp [toString]

/-- **A key determines** the model id and the number of its tokens. -/
theorem modelId_eq_of_key (h : b.keyForReusablePrefix p = some (key, n))
    (h' : b'.keyForReusablePrefix q = some (key, m)) : b.modelId = b'.modelId ∧ n = m := by
  obtain ⟨-, hash, hkey⟩ := keyForReusablePrefix_eq_some h
  obtain ⟨-, hash', hkey'⟩ := keyForReusablePrefix_eq_some h'
  have hslash : ∀ n, '/' ∉ Nat.toDigits 10 n := notMem_toDigits (by decide)
  -- the numeral, then the hash with what stands around it, then the model id
  obtain ⟨hrest, hnum⟩ := last_field_inj (hslash n) (hslash m) (hkey.symm.trans hkey')
  have hrest := (List.append_inj' hrest rfl).1
  have hrest := (List.append_inj' hrest (by rw [length_hex16, length_hex16])).1
  have hrest := (List.append_inj' hrest rfl).1
  exact ⟨String.toList_inj.mp (List.append_cancel_left hrest), toDigits_inj hnum⟩

end Key

end PrefixKeyBuilder

end Flour.Kv
