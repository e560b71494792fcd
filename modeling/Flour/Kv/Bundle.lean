/-
  File:      Flour/Kv/Bundle.lean
  Subject:   `KvBundle` and `KvBundleCodec::decode` of `src/kv_cache/bundle.rs`.

  * `fromSlice` is the JSON decoder of the header, which is not part of the repository.
  * `decode` is a program without state. Products of header fields are checked: an overflow of
    `usize` is a panic, as in a build with overflow checks (a release build wraps). So is a vector
    capacity above `isize::MAX` bytes.
  * `decode_valid` -- what decoding returns has the blocks, layers and shapes its header declares.
-/
import Flour.Kv.Candle
import Flour.Lib.LittleEndian
import Flour.Lib.Prog
import Mathlib.Algebra.Order.Group.Nat

namespace Flour.Kv

open Candle Flour.Lib

inductive BundleDType where
  | f32
  | f16
  | bf16
  deriving DecidableEq, Repr

namespace BundleDType

def sizeInBytes : BundleDType → ℕ
  | f32 => 4
  | f16 => 2
  | bf16 => 2

theorem sizeInBytes_pos (d : BundleDType) : 0 < d.sizeInBytes := by
  cases d <;> decide

def toCandle : BundleDType → DType
  | f32 => .f32
  | f16 => .f16
  | bf16 => .bf16

def fromCandle : DType → Option BundleDType
  | .f32 => some f32
  | .f16 => some f16
  | .bf16 => some bf16
  | _ => none

/-- The derived `Debug` text. -/
def debug : BundleDType → String
  | f32 => "F32"
  | f16 => "F16"
  | bf16 => "BF16"

theorem fromCandle_eq_some {dt : DType} {d : BundleDType} :
    fromCandle dt = some d ↔ dt = d.toCandle := by
  cases dt <;> cases d <;> simp [fromCandle, toCandle]

theorem toCandle_inj {d d' : BundleDType} : d.toCandle = d'.toCandle ↔ d = d' := by
  cases d <;> cases d' <;> simp [toCandle]

end BundleDType

structure KvBundleMeta where
  modelId : String
  tokenCount : ℕ
  tokenIds : List UInt32
  blockSize : ℕ
  numLayers : ℕ
  numKvHeads : ℕ
  headDim : ℕ
  dtype : BundleDType
  deriving DecidableEq

structure KvLayerBlock (T : Type) where
  k : T
  v : T

structure KvBundleBlock (T : Type) where
  logicalBlockIdx : ℕ
  layers : List (KvLayerBlock T)

structure KvBundle (T : Type) where
  header : KvBundleMeta
  blocks : List (KvBundleBlock T)

/-! ## 1. Decoding -/

def usizeMax : ℕ := 2 ^ 64 - 1

def isizeMax : ℕ := 2 ^ 63 - 1

/-- A product of `usize` values. -/
def checkedMul (a b : ℕ) : Prog Unit ℕ := if a * b ≤ usizeMax then pure (a * b) else Prog.crash

/-- The capacity of a `Vec` for `n` elements of `size` bytes: more than `isize::MAX` bytes is a
    panic. On its own where the vector is in proportion to what is in memory already (`encode`, the
    export of a bundle); a decode asks the allocator as well. -/
def withCapacity (n size : ℕ) : Prog Unit Unit :=
  if n * size ≤ isizeMax then pure () else Prog.crash

/-- The allocator has the bytes for the `i`-th vector of a decode, or is not asked for any. -/
def Grants (T : Type) [Candle T] (i bytes : ℕ) : Prop := bytes = 0 ∨ grants T i bytes = true

instance (T : Type) [Candle T] (i bytes : ℕ) : Decidable (Grants T i bytes) :=
  inferInstanceAs (Decidable (bytes = 0 ∨ grants T i bytes = true))

/-- `Vec::with_capacity`, for the `i`-th vector of a decode. Memory that is refused aborts the
    process. -/
def allocate (T : Type) [Candle T] (i n size : ℕ) : Prog Unit Unit := do
  withCapacity n size
  if Grants T i (n * size) then pure () else Prog.crash

/-- `bytes[lo..hi]`. -/
def byteSlice (bytes : List UInt8) (lo hi : ℕ) : Prog Unit (List UInt8) :=
  if lo ≤ hi ∧ hi ≤ bytes.length then pure ((bytes.drop lo).take (hi - lo)) else Prog.crash

namespace KvBundleCodec

def magic : List UInt8 := [0x46, 0x4C, 0x4B, 0x56]

def version : ℕ := 1

/-- Size of magic, version and header length. -/
def prefixLen : ℕ := 4 + 2 + 4

section Decode

variable {T : Type} [Candle T]

def leBytesToTensor (bytes : List UInt8) (dtype : BundleDType) (shape : ℕ × ℕ × ℕ) :
    Except String T :=
  fromVec ((chunksExact dtype.sizeInBytes bytes).map fromLeBytes)
    [shape.1, shape.2.1, shape.2.2] dtype.toCandle

/-- The layers of one block, from offset `off` on; returns the offset after them. -/
def decodeLayers (payload : List UInt8) (bytesPerTensor : ℕ) (dtype : BundleDType)
    (shape : ℕ × ℕ × ℕ) : ℕ → ℕ → Prog Unit (List (KvLayerBlock T) × ℕ)
  | 0, off => pure ([], off)
  | n + 1, off => do
    let kBytes ← byteSlice payload off (off + bytesPerTensor)
    let k ← Prog.ofExcept (leBytesToTensor kBytes dtype shape)
    let off := off + bytesPerTensor
    let vBytes ← byteSlice payload off (off + bytesPerTensor)
    let v ← Prog.ofExcept (leBytesToTensor vBytes dtype shape)
    let (layers, off) ← decodeLayers payload bytesPerTensor dtype shape n (off + bytesPerTensor)
    pure ({ k, v } :: layers, off)

/-- The blocks from number `b` on. -/
def decodeBlocks (payload : List UInt8) (bytesPerTensor : ℕ) (dtype : BundleDType)
    (shape : ℕ × ℕ × ℕ) (numLayers : ℕ) : ℕ → ℕ → ℕ → Prog Unit (List (KvBundleBlock T))
  | 0, _, _ => pure []
  | n + 1, b, off => do
    allocate T (b + 1) numLayers 16
    let (layers, off) ← decodeLayers payload bytesPerTensor dtype shape numLayers off
    let blocks ← decodeBlocks payload bytesPerTensor dtype shape numLayers n (b + 1) off
    pure ({ logicalBlockIdx := b, layers } :: blocks)

/-- The frame in front of the header: the bytes of the header and of the payload. -/
def decodeFrame (bytes : List UInt8) : Except String (List UInt8 × List UInt8) :=
  if bytes.length < prefixLen then .error s!"bundle too short: {bytes.length} bytes"
  else if bytes.take 4 ≠ magic then .error "bad bundle magic"
  else
    let v := fromLeBytes ((bytes.drop 4).take 2)
    if v ≠ version then .error s!"unsupported bundle version {v}"
    else
      let headerLen := fromLeBytes ((bytes.drop 6).take 4)
      let headerEnd := prefixLen + headerLen
      if bytes.length < headerEnd then .error "bundle header truncated"
      else .ok ((bytes.drop prefixLen).take headerLen, bytes.drop headerEnd)

/-- The checks on the header alone. -/
def checkHeader (m : KvBundleMeta) : Except String Unit :=
  if m.blockSize = 0 then .error "bundle block_size is zero"
  else if m.tokenCount = 0 ∨ m.tokenCount % m.blockSize ≠ 0 then
    .error s!"bundle token_count {m.tokenCount} not block aligned to {m.blockSize}"
  else if m.tokenIds.length ≠ m.tokenCount then
    .error s!"bundle token_ids len {m.tokenIds.length} != token_count {m.tokenCount}"
  else .ok ()

/-- Everything after the header. -/
def decodePayload (m : KvBundleMeta) (payload : List UInt8) : Prog Unit (KvBundle T) := do
  let numBlocks := m.tokenCount / m.blockSize
  let rows ← checkedMul m.numKvHeads m.blockSize
  let elemsPerTensor ← checkedMul rows m.headDim
  let bytesPerTensor ← checkedMul elemsPerTensor m.dtype.sizeInBytes
  let numTensors ← checkedMul numBlocks m.numLayers
  let numTensors ← checkedMul numTensors 2
  let expectedPayload ← checkedMul numTensors bytesPerTensor
  if payload.length ≠ expectedPayload then
    Prog.fail s!"bundle payload length {payload.length} != expected {expectedPayload}"
  else do
    allocate T 0 numBlocks 32
    let blocks ← decodeBlocks payload bytesPerTensor m.dtype (m.numKvHeads, m.blockSize, m.headDim)
      m.numLayers numBlocks 0 0
    pure { header := m, blocks }

def decode (fromSlice : List UInt8 → Except String KvBundleMeta) (bytes : List UInt8) :
    Prog Unit (KvBundle T) := do
  let (header, payload) ← Prog.ofExcept (decodeFrame bytes)
  let m ← Prog.ofExcept (fromSlice header)
  Prog.ofExcept (checkHeader m)
  decodePayload m payload

end Decode

end KvBundleCodec

/-! ## 2. What decoding returns -/

/-- A bundle whose tensors have the shape and the type its header declares. -/
structure KvBundle.Valid {T : Type} [Candle T] (b : KvBundle T) : Prop where
  blockSize : b.header.blockSize ≠ 0
  tokenCount : b.header.tokenCount ≠ 0
  aligned : b.header.tokenCount % b.header.blockSize = 0
  tokenIds : b.header.tokenIds.length = b.header.tokenCount
  blocks : b.blocks.length = b.header.tokenCount / b.header.blockSize
  layers : ∀ block ∈ b.blocks, block.layers.length = b.header.numLayers
  tensors : ∀ block ∈ b.blocks, ∀ lb ∈ block.layers, ∀ t, t = lb.k ∨ t = lb.v →
    dims t = [b.header.numKvHeads, b.header.blockSize, b.header.headDim] ∧
      dtype t = b.header.dtype.toCandle

namespace KvBundleCodec

theorem checkHeader_ok {m : KvBundleMeta} (h : checkHeader m = .ok ()) :
    m.blockSize ≠ 0 ∧ m.tokenCount ≠ 0 ∧ m.tokenCount % m.blockSize = 0 ∧
      m.tokenIds.length = m.tokenCount := by
  unfold checkHeader at h
  split_ifs at h with h1 h2 h3
  rw [not_or, not_not] at h2
  rw [not_not] at h3
  exact ⟨h1, h2.1, h2.2, h3⟩

theorem checkedMul_eq_ok {a b c : ℕ} (h : checkedMul a b () = some (.ok c, ())) : c = a * b := by
  unfold checkedMul at h
  split_ifs at h
  · exact (Prog.pure_eq_ok.mp h).1.symm
  · cases h

theorem byteSlice_eq_ok {bytes part : List UInt8} {lo hi : ℕ}
    (h : byteSlice bytes lo hi () = some (.ok part, ())) : part.length = hi - lo := by
  unfold byteSlice at h
  split_ifs at h with hr
  · obtain ⟨rfl, -⟩ := Prog.pure_eq_ok.mp h
    rw [List.length_take, List.length_drop]
    omega
  · cases h

section Decoded

variable {T : Type} [Candle T] [LawfulCandle T] {d : BundleDType} {a b c : ℕ}

/-- Bytes of the right length make a tensor. -/
theorem leBytesToTensor_run {bytes : List UInt8} (hlen : bytes.length = a * b * c * d.sizeInBytes) :
    ∃ t : T, leBytesToTensor bytes d (a, b, c) = .ok t ∧ dims t = [a, b, c] ∧
      dtype t = d.toCandle := by
  have hvals : ((chunksExact d.sizeInBytes bytes).map fromLeBytes).length = a * b * c := by
    rw [List.length_map, chunksExact, List.length_map, List.length_range, hlen,
      Nat.mul_div_cancel _ d.sizeInBytes_pos]
  obtain ⟨t, ht, hd, hdt, _⟩ := @LawfulCandle.fromVec_result T _ _ _ a b c d.toCandle hvals
  exact ⟨t, ht, hd, hdt⟩

theorem leBytesToTensor_shape {bytes : List UInt8} (hlen : bytes.length = a * b * c * d.sizeInBytes)
    {t : T} (h : leBytesToTensor bytes d (a, b, c) = .ok t) :
    dims t = [a, b, c] ∧ dtype t = d.toCandle := by
  obtain ⟨t', ht', hshape⟩ := leBytesToTensor_run (T := T) hlen
  rw [ht'] at h
  cases h
  exact hshape

end Decoded

section Parts

variable {T : Type} [Candle T] {dtype : BundleDType} {shape : ℕ × ℕ × ℕ} {bytesPerTensor : ℕ}
  {payload : List UInt8}

/-- A tensor that was read from bytes of the right length. -/
def Read (bytesPerTensor : ℕ) (dtype : BundleDType) (shape : ℕ × ℕ × ℕ) (t : T) : Prop :=
  ∃ part, part.length = bytesPerTensor ∧ leBytesToTensor part dtype shape = .ok t

theorem decodeLayers_ok {n off off' : ℕ} {layers : List (KvLayerBlock T)}
    (h : decodeLayers payload bytesPerTensor dtype shape n off () = some (.ok (layers, off'), ())) :
    layers.length = n ∧ ∀ lb ∈ layers, ∀ t, t = lb.k ∨ t = lb.v →
      Read bytesPerTensor dtype shape t := by
  induction n generalizing off layers off' with
  | zero =>
    obtain ⟨h, -⟩ := Prog.pure_eq_ok.mp h
    cases h
    exact ⟨rfl, fun _ hl => absurd hl List.not_mem_nil⟩
  | succ n ih =>
    simp only [decodeLayers, Prog.bind_eq_ok, Prog.ofExcept_eq_ok] at h
    obtain ⟨kBytes, _, hkb, k, _, ⟨hk, -⟩, vBytes, _, hvb, v, _, ⟨hv, -⟩, ⟨rest, off₁⟩, _, hrest,
      h⟩ := h
    obtain ⟨h, -⟩ := Prog.pure_eq_ok.mp h
    cases h
    obtain ⟨hlen, hall⟩ := ih hrest
    refine ⟨by rw [List.length_cons, hlen], List.forall_mem_cons.mpr ⟨fun t ht => ?_, hall⟩⟩
    have hkl := byteSlice_eq_ok hkb
    have hvl := byteSlice_eq_ok hvb
    rw [Nat.add_sub_cancel_left] at hkl hvl
    rcases ht with rfl | rfl
    · exact ⟨kBytes, hkl, hk⟩
    · exact ⟨vBytes, hvl, hv⟩

theorem decodeBlocks_ok {numLayers n blk off : ℕ} {blocks : List (KvBundleBlock T)}
    (h : decodeBlocks payload bytesPerTensor dtype shape numLayers n blk off () =
      some (.ok blocks, ())) :
    blocks.map KvBundleBlock.logicalBlockIdx = List.range' blk n ∧
      ∀ block ∈ blocks, block.layers.length = numLayers ∧ ∀ lb ∈ block.layers, ∀ t,
        t = lb.k ∨ t = lb.v → Read bytesPerTensor dtype shape t := by
  induction n generalizing blk off blocks with
  | zero =>
    obtain ⟨h, -⟩ := Prog.pure_eq_ok.mp h
    cases h
    exact ⟨rfl, fun _ hl => absurd hl List.not_mem_nil⟩
  | succ n ih =>
    simp only [decodeBlocks, Prog.bind_eq_ok] at h
    obtain ⟨_, _, _, ⟨layers, off₁⟩, _, hlayers, rest, _, hrest, h⟩ := h
    obtain ⟨h, -⟩ := Prog.pure_eq_ok.mp h
    cases h
    obtain ⟨hidx, hall⟩ := ih hrest
    refine ⟨?_, List.forall_mem_cons.mpr ⟨decodeLayers_ok hlayers, hall⟩⟩
    rw [List.map_cons, hidx]
    rfl

/-- A decoded bundle: its header passed the checks, its blocks are numbered, and its tensors were
    read from parts of the payload. -/
theorem decode_ok {fromSlice : List UInt8 → Except String KvBundleMeta} {bytes : List UInt8}
    {bundle : KvBundle T} (h : decode fromSlice bytes () = some (.ok bundle, ())) :
    checkHeader bundle.header = .ok () ∧
      bundle.blocks.map KvBundleBlock.logicalBlockIdx =
        List.range' 0 (bundle.header.tokenCount / bundle.header.blockSize) ∧
      ∀ block ∈ bundle.blocks, block.layers.length = bundle.header.numLayers ∧
        ∀ lb ∈ block.layers, ∀ t, t = lb.k ∨ t = lb.v →
          Read (bundle.header.numKvHeads * bundle.header.blockSize * bundle.header.headDim *
            bundle.header.dtype.sizeInBytes) bundle.header.dtype
            (bundle.header.numKvHeads, bundle.header.blockSize, bundle.header.headDim) t := by
  simp only [decode, Prog.bind_eq_ok, Prog.ofExcept_eq_ok] at h
  obtain ⟨⟨header, payload⟩, _, _, m, _, _, _, _, ⟨hcheck, -⟩, h⟩ := h
  simp only [decodePayload, Prog.bind_eq_ok] at h
  obtain ⟨rows, _, hrows, elems, _, helems, bytesPer, _, hbytes, n₁, _, _, n₂, _, _, n₃, _, _, h⟩ := h
  have hb : bytesPer = m.numKvHeads * m.blockSize * m.headDim * m.dtype.sizeInBytes := by
    rw [checkedMul_eq_ok hbytes, checkedMul_eq_ok helems, checkedMul_eq_ok hrows]
  split_ifs at h
  · cases h
  · simp only [Prog.bind_eq_ok] at h
    obtain ⟨_, _, _, blocks, _, hblocks, h⟩ := h
    obtain ⟨rfl, -⟩ := Prog.pure_eq_ok.mp h
    rw [hb] at hblocks
    exact ⟨hcheck, decodeBlocks_ok hblocks⟩

/-- **A decoded bundle is well formed.** -/
theorem decode_valid [LawfulCandle T] {fromSlice : List UInt8 → Except String KvBundleMeta}
    {bytes : List UInt8} {bundle : KvBundle T}
    (h : decode fromSlice bytes () = some (.ok bundle, ())) : bundle.Valid := by
  obtain ⟨hcheck, hidx, hall⟩ := decode_ok h
  obtain ⟨h1, h2, h3, h4⟩ := checkHeader_ok hcheck
  have hlen := congrArg List.length hidx
  rw [List.length_map, List.length_range'] at hlen
  refine ⟨h1, h2, h3, h4, hlen, fun block hmem => (hall block hmem).1,
    fun block hmem lb hlb t ht => ?_⟩
  obtain ⟨part, hpart, ht⟩ := (hall block hmem).2 lb hlb t ht
  exact leBytesToTensor_shape hpart ht

end Parts

end KvBundleCodec

end Flour.Kv
