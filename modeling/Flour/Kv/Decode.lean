/-
  File:      Flour/Kv/Decode.lean
  Subject:   On which bytes `KvBundleCodec::decode` is safe.

  * `frame` -- the wire format; `decodeFrame_eq_ok` says that the frame checks accept exactly the
    frames of version 1;
  * `SizesFit`, `Allocates`, `Granted` -- what the header has to satisfy so that the products of its
    fields and the capacities of the vectors stay in range, and that the allocator has the memory for
    these. Nothing in the code checks any of them;
  * `wp_decodePayload`, `sizesFit_of_wp` -- what remains after the header checks neither overflows
    nor leaves the payload nor aborts, exactly then;
  * `decode_safe_iff` -- so `decode` is safe on the frames whose header satisfies all three, and on
    all bytes that an earlier check rejects.
-/
import Flour.Kv.Bundle
import Mathlib.Tactic.Ring

namespace Flour.Kv

open Candle Flour.Lib Prog

/-! ## 1. The frame -/

namespace KvBundleCodec

/-- The wire format: magic, version, length of the header, header, payload. -/
def frame (header payload : List UInt8) : List UInt8 :=
  magic ++ (toLeBytes 2 version ++ (toLeBytes 4 header.length ++ (header ++ payload)))

theorem frame_split (header payload : List UInt8) :
    (frame header payload).take 4 = magic ∧
      ((frame header payload).drop 4).take 2 = toLeBytes 2 version ∧
      ((frame header payload).drop 6).take 4 = toLeBytes 4 header.length ∧
      (frame header payload).drop prefixLen = header ++ payload :=
  ⟨rfl, rfl, rfl, rfl⟩

theorem length_frame (header payload : List UInt8) :
    (frame header payload).length = prefixLen + header.length + payload.length := by
  simp only [frame, List.length_append, length_toLeBytes, magic, prefixLen, List.length_cons,
    List.length_nil]
  omega

theorem decodeFrame_frame {header payload : List UInt8} (h : header.length < 2 ^ 32) :
    decodeFrame (frame header payload) = .ok (header, payload) := by
  obtain ⟨hmagic, hversion, hlen, hrest⟩ := frame_split header payload
  have hl := length_frame header payload
  have hv : fromLeBytes (toLeBytes 2 version) = version := fromLeBytes_toLeBytes (by decide)
  have hn : fromLeBytes (toLeBytes 4 header.length) = header.length :=
    fromLeBytes_toLeBytes (by simpa using h)
  have hend : (frame header payload).drop (prefixLen + header.length) = payload := by
    rw [← List.drop_drop, hrest, List.drop_left]
  unfold decodeFrame
  rw [if_neg (by omega), if_neg (by simp [hmagic])]
  simp only [hversion, hv, hlen, hn]
  rw [if_neg (by simp), if_neg (by omega), hrest, hend, List.take_left]

/-- **The frame checks** accept exactly the frames of version 1. -/
theorem decodeFrame_eq_ok {bytes header payload : List UInt8} :
    decodeFrame bytes = .ok (header, payload) ↔
      header.length < 2 ^ 32 ∧ bytes = frame header payload := by
  constructor
  · intro h
    unfold decodeFrame at h
    dsimp only at h
    split_ifs at h with hlen hmagic hversion htrunc
    rw [not_not] at hmagic hversion
    have hlen : 10 ≤ bytes.length := not_lt.mp hlen
    have hbound := fromLeBytes_lt ((bytes.drop 6).take 4)
    have h2 : ((bytes.drop 4).take 2).length = 2 := by
      rw [List.length_take, List.length_drop]
      omega
    have h4 : ((bytes.drop 6).take 4).length = 4 := by
      rw [List.length_take, List.length_drop]
      omega
    rw [h4] at hbound
    set headerLen := fromLeBytes ((bytes.drop 6).take 4) with hdef
    cases h
    have hheader : ((bytes.drop prefixLen).take headerLen).length = headerLen := by
      rw [List.length_take, List.length_drop]
      omega
    refine ⟨by rw [hheader]; omega, ?_⟩
    have hv2 : (bytes.drop 4).take 2 = toLeBytes 2 version := by
      rw [← hversion, toLeBytes_fromLeBytes h2]
    have hl4 : (bytes.drop 6).take 4 = toLeBytes 4 headerLen := by
      rw [hdef, toLeBytes_fromLeBytes h4]
    have hp : bytes.drop (prefixLen + headerLen) = (bytes.drop prefixLen).drop headerLen := by
      rw [List.drop_drop]
    have h6 : (bytes.drop 4).drop 2 = bytes.drop 6 := by rw [List.drop_drop]
    have h10 : (bytes.drop 6).drop 4 = bytes.drop prefixLen := by rw [List.drop_drop]; rfl
    rw [frame, hheader, ← hmagic, ← hv2, ← hl4, hp, List.take_append_drop, ← h10,
      List.take_append_drop, ← h6, List.take_append_drop, List.take_append_drop]
  · rintro ⟨hlen, rfl⟩
    exact decodeFrame_frame hlen

end KvBundleCodec

/-! ## 2. Sizes -/

namespace KvBundleMeta

def numBlocks (m : KvBundleMeta) : ℕ := m.tokenCount / m.blockSize

/-- The number of payload bytes the fields of the header stand for. -/
def payloadLen (m : KvBundleMeta) : ℕ :=
  m.numBlocks * m.numLayers * 2 * m.numKvHeads * m.blockSize * m.headDim * m.dtype.sizeInBytes

def bytesPerTensor (m : KvBundleMeta) : ℕ :=
  m.numKvHeads * m.blockSize * m.headDim * m.dtype.sizeInBytes

theorem payloadLen_eq (m : KvBundleMeta) :
    m.payloadLen = m.numBlocks * m.numLayers * 2 * m.bytesPerTensor := by
  unfold payloadLen bytesPerTensor
  ring

/-- What `decode` checks of the header. -/
structure Consistent (m : KvBundleMeta) : Prop where
  blockSize : m.blockSize ≠ 0
  tokenCount : 0 < m.tokenCount
  aligned : m.tokenCount % m.blockSize = 0
  tokenIds : m.tokenIds.length = m.tokenCount

theorem Consistent.numBlocks_pos {m : KvBundleMeta} (h : m.Consistent) : 0 < m.numBlocks :=
  Nat.div_pos (Nat.le_of_dvd h.tokenCount (Nat.dvd_of_mod_eq_zero h.aligned))
    (Nat.pos_of_ne_zero h.blockSize)

/-- The products of header fields, in the order in which they are computed, are `usize` values. -/
structure SizesFit (m : KvBundleMeta) : Prop where
  rows : m.numKvHeads * m.blockSize ≤ usizeMax
  elems : m.numKvHeads * m.blockSize * m.headDim ≤ usizeMax
  bytes : m.bytesPerTensor ≤ usizeMax
  layers : m.numBlocks * m.numLayers ≤ usizeMax
  tensors : m.numBlocks * m.numLayers * 2 ≤ usizeMax
  payload : m.numBlocks * m.numLayers * 2 * m.bytesPerTensor ≤ usizeMax

/-- The vector of the blocks and the vector of the layers of one block have a capacity that can be
    asked for. -/
structure Allocates (m : KvBundleMeta) : Prop where
  blocks : m.numBlocks * 32 ≤ isizeMax
  layers : m.numLayers * 16 ≤ isizeMax

/-- The allocator has the memory for them: for the vector of the blocks first, and for the layers of
    one block after the other. -/
structure Granted (T : Type) [Candle T] (m : KvBundleMeta) : Prop where
  blocks : Grants T 0 (m.numBlocks * 32)
  layers : ∀ b, b < m.numBlocks → Grants T (b + 1) (m.numLayers * 16)

end KvBundleMeta

namespace KvBundleCodec

theorem checkHeader_eq_ok {m : KvBundleMeta} : checkHeader m = .ok () ↔ m.Consistent := by
  constructor
  · intro h
    obtain ⟨h1, h2, h3, h4⟩ := checkHeader_ok h
    exact ⟨h1, Nat.pos_of_ne_zero h2, h3, h4⟩
  · intro h
    have haligned : ¬ (m.tokenCount = 0 ∨ m.tokenCount % m.blockSize ≠ 0) := fun ha =>
      ha.elim h.tokenCount.ne' fun ha => ha h.aligned
    rw [checkHeader, if_neg h.blockSize, if_neg haligned, if_neg (not_not.mpr h.tokenIds)]

/-! ## 3. Safety -/

section Safe

variable {E : String → Unit → Prop}

theorem wp_checkedMul {a b : ℕ} {Q : ℕ → Unit → Prop} :
    wp (checkedMul a b) Q E () ↔ a * b ≤ usizeMax ∧ Q (a * b) () := by
  unfold checkedMul
  by_cases h : a * b ≤ usizeMax
  · rw [if_pos h, wp_pure]
    exact (and_iff_right h).symm
  · rw [if_neg h, wp_crash]
    exact (iff_false_intro fun hq => h hq.1).symm

theorem wp_withCapacity {n size : ℕ} {Q : Unit → Unit → Prop} :
    wp (withCapacity n size) Q E () ↔ n * size ≤ isizeMax ∧ Q () () := by
  unfold withCapacity
  by_cases h : n * size ≤ isizeMax
  · rw [if_pos h, wp_pure]
    exact (and_iff_right h).symm
  · rw [if_neg h, wp_crash]
    exact (iff_false_intro fun hq => h hq.1).symm

theorem wp_allocate {T : Type} [Candle T] {i n size : ℕ} {Q : Unit → Unit → Prop} :
    wp (allocate T i n size) Q E () ↔
      n * size ≤ isizeMax ∧ Grants T i (n * size) ∧ Q () () := by
  unfold allocate
  rw [wp_bind, wp_withCapacity]
  refine and_congr_right fun _ => ?_
  by_cases h : Grants T i (n * size)
  · rw [if_pos h, wp_pure]
    exact (and_iff_right h).symm
  · rw [if_neg h, wp_crash]
    exact (iff_false_intro fun hq => h hq.1).symm

/-- A slice inside the bytes. -/
theorem byteSlice_run {bytes : List UInt8} {off n : ℕ} (h : off + n ≤ bytes.length) :
    byteSlice bytes off (off + n) () = some (.ok ((bytes.drop off).take n), ()) := by
  unfold byteSlice
  rw [if_pos ⟨Nat.le_add_right _ _, h⟩, Nat.add_sub_cancel_left]
  rfl

variable {T : Type} [Candle T] [LawfulCandle T] {payload : List UInt8} {numLayers x y z : ℕ}
  {dtype : BundleDType}

/-- The layers of one block stay inside the payload: each takes its keys and its values. -/
theorem wp_decodeLayers {n off : ℕ}
    (h : off + n * 2 * (x * y * z * dtype.sizeInBytes) ≤ payload.length) :
    wp (decodeLayers (T := T) payload (x * y * z * dtype.sizeInBytes) dtype (x, y, z) n off)
      (fun r _ => r.2 = off + n * 2 * (x * y * z * dtype.sizeInBytes)) (fun _ _ => False) () := by
  have htensor : ∀ off, off + x * y * z * dtype.sizeInBytes ≤ payload.length →
      ∃ t : T, leBytesToTensor ((payload.drop off).take (x * y * z * dtype.sizeInBytes)) dtype
        (x, y, z) = .ok t ∧ dims t = [x, y, z] ∧ Candle.dtype t = dtype.toCandle :=
    fun off hoff => leBytesToTensor_run (by
      rw [List.length_take, List.length_drop]
      omega)
  generalize x * y * z * dtype.sizeInBytes = bytesPerTensor at *
  induction n generalizing off with
  | zero =>
    show off = off + 0 * 2 * bytesPerTensor
    omega
  | succ n ih =>
    have hsum : (n + 1) * 2 * bytesPerTensor =
        bytesPerTensor + bytesPerTensor + n * 2 * bytesPerTensor := by ring
    obtain ⟨k, hk, -⟩ := htensor off (by omega)
    obtain ⟨v, hv, -⟩ := htensor (off + bytesPerTensor) (by omega)
    rw [decodeLayers, wp_bind, wp_of_ok (byteSlice_run (by omega)), wp_bind, wp_ofExcept, hk]
    dsimp only
    rw [wp_bind, wp_of_ok (byteSlice_run (by omega)), wp_bind, wp_ofExcept, hv]
    dsimp only
    rw [wp_bind]
    refine (ih (by omega)).mono (fun r _ hr => ?_) fun _ _ h => h
    rw [wp_pure, hr]
    omega

/-- **The blocks** end where the payload ends, and run to their end exactly if the layers of each get
    their memory. -/
theorem wp_decodeBlocks_iff {n b off : ℕ}
    (h : off + n * numLayers * 2 * (x * y * z * dtype.sizeInBytes) ≤ payload.length)
    {Q : List (KvBundleBlock T) → Unit → Prop} (hQ : ∀ blocks, Q blocks ()) :
    wp (decodeBlocks payload (x * y * z * dtype.sizeInBytes) dtype (x, y, z) numLayers n b off) Q E
        () ↔
      ∀ i, i < n → numLayers * 16 ≤ isizeMax ∧ Grants T (b + i + 1) (numLayers * 16) := by
  induction n generalizing b off Q with
  | zero => exact iff_of_true (hQ []) fun i hi => absurd hi (Nat.not_lt_zero i)
  | succ n ih =>
    have hsum : (n + 1) * numLayers * 2 * (x * y * z * dtype.sizeInBytes) =
        numLayers * 2 * (x * y * z * dtype.sizeInBytes) +
          n * numLayers * 2 * (x * y * z * dtype.sizeInBytes) := by ring
    obtain ⟨⟨layers, off'⟩, _, hrun, hoff⟩ := (@wp_decodeLayers T _ _ payload x y z dtype numLayers
      off (by omega)).returns
    obtain rfl : off' = off + numLayers * 2 * (x * y * z * dtype.sizeInBytes) := hoff
    rw [decodeBlocks, wp_bind, wp_allocate, wp_bind, wp_of_ok hrun, wp_bind,
      @ih (b + 1) (off + numLayers * 2 * (x * y * z * dtype.sizeInBytes)) (by omega)
        (fun blocks s => wp (pure (⟨b, layers⟩ :: blocks)) Q E s) fun _ => hQ _]
    constructor
    · rintro ⟨hcap, hgrant, hrest⟩ i hi
      cases i with
      | zero => exact ⟨hcap, hgrant⟩
      | succ i =>
        have hlater := hrest i (by omega)
        rwa [Nat.add_right_comm b 1 i, Nat.add_assoc b i 1] at hlater
    · intro hall
      refine ⟨(hall 0 n.succ_pos).1, (hall 0 n.succ_pos).2, fun i hi => ?_⟩
      have hlater := hall (i + 1) (by omega)
      rwa [← Nat.add_assoc b i 1, Nat.add_right_comm b i 1] at hlater

/-- What follows the header checks does not panic where the sizes fit and the memory is there, and a
    bundle comes out only of a payload of the declared length. -/
theorem wp_decodePayload {m : KvBundleMeta} (hfit : m.SizesFit)
    (hcap : payload.length = m.payloadLen → m.Allocates ∧ m.Granted T) :
    wp (decodePayload (T := T) m payload)
      (fun bundle _ => bundle.header = m ∧ payload.length = m.payloadLen) (fun _ _ => True) () := by
  have hlen := m.payloadLen_eq
  unfold decodePayload
  simp only [wp_bind, wp_checkedMul]
  refine ⟨hfit.rows, hfit.elems, hfit.bytes, hfit.layers, hfit.tensors, hfit.payload,
    wp_guard (fun _ => trivial) fun hp => ?_⟩
  have hp : payload.length = m.payloadLen := (not_not.mp hp).trans hlen.symm
  obtain ⟨hcap, hgrant⟩ := hcap hp
  rw [wp_bind, wp_allocate, wp_bind]
  refine ⟨hcap.blocks, hgrant.blocks, (wp_decodeBlocks_iff ?_ fun _ => ⟨rfl, hp⟩).mpr fun i hi => ?_⟩
  · rw [Nat.zero_add, hp, hlen]
    exact le_refl _
  · rw [Nat.zero_add]
    exact ⟨hcap.layers, hgrant.layers i hi⟩

/-- Where it does not panic, the sizes fit, and the memory was there. -/
theorem sizesFit_of_wp {m : KvBundleMeta} (hm : m.Consistent)
    (h : wp (decodePayload (T := T) m payload) (fun _ _ => True) E ()) :
    m.SizesFit ∧ (payload.length = m.payloadLen → m.Allocates ∧ m.Granted T) := by
  unfold decodePayload at h
  simp only [wp_bind, wp_checkedMul] at h
  obtain ⟨h1, h2, h3, h4, h5, h6, hrest⟩ := h
  refine ⟨⟨h1, h2, h3, h4, h5, h6⟩, fun hp => ?_⟩
  have hp' : ¬ payload.length ≠ m.tokenCount / m.blockSize * m.numLayers * 2 *
      (m.numKvHeads * m.blockSize * m.headDim * m.dtype.sizeInBytes) :=
    not_not.mpr (hp.trans m.payloadLen_eq)
  rw [if_neg hp', wp_bind, wp_allocate, wp_bind] at hrest
  obtain ⟨hcap, hgrant, hblocks⟩ := hrest
  have hall := (wp_decodeBlocks_iff (by rw [Nat.zero_add]; exact (not_not.mp hp').ge)
    fun _ => trivial).mp hblocks
  refine ⟨⟨hcap, (hall 0 hm.numBlocks_pos).1⟩, hgrant, fun b hb => ?_⟩
  have hone := (hall b hb).2
  rwa [Nat.zero_add] at hone

end Safe

/-- What `decode` may accept: a frame of version 1 whose header is consistent, with the payload the
    header declares, its length computed without bounds. -/
def Accepted (fromSlice : List UInt8 → Except String KvBundleMeta) (bytes : List UInt8)
    (m : KvBundleMeta) : Prop :=
  ∃ header payload, header.length < 2 ^ 32 ∧ bytes = frame header payload ∧
    fromSlice header = .ok m ∧ m.Consistent ∧ payload.length = m.payloadLen

/-- The bytes are not a frame with a consistent header, or the sizes that header declares fit, and
    where the payload has the declared length so do the capacities of the vectors, for which the
    allocator has the memory. -/
def Decodable (T : Type) [Candle T] (fromSlice : List UInt8 → Except String KvBundleMeta)
    (bytes : List UInt8) : Prop :=
  ∀ header payload m, header.length < 2 ^ 32 → bytes = frame header payload →
    fromSlice header = .ok m → m.Consistent →
      m.SizesFit ∧ (payload.length = m.payloadLen → m.Allocates ∧ m.Granted T)

section Theorem

variable {T : Type} [Candle T] {fromSlice : List UInt8 → Except String KvBundleMeta}

/-- A frame, decoded. -/
theorem decode_frame {header payload : List UInt8} {m : KvBundleMeta}
    (hlen : header.length < 2 ^ 32) (hjson : fromSlice header = .ok m) (hm : m.Consistent) :
    decode (T := T) fromSlice (frame header payload) = decodePayload m payload := by
  unfold decode
  rw [decodeFrame_frame hlen]
  show (Prog.ofExcept (fromSlice header) >>= fun m =>
    Prog.ofExcept (checkHeader m) >>= fun _ => decodePayload m payload) = _
  rw [hjson]
  show (Prog.ofExcept (checkHeader m) >>= fun _ => decodePayload m payload) = _
  rw [checkHeader_eq_ok.mpr hm]
  rfl

variable [LawfulCandle T]

/-- What decoding returns came out of a frame it may accept, with sizes that fit and memory for
    them. -/
theorem decode_accepted {bytes : List UInt8} {bundle : KvBundle T}
    (h : decode fromSlice bytes () = some (.ok bundle, ())) :
    Accepted fromSlice bytes bundle.header ∧ bundle.header.SizesFit ∧ bundle.header.Allocates ∧
      bundle.header.Granted T := by
  simp only [decode, Prog.bind_eq_ok, Prog.ofExcept_eq_ok] at h
  obtain ⟨⟨header, payload⟩, _, ⟨hframe, -⟩, m, _, ⟨hjson, -⟩, _, _, ⟨hcheck, -⟩, h⟩ := h
  have hm := checkHeader_eq_ok.mp hcheck
  obtain ⟨hlen, hbytes⟩ := decodeFrame_eq_ok.mp hframe
  obtain ⟨hfit, hcap⟩ := sizesFit_of_wp hm ((wp_of_ok (Q := fun _ _ => True)
    (E := fun _ _ => True) h).mpr trivial)
  obtain ⟨rfl, hp⟩ := (wp_decodePayload hfit hcap).of_ok h
  exact ⟨⟨header, payload, hlen, hbytes, hjson, hm, hp⟩, hfit, hcap hp⟩

/-- **`decode` is safe** -- no panic, no abort, and a bundle only out of what it may accept -- on
    exactly the bytes whose header, where there is one, has sizes that fit and that the allocator has
    memory for. -/
theorem decode_safe_iff (bytes : List UInt8) :
    wp (decode (T := T) fromSlice bytes) (fun bundle _ => Accepted fromSlice bytes bundle.header)
      (fun _ _ => True) () ↔ Decodable T fromSlice bytes := by
  constructor
  · rintro h header payload m hlen rfl hjson hm
    rw [decode_frame hlen hjson hm] at h
    exact sizesFit_of_wp hm (h.mono (fun _ _ _ => trivial) fun _ _ hE => hE)
  · intro h
    unfold decode
    rw [wp_bind, wp_ofExcept]
    split
    · rename_i parts hframe
      obtain ⟨header, payload⟩ := parts
      obtain ⟨hlen, hbytes⟩ := decodeFrame_eq_ok.mp hframe
      rw [wp_bind, wp_ofExcept]
      split
      · rename_i m hjson
        rw [wp_bind, wp_ofExcept]
        split
        · rename_i hcheck
          have hm := checkHeader_eq_ok.mp hcheck
          obtain ⟨hfit, hcap⟩ := h header payload m hlen hbytes hjson hm
          refine (wp_decodePayload hfit hcap).mono (fun bundle _ hb => ?_) fun _ _ h => h
          exact ⟨header, payload, hlen, hbytes, hb.1 ▸ hjson, hb.1 ▸ hm, hb.1 ▸ hb.2⟩
        · trivial
      · trivial
    · trivial

end Theorem

/-! ## 4. A header of empty tensors -/

/-- A header of one token and `2 ^ 60` layers, whose tensors have no elements. -/
def hollowMeta : KvBundleMeta :=
  { modelId := "m", tokenCount := 1, tokenIds := [0], blockSize := 1, numLayers := 2 ^ 60,
    numKvHeads := 0, headDim := 0, dtype := .f32 }

/-- With one layer, it is decoded. -/
theorem decode_safe_hollow : wp (decode (T := Dense) (fun _ => .ok { hollowMeta with numLayers := 1 })
    (frame [] [])) (fun bundle _ => Accepted (fun _ => .ok { hollowMeta with numLayers := 1 })
      (frame [] []) bundle.header) (fun _ _ => True) () := by
  refine (decode_safe_iff (frame [] [])).mpr fun header payload m _ _ hjson _ => ?_
  cases hjson
  exact ⟨⟨by decide, by decide, by decide, by decide, by decide, by decide⟩,
    fun _ => ⟨⟨by decide, by decide⟩, by decide, by decide⟩⟩

/-- With `2 ^ 40` layers the capacities are in range, but the layers of the first block alone are
    `2 ^ 44` bytes. -/
example : decodePayload (T := Dense) { hollowMeta with numLayers := 2 ^ 40 } [] () = none := by
  decide +kernel

/-- The JSON text of `hollowMeta`. -/
def hollowHeader : List UInt8 :=
  ("\x7b\"model_id\":\"m\",\"token_count\":1,\"token_ids\":[0],\"block_size\":1," ++
    "\"num_layers\":1152921504606846976,\"num_kv_heads\":0,\"head_dim\":0,\"dtype\":\"F32\"\x7d").toList.map
      fun c => UInt8.ofNat c.toNat

/-- A header decoder that knows this text. -/
def hollowSlice (bytes : List UInt8) : Except String KvBundleMeta :=
  if bytes = hollowHeader then .ok hollowMeta else .error "expected value"

/-- The frame of `hollowMeta` passes every check, its empty payload included, and then the capacity
    of the layers of the first block overflows. -/
theorem decode_panics : ¬ ∀ bytes : List UInt8, decode (T := Dense) hollowSlice bytes () ≠ none := by
  intro h
  have hlen : hollowHeader.length < 2 ^ 32 := by decide +kernel
  have hm : hollowMeta.Consistent := ⟨by decide, by decide, by decide, by decide⟩
  have hjson : hollowSlice hollowHeader = .ok hollowMeta := by
    unfold hollowSlice
    rw [if_pos rfl]
  have hrun := h (frame hollowHeader [])
  rw [decode_frame hlen hjson hm] at hrun
  have hcap := (sizesFit_of_wp hm ((wlp_trivial _).resolve_left hrun)).2 (by decide)
  exact absurd hcap.1.layers (by decide)

end KvBundleCodec

end Flour.Kv
