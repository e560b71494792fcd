/-
  File:      Flour/Kv/Encode.lean
  Subject:   `KvBundleCodec::encode`, and that `decode` undoes it.

  * `HostCandle` -- copying a tensor to the host, which `encode` needs and the cache does not;
  * `encode` -- the writer, block by block and layer by layer, keys before values;
  * `Recoded` -- the tensor that is read back from the bytes of another. Writer and reader run over
    the same layers and blocks, so both loops are followed by one induction each
    (`decodeLayers_encodeLayers`, `decodeBlocks_encodeBlocks`);
  * `decode_encode` -- the round trip: from a well-formed bundle to bytes and back, and from bytes
    that decode to a bundle, to bytes and back.
-/
import Flour.Kv.Decode
import Flour.Lib.Except
import Mathlib.Data.List.Forall2

namespace Flour.Kv

open Candle Flour.Lib Prog

/-! ## 1. Tensors on the host -/

/-- Copying a tensor to the host. -/
class HostCandle (T : Type) [Candle T] where
  flattenAll : T → Except String T
  /-- `to_vec1` at an element type: the elements as bit patterns. -/
  toVec1 : T → DType → Except String (List ℕ)

open HostCandle

/-- The elements of a tensor of rank 3 are copied in row-major order. -/
class LawfulHostCandle (T : Type) [Candle T] [HostCandle T] : Prop where
  toVec1_flattenAll {t : T} {a b c : ℕ} (h : dims t = [a, b, c]) :
    ∃ vals, (flattenAll t >>= fun u => toVec1 u (dtype t)) = .ok vals ∧
      vals.length = a * b * c ∧
      ∀ i j k, i < a → j < b → k < c → vals[(i * b + j) * c + k]? = some (elem t [i, j, k])

/-- Every position of a row-major list is that of a multi-index. -/
theorem exists_rowMajor {a b c n : ℕ} (h : n < a * b * c) :
    ∃ i j k, i < a ∧ j < b ∧ k < c ∧ (i * b + j) * c + k = n := by
  have hc : 0 < c := Nat.pos_of_ne_zero fun h0 => by simp [h0] at h
  have hab : n / c < a * b := Nat.div_lt_of_lt_mul (by rwa [Nat.mul_comm] at h)
  have hb : 0 < b := Nat.pos_of_ne_zero fun h0 => by simp [h0] at hab
  have hi : n / c / b < a := Nat.div_lt_of_lt_mul (by rwa [Nat.mul_comm] at hab)
  refine ⟨n / c / b, n / c % b, n % c, hi, Nat.mod_lt _ hb, Nat.mod_lt _ hc, ?_⟩
  rw [Nat.div_add_mod' (n / c) b, Nat.div_add_mod' n c]

/-- Two lists of the elements of a tensor of rank 3 are the same. -/
theorem rowMajor_ext {vals vals' : List ℕ} {a b c : ℕ} (hlen : vals.length = a * b * c)
    (hlen' : vals'.length = a * b * c)
    (h : ∀ i j k, i < a → j < b → k < c →
      vals[(i * b + j) * c + k]? = vals'[(i * b + j) * c + k]?) : vals = vals' := by
  refine List.ext_getElem? fun n => ?_
  by_cases hn : n < a * b * c
  · obtain ⟨i, j, k, hi, hj, hk, rfl⟩ := exists_rowMajor hn
    exact h i j k hi hj hk
  · rw [List.getElem?_eq_none (by omega), List.getElem?_eq_none (by omega)]

namespace Dense

/-- The multi-index at a position of the row-major order. -/
def multiIndex : List ℕ → ℕ → List ℕ
  | [], _ => []
  | _ :: ds, n => n / ds.prod :: multiIndex ds (n % ds.prod)

theorem multiIndex_rowMajor {a b c i j k : ℕ} (hj : j < b) (hk : k < c) :
    multiIndex [a, b, c] ((i * b + j) * c + k) = [i, j, k] := by
  have hlt : j * c + k < b * c :=
    calc j * c + k < (j + 1) * c := by rw [Nat.succ_mul]; omega
      _ ≤ b * c := Nat.mul_le_mul_right c hj
  have hn : (i * b + j) * c + k = j * c + k + i * (b * c) := by ring
  have hc : k + j * c = j * c + k := Nat.add_comm _ _
  simp only [multiIndex, List.prod_cons, List.prod_nil, Nat.mul_one, Nat.div_one]
  rw [hn, Nat.add_mul_div_right _ _ (by omega), Nat.div_eq_of_lt hlt, Nat.zero_add,
    Nat.add_mul_mod_self_right, Nat.mod_eq_of_lt hlt, ← hc, Nat.add_mul_div_right _ _ (by omega),
    Nat.div_eq_of_lt hk, Nat.zero_add, Nat.add_mul_mod_self_right, Nat.mod_eq_of_lt hk]

instance : HostCandle Dense where
  flattenAll t :=
    .ok ⟨[t.dims.prod], t.dtype, true, fun idx => t.elem (multiIndex t.dims (idx.headD 0))⟩
  toVec1 t dt :=
    if t.dtype ≠ dt then .error "unexpected dtype"
    else match t.dims with
      | [n] => .ok ((List.range n).map fun i => t.elem [i])
      | ds => .error s!"unexpected rank, expected: 1, got: {ds.length}"

instance : LawfulHostCandle Dense where
  toVec1_flattenAll {t a b c} h := by
    have h : t.dims = [a, b, c] := h
    have hprod : [a, b, c].prod = a * b * c := by simp [Nat.mul_assoc]
    refine ⟨(List.range (a * b * c)).map fun n => t.elem (multiIndex [a, b, c] n), ?_,
      by rw [List.length_map, List.length_range], fun i j k hi hj hk => ?_⟩
    · rw [← hprod, ← h]
      show (if t.dtype ≠ t.dtype then _ else _) = _
      rw [if_neg (not_not.mpr rfl)]
      rfl
    · have hlt : (i * b + j) * c + k < a * b * c :=
        calc (i * b + j) * c + k < (i * b + j + 1) * c := by rw [Nat.succ_mul]; omega
          _ ≤ (i + 1) * b * c := Nat.mul_le_mul_right c (by rw [Nat.succ_mul]; omega)
          _ ≤ a * b * c := Nat.mul_le_mul_right c (Nat.mul_le_mul_right b hi)
      rw [List.getElem?_map, List.getElem?_range hlt, Option.map_some, multiIndex_rowMajor hj hk]
      rfl

end Dense

/-! ## 2. Encoding -/

namespace KvBundleCodec

section Encode

variable {T : Type} [Candle T] [HostCandle T]

def tensorToLeBytes (t : T) (dtype : BundleDType) : Except String (List UInt8) := do
  let t ← flattenAll t
  let vals ← toVec1 t dtype.toCandle
  pure (vals.flatMap (toLeBytes dtype.sizeInBytes))

/-- The bytes of the layers of one block. -/
def encodeLayers (dtype : BundleDType) : List (KvLayerBlock T) → Except String (List UInt8)
  | [] => .ok []
  | layer :: layers => do
    let k ← tensorToLeBytes layer.k dtype
    let v ← tensorToLeBytes layer.v dtype
    let rest ← encodeLayers dtype layers
    pure (k ++ (v ++ rest))

def encodeBlocks (numLayers : ℕ) (dtype : BundleDType) :
    List (KvBundleBlock T) → Except String (List UInt8)
  | [] => .ok []
  | block :: blocks =>
    if block.layers.length ≠ numLayers then
      .error s!"block {block.logicalBlockIdx} has {block.layers.length} layers, expected {numLayers}"
    else do
      let part ← encodeLayers dtype block.layers
      let rest ← encodeBlocks numLayers dtype blocks
      pure (part ++ rest)

/-- `toVec` is the JSON encoder of the header. Its length is cast to 32 bits. -/
def encode (toVec : KvBundleMeta → Except String (List UInt8)) (bundle : KvBundle T) :
    Prog Unit (List UInt8) :=
  let m := bundle.header
  let numBlocks := m.tokenCount / max m.blockSize 1
  if m.blockSize = 0 ∨ m.tokenCount % m.blockSize ≠ 0 then
    Prog.fail s!"bundle token_count {m.tokenCount} not block aligned"
  else if bundle.blocks.length ≠ numBlocks then
    Prog.fail s!"bundle has {bundle.blocks.length} blocks, expected {numBlocks}"
  else do
    let header ← Prog.ofExcept (toVec m)
    withCapacity (4 + 2 + 4 + header.length) 1
    let payload ← Prog.ofExcept (encodeBlocks m.numLayers m.dtype bundle.blocks)
    pure (magic ++ (toLeBytes 2 version ++
      (toLeBytes 4 (header.length % 2 ^ 32) ++ (header ++ payload))))

end Encode

/-! ## 3. One tensor -/

section Tensor

variable {T : Type} [Candle T] [HostCandle T] {d : BundleDType} {a b c : ℕ}

/-- `t'` is read from the bytes that are written for `t`. -/
def Recoded (d : BundleDType) (a b c : ℕ) (t t' : T) : Prop :=
  ∃ part, tensorToLeBytes t d = .ok part ∧ part.length = a * b * c * d.sizeInBytes ∧
    leBytesToTensor part d (a, b, c) = .ok t'

/-- The bytes of a tensor are those of its elements, in row-major order. -/
theorem tensorToLeBytes_eq [LawfulHostCandle T] {t : T} (hd : dims t = [a, b, c])
    (hdt : dtype t = d.toCandle) :
    ∃ vals : List ℕ, tensorToLeBytes t d = .ok (vals.flatMap (toLeBytes d.sizeInBytes)) ∧
      vals.length = a * b * c ∧
      ∀ i j k, i < a → j < b → k < c → vals[(i * b + j) * c + k]? = some (elem t [i, j, k]) := by
  obtain ⟨vals, hvals, hlen, helem⟩ := LawfulHostCandle.toVec1_flattenAll hd
  refine ⟨vals, ?_, hlen, helem⟩
  obtain ⟨u, hu, hv⟩ := bind_eq_ok.mp hvals
  rw [hdt] at hv
  unfold tensorToLeBytes
  rw [hu]
  show (toVec1 u d.toCandle >>= _) = _
  rw [hv]
  rfl

omit [HostCandle T] in
theorem leBytesToTensor_flatMap {vals : List ℕ} (hvals : ∀ v ∈ vals, v < 256 ^ d.sizeInBytes) :
    leBytesToTensor (T := T) (vals.flatMap (toLeBytes d.sizeInBytes)) d (a, b, c) =
      fromVec vals [a, b, c] d.toCandle := by
  unfold leBytesToTensor
  rw [chunksExact_flatMap d.sizeInBytes_pos, List.map_map]
  congr 1
  exact List.map_congr_left (fun v hv => fromLeBytes_toLeBytes (hvals v hv)) |>.trans
    (List.map_id _)

theorem length_flatMap_toLeBytes (size : ℕ) (vals : List ℕ) :
    (vals.flatMap (toLeBytes size)).length = vals.length * size := by
  induction vals with
  | nil => simp
  | cons v vals ih =>
    rw [List.flatMap_cons, List.length_append, length_toLeBytes, ih, List.length_cons]
    ring

variable [LawfulHostCandle T] [LawfulCandle T]

/-- A tensor is written and read back with the same elements. -/
theorem exists_recoded {t : T} (hd : dims t = [a, b, c]) (hdt : dtype t = d.toCandle)
    (hbits : ∀ i j k, i < a → j < b → k < c → elem t [i, j, k] < 256 ^ d.sizeInBytes) :
    ∃ t', Recoded d a b c t t' ∧ dims t' = [a, b, c] ∧ dtype t' = d.toCandle ∧
      ∀ i j k, i < a → j < b → k < c → elem t' [i, j, k] = elem t [i, j, k] := by
  obtain ⟨vals, hbytes, hlen, helem⟩ := tensorToLeBytes_eq hd hdt
  have hvals : ∀ v ∈ vals, v < 256 ^ d.sizeInBytes := by
    intro v hv
    obtain ⟨n, hn, rfl⟩ := List.getElem_of_mem hv
    obtain ⟨i, j, k, hi, hj, hk, rfl⟩ := exists_rowMajor (hlen ▸ hn)
    have helem := helem i j k hi hj hk
    rw [List.getElem?_eq_getElem hn, Option.some_inj] at helem
    exact helem ▸ hbits i j k hi hj hk
  obtain ⟨t', ht', hd', hdt', helem'⟩ := @LawfulCandle.fromVec_result T _ _ vals a b c d.toCandle hlen
  refine ⟨t', ⟨_, hbytes, ?_, ?_⟩, hd', hdt', fun i j k hi hj hk => ?_⟩
  · rw [length_flatMap_toLeBytes, hlen]
  · rw [leBytesToTensor_flatMap hvals, ht']
  · exact Option.some.inj ((helem' i j k hi hj hk).symm.trans (helem i j k hi hj hk))

/-- A tensor that was read is written to the bytes it was read from. -/
theorem Read.recoded {t : T} (h : Read (a * b * c * d.sizeInBytes) d (a, b, c) t) :
    Recoded d a b c t t ∧
      ∀ i j k, i < a → j < b → k < c → elem t [i, j, k] < 256 ^ d.sizeInBytes := by
  obtain ⟨part, hlen, hread⟩ := h
  obtain ⟨hback, hlt⟩ := flatMap_chunksExact d.sizeInBytes_pos hlen
  set vals := (chunksExact d.sizeInBytes part).map fromLeBytes with hdef
  have hvals : vals.length = a * b * c := by
    have h := congrArg List.length hback
    rw [length_flatMap_toLeBytes, hlen] at h
    exact Nat.eq_of_mul_eq_mul_right d.sizeInBytes_pos h
  obtain ⟨t', ht', hd, hdt, helem⟩ := @LawfulCandle.fromVec_result T _ _ vals a b c d.toCandle hvals
  have ht : fromVec vals [a, b, c] d.toCandle = .ok t := hread
  rw [ht] at ht'
  cases ht'
  obtain ⟨vals', hbytes, hlen', helem'⟩ := tensorToLeBytes_eq hd hdt
  have hsame : vals' = vals := rowMajor_ext hlen' hvals fun i j k hi hj hk => by
    rw [helem i j k hi hj hk, helem' i j k hi hj hk]
  refine ⟨⟨part, by rw [hbytes, hsame, hback], hlen, hread⟩, fun i j k hi hj hk => ?_⟩
  exact hlt _ (List.mem_of_getElem? (helem i j k hi hj hk))

end Tensor

/-! ## 4. The loops -/

section Loops

variable {T : Type} [Candle T] [HostCandle T] {d : BundleDType} {a b c : ℕ}

def RecodedLayer (d : BundleDType) (a b c : ℕ) (lb lb' : KvLayerBlock T) : Prop :=
  Recoded d a b c lb.k lb'.k ∧ Recoded d a b c lb.v lb'.v

def RecodedBlock (d : BundleDType) (a b c : ℕ) (block block' : KvBundleBlock T) : Prop :=
  block'.logicalBlockIdx = block.logicalBlockIdx ∧
    List.Forall₂ (RecodedLayer d a b c) block.layers block'.layers

theorem withCapacity_run {n size : ℕ} (h : n * size ≤ isizeMax) :
    withCapacity n size () = some (.ok (), ()) := by
  unfold withCapacity
  rw [if_pos h]
  rfl

theorem allocate_run {T : Type} [Candle T] {i n size : ℕ} (h : n * size ≤ isizeMax)
    (hgrant : Grants T i (n * size)) : allocate T i n size () = some (.ok (), ()) := by
  unfold allocate
  rw [Prog.bind_eq_ok]
  refine ⟨(), (), withCapacity_run h, ?_⟩
  rw [if_pos hgrant]
  rfl

theorem checkedMul_run {a b : ℕ} (h : a * b ≤ usizeMax) :
    checkedMul a b () = some (.ok (a * b), ()) := by
  unfold checkedMul
  rw [if_pos h]
  rfl

/-- A choice for each element of a list, with two properties. -/
theorem exists_forall₂ {α : Type} {R S : α → α → Prop} {l : List α}
    (h : ∀ x ∈ l, ∃ y, R x y ∧ S x y) : ∃ l', List.Forall₂ R l l' ∧ List.Forall₂ S l l' := by
  induction l with
  | nil => exact ⟨[], .nil, .nil⟩
  | cons x l ih =>
    obtain ⟨⟨y, hR, hS⟩, hl⟩ := List.forall_mem_cons.mp h
    obtain ⟨l', hR', hS'⟩ := ih hl
    exact ⟨y :: l', .cons hR hR', .cons hS hS'⟩

/-- A slice of a part that stands in the payload. -/
theorem byteSlice_middle {before part after : List UInt8} {n : ℕ} (h : part.length = n) :
    byteSlice (before ++ (part ++ after)) before.length (before.length + n) () =
      some (.ok part, ()) := by
  have hle : before.length + n ≤ (before ++ (part ++ after)).length := by
    rw [List.length_append, List.length_append, h]
    omega
  rw [byteSlice_run hle, List.drop_left, ← h, List.take_left]

/-- The reader's loop over the layers of a block, on what the writer's loop wrote. -/
theorem decodeLayers_encodeLayers {layers layers' : List (KvLayerBlock T)}
    (h : List.Forall₂ (RecodedLayer d a b c) layers layers') :
    ∃ part, encodeLayers d layers = .ok part ∧
      part.length = layers.length * 2 * (a * b * c * d.sizeInBytes) ∧
      ∀ before after : List UInt8,
        decodeLayers (before ++ (part ++ after)) (a * b * c * d.sizeInBytes) d (a, b, c)
            layers.length before.length () =
          some (.ok (layers', before.length + part.length), ()) := by
  induction h with
  | nil => exact ⟨[], rfl, by simp only [List.length_nil, Nat.zero_mul], fun _ _ => rfl⟩
  | @cons lb lb' layers layers' hlb _ ih =>
    obtain ⟨⟨kBytes, hk, hkl, hk'⟩, vBytes, hv, hvl, hv'⟩ := hlb
    obtain ⟨rest, hrest, hrl, hdec⟩ := ih
    refine ⟨kBytes ++ (vBytes ++ rest), ?_, ?_, fun before after => ?_⟩
    · rw [encodeLayers, hk, hv, hrest]
      rfl
    · rw [List.length_append, List.length_append, hkl, hvl, hrl, List.length_cons]
      ring
    · have hpk : before ++ (kBytes ++ (vBytes ++ rest) ++ after) =
          before ++ (kBytes ++ (vBytes ++ (rest ++ after))) := by simp only [List.append_assoc]
      have hpv : before ++ (kBytes ++ (vBytes ++ rest) ++ after) =
          (before ++ kBytes) ++ (vBytes ++ (rest ++ after)) := by simp only [List.append_assoc]
      have hpr : before ++ (kBytes ++ (vBytes ++ rest) ++ after) =
          (before ++ kBytes ++ vBytes) ++ (rest ++ after) := by simp only [List.append_assoc]
      have hov : before.length + a * b * c * d.sizeInBytes = (before ++ kBytes).length := by
        rw [List.length_append, hkl]
      have hor : (before ++ kBytes).length + a * b * c * d.sizeInBytes =
          (before ++ kBytes ++ vBytes).length := by
        rw [← hvl, ← List.length_append]
      rw [List.length_cons, decodeLayers, Prog.bind_eq_ok]
      refine ⟨kBytes, (), by rw [hpk]; exact byteSlice_middle hkl, ?_⟩
      rw [Prog.bind_eq_ok]
      refine ⟨lb'.k, (), Prog.ofExcept_eq_ok.mpr ⟨hk', rfl⟩, ?_⟩
      rw [Prog.bind_eq_ok]
      refine ⟨vBytes, (), by rw [hov, hpv]; exact byteSlice_middle hvl, ?_⟩
      rw [Prog.bind_eq_ok]
      refine ⟨lb'.v, (), Prog.ofExcept_eq_ok.mpr ⟨hv', rfl⟩, ?_⟩
      rw [Prog.bind_eq_ok, hov, hor, hpr]
      refine ⟨_, (), hdec _ _, Prog.pure_eq_ok.mpr ⟨?_, rfl⟩⟩
      simp only [List.length_append, Nat.add_assoc]

/-- The reader's loop over the blocks, on what the writer's loop wrote. -/
theorem decodeBlocks_encodeBlocks {numLayers first : ℕ} {blocks blocks' : List (KvBundleBlock T)}
    (h : List.Forall₂ (RecodedBlock d a b c) blocks blocks')
    (hlayers : ∀ block ∈ blocks, block.layers.length = numLayers)
    (hnumbered : blocks.map KvBundleBlock.logicalBlockIdx = List.range' first blocks.length)
    (hcap : numLayers * 16 ≤ isizeMax) :
    ∃ part, encodeBlocks numLayers d blocks = .ok part ∧
      part.length = blocks.length * numLayers * 2 * (a * b * c * d.sizeInBytes) ∧
      ∀ before after : List UInt8,
        (∀ i, i < blocks.length → Grants T (first + i + 1) (numLayers * 16)) →
        decodeBlocks (before ++ (part ++ after)) (a * b * c * d.sizeInBytes) d (a, b, c) numLayers
            blocks.length first before.length () = some (.ok blocks', ()) := by
  induction h generalizing first with
  | nil => exact ⟨[], rfl, by simp only [List.length_nil, Nat.zero_mul], fun _ _ _ => rfl⟩
  | @cons block block' blocks blocks' hblock _ ih =>
    obtain ⟨hlen, hlens⟩ := List.forall_mem_cons.mp hlayers
    obtain ⟨hidx, hidxs⟩ := List.cons_eq_cons.mp hnumbered
    obtain ⟨part, hpart, hpl, hdec⟩ := decodeLayers_encodeLayers hblock.2
    obtain ⟨rest, hrest, hrl, hdecs⟩ := ih hlens hidxs
    rw [hlen] at hpl hdec
    refine ⟨part ++ rest, ?_, ?_, fun before after hgrant => ?_⟩
    · rw [encodeBlocks, if_neg (not_not.mpr hlen), hpart, hrest]
      rfl
    · rw [List.length_append, hpl, hrl, List.length_cons]
      ring
    · have hpb : before ++ (part ++ rest ++ after) = before ++ (part ++ (rest ++ after)) := by
        simp only [List.append_assoc]
      have hpr : before ++ (part ++ (rest ++ after)) = (before ++ part) ++ (rest ++ after) := by
        simp only [List.append_assoc]
      rw [List.length_cons, decodeBlocks, Prog.bind_eq_ok]
      refine ⟨(), (), allocate_run hcap (hgrant 0 (Nat.zero_lt_succ _)), ?_⟩
      rw [hpb, Prog.bind_eq_ok]
      refine ⟨_, (), hdec _ _, ?_⟩
      rw [hpr, ← List.length_append, Prog.bind_eq_ok]
      refine ⟨blocks', (), hdecs _ _ fun i hi => ?_, Prog.pure_eq_ok.mpr ⟨?_, rfl⟩⟩
      · have hlater := hgrant (i + 1) (Nat.succ_lt_succ hi)
        rwa [← Nat.add_assoc first i 1, Nat.add_right_comm first i 1] at hlater
      · rw [← hidx, ← hblock.1]

end Loops

/-! ## 5. The round trip -/

/-- The JSON encoder and decoder of the header agree on it, and its text has a 32-bit length. -/
def JsonRoundTrips (toVec : KvBundleMeta → Except String (List UInt8))
    (fromSlice : List UInt8 → Except String KvBundleMeta) (m : KvBundleMeta) : Prop :=
  ∃ header, toVec m = .ok header ∧ header.length < 2 ^ 32 ∧ fromSlice header = .ok m

end KvBundleCodec

section RoundTrip

variable {T : Type} [Candle T]

/-- A bundle that can be written: well formed, its blocks in order, its elements bit patterns of
    its element type. -/
structure KvBundle.Encodable (bundle : KvBundle T) : Prop extends bundle.Valid where
  numbered : bundle.blocks.map KvBundleBlock.logicalBlockIdx =
    List.range' 0 (bundle.header.tokenCount / bundle.header.blockSize)
  bits : ∀ block ∈ bundle.blocks, ∀ lb ∈ block.layers, ∀ t, t = lb.k ∨ t = lb.v → ∀ i j k,
    i < bundle.header.numKvHeads → j < bundle.header.blockSize → k < bundle.header.headDim →
      elem t [i, j, k] < 256 ^ bundle.header.dtype.sizeInBytes

theorem KvBundle.Encodable.consistent {bundle : KvBundle T} (h : bundle.Encodable) :
    bundle.header.Consistent :=
  ⟨h.blockSize, Nat.pos_of_ne_zero h.tokenCount, h.aligned, h.tokenIds⟩

/-- The same shape, type and elements. -/
structure SameTensor (t t' : T) : Prop where
  dims : dims t' = dims t
  dtype : dtype t' = dtype t
  elems : ∀ a b c, Candle.dims t = [a, b, c] → ∀ i j k, i < a → j < b → k < c →
    elem t' [i, j, k] = elem t [i, j, k]

def SameLayer (lb lb' : KvLayerBlock T) : Prop := SameTensor lb.k lb'.k ∧ SameTensor lb.v lb'.v

def SameBlock (block block' : KvBundleBlock T) : Prop :=
  block'.logicalBlockIdx = block.logicalBlockIdx ∧ List.Forall₂ SameLayer block.layers block'.layers

/-- The same metadata, and block by block and layer by layer the same keys and values. -/
def KvBundle.Same (bundle bundle' : KvBundle T) : Prop :=
  bundle'.header = bundle.header ∧ List.Forall₂ SameBlock bundle.blocks bundle'.blocks

end RoundTrip

namespace KvBundleCodec

section RoundTrip

variable {T : Type} [Candle T] [HostCandle T]
  {toVec : KvBundleMeta → Except String (List UInt8)}
  {fromSlice : List UInt8 → Except String KvBundleMeta}

/-- What `encode` writes for a bundle: a frame whose payload has the length the header stands for, and
    reads back where there is memory for it. -/
theorem encode_frame {bundle : KvBundle T} {blocks' : List (KvBundleBlock T)} {header : List UInt8}
    (hto : toVec bundle.header = .ok header) (hshort : header.length < 2 ^ 32)
    (hm : bundle.header.Consistent) (hcap : bundle.header.Allocates)
    (hlayers : ∀ block ∈ bundle.blocks, block.layers.length = bundle.header.numLayers)
    (hnumbered : bundle.blocks.map KvBundleBlock.logicalBlockIdx =
      List.range' 0 bundle.header.numBlocks)
    (hblocks : List.Forall₂ (RecodedBlock bundle.header.dtype bundle.header.numKvHeads
      bundle.header.blockSize bundle.header.headDim) bundle.blocks blocks') :
    ∃ part, encode toVec bundle () = some (.ok (frame header part), ()) ∧
      part.length =
        bundle.header.numBlocks * bundle.header.numLayers * 2 * bundle.header.bytesPerTensor ∧
      (bundle.header.Granted T → decodeBlocks part bundle.header.bytesPerTensor bundle.header.dtype
        (bundle.header.numKvHeads, bundle.header.blockSize, bundle.header.headDim)
        bundle.header.numLayers bundle.header.numBlocks 0 0 () = some (.ok blocks', ())) := by
  have hlen : bundle.blocks.length = bundle.header.numBlocks := by
    have h := congrArg List.length hnumbered
    rwa [List.length_map, List.length_range'] at h
  rw [← hlen] at hnumbered ⊢
  obtain ⟨part, hpart, hpl, hdec⟩ := decodeBlocks_encodeBlocks hblocks hlayers hnumbered hcap.layers
  have hdec := hdec [] []
  rw [List.nil_append, List.append_nil] at hdec
  refine ⟨part, ?_, hpl, fun hgrant => hdec fun i hi => ?_⟩
  swap
  · rw [Nat.zero_add]
    exact hgrant.layers i (hlen ▸ hi)
  have halign : ¬ (bundle.header.blockSize = 0 ∨
      bundle.header.tokenCount % bundle.header.blockSize ≠ 0) := fun h =>
    h.elim hm.blockSize fun h => h hm.aligned
  have hmax : max bundle.header.blockSize 1 = bundle.header.blockSize :=
    max_eq_left (Nat.pos_of_ne_zero hm.blockSize)
  have hroom : (4 + 2 + 4 + header.length) * 1 ≤ isizeMax := by
    unfold isizeMax
    omega
  unfold encode
  have hcount : ¬ bundle.blocks.length ≠ bundle.header.tokenCount / bundle.header.blockSize :=
    not_not.mpr hlen
  rw [if_neg halign, hmax, if_neg hcount, Prog.bind_eq_ok]
  refine ⟨header, (), Prog.ofExcept_eq_ok.mpr ⟨hto, rfl⟩, ?_⟩
  rw [Prog.bind_eq_ok]
  refine ⟨(), (), withCapacity_run hroom, ?_⟩
  rw [Prog.bind_eq_ok]
  refine ⟨part, (), Prog.ofExcept_eq_ok.mpr ⟨hpart, rfl⟩, Prog.pure_eq_ok.mpr ⟨?_, rfl⟩⟩
  rw [Nat.mod_eq_of_lt hshort]
  rfl

/-- It decodes to the bundle of the tensors read back. -/
theorem decode_encode_recoded {bundle : KvBundle T} {blocks' : List (KvBundleBlock T)}
    (hjson : JsonRoundTrips toVec fromSlice bundle.header) (hm : bundle.header.Consistent)
    (hfit : bundle.header.SizesFit) (hcap : bundle.header.Allocates)
    (hgrant : bundle.header.Granted T)
    (hlayers : ∀ block ∈ bundle.blocks, block.layers.length = bundle.header.numLayers)
    (hnumbered : bundle.blocks.map KvBundleBlock.logicalBlockIdx =
      List.range' 0 bundle.header.numBlocks)
    (hblocks : List.Forall₂ (RecodedBlock bundle.header.dtype bundle.header.numKvHeads
      bundle.header.blockSize bundle.header.headDim) bundle.blocks blocks') :
    ∃ bytes, encode toVec bundle () = some (.ok bytes, ()) ∧
      decode fromSlice bytes () =
        some (.ok { header := bundle.header, blocks := blocks' }, ()) := by
  obtain ⟨header, hto, hshort, hfrom⟩ := hjson
  obtain ⟨part, henc, hpl, hdec⟩ := encode_frame hto hshort hm hcap hlayers hnumbered hblocks
  unfold KvBundleMeta.numBlocks KvBundleMeta.bytesPerTensor at hpl
  refine ⟨frame header part, henc, ?_⟩
  rw [decode_frame hshort hfrom hm, decodePayload, Prog.bind_eq_ok]
  refine ⟨_, (), checkedMul_run hfit.rows, ?_⟩
  rw [Prog.bind_eq_ok]
  refine ⟨_, (), checkedMul_run hfit.elems, ?_⟩
  rw [Prog.bind_eq_ok]
  refine ⟨_, (), checkedMul_run hfit.bytes, ?_⟩
  rw [Prog.bind_eq_ok]
  refine ⟨_, (), checkedMul_run hfit.layers, ?_⟩
  rw [Prog.bind_eq_ok]
  refine ⟨_, (), checkedMul_run hfit.tensors, ?_⟩
  rw [Prog.bind_eq_ok]
  refine ⟨_, (), checkedMul_run hfit.payload, ?_⟩
  rw [if_neg (not_not.mpr hpl), Prog.bind_eq_ok]
  refine ⟨(), (), allocate_run hcap.blocks hgrant.blocks, ?_⟩
  rw [Prog.bind_eq_ok]
  exact ⟨blocks', (), hdec hgrant, rfl⟩

variable [LawfulCandle T] [LawfulHostCandle T]

/-- Reading back what is written for a bundle that can be written. -/
theorem exists_recodedBlocks {bundle : KvBundle T} (h : bundle.Encodable) :
    ∃ blocks', List.Forall₂ (RecodedBlock bundle.header.dtype bundle.header.numKvHeads
      bundle.header.blockSize bundle.header.headDim) bundle.blocks blocks' ∧
      bundle.Same { header := bundle.header, blocks := blocks' } := by
  have htensor : ∀ block ∈ bundle.blocks, ∀ lb ∈ block.layers, ∀ t, t = lb.k ∨ t = lb.v →
      ∃ t', Recoded bundle.header.dtype bundle.header.numKvHeads bundle.header.blockSize
        bundle.header.headDim t t' ∧ SameTensor t t' := by
    intro block hblock lb hlb t ht
    obtain ⟨hd, hdt⟩ := h.tensors block hblock lb hlb t ht
    obtain ⟨t', hrec, hd', hdt', helems⟩ := exists_recoded hd hdt (h.bits block hblock lb hlb t ht)
    refine ⟨t', hrec, hd'.trans hd.symm, hdt'.trans hdt.symm, fun a b c habc => ?_⟩
    obtain ⟨rfl, rfl, rfl⟩ : a = _ ∧ b = _ ∧ c = _ := by simpa using habc.symm.trans hd
    exact helems
  have hblock : ∀ block ∈ bundle.blocks, ∃ block', RecodedBlock bundle.header.dtype
      bundle.header.numKvHeads bundle.header.blockSize bundle.header.headDim block block' ∧
        SameBlock block block' := by
    intro block hblock
    obtain ⟨layers', hrec, hsame⟩ := exists_forall₂ (l := block.layers)
      (R := RecodedLayer bundle.header.dtype bundle.header.numKvHeads bundle.header.blockSize
        bundle.header.headDim) (S := SameLayer) fun lb hlb => by
      obtain ⟨k', hk, hk'⟩ := htensor block hblock lb hlb lb.k (.inl rfl)
      obtain ⟨v', hv, hv'⟩ := htensor block hblock lb hlb lb.v (.inr rfl)
      exact ⟨{ k := k', v := v' }, ⟨hk, hv⟩, hk', hv'⟩
    exact ⟨{ logicalBlockIdx := block.logicalBlockIdx, layers := layers' }, ⟨rfl, hrec⟩, rfl, hsame⟩
  obtain ⟨blocks', hrec, hsame⟩ := exists_forall₂ hblock
  exact ⟨blocks', hrec, rfl, hsame⟩

/-- What decodes can be written, and reading back what is written for it gives it again. -/
theorem encodable_of_decode {bytes : List UInt8} {bundle : KvBundle T}
    (h : decode fromSlice bytes () = some (.ok bundle, ())) :
    bundle.Encodable ∧ List.Forall₂ (RecodedBlock bundle.header.dtype bundle.header.numKvHeads
      bundle.header.blockSize bundle.header.headDim) bundle.blocks bundle.blocks := by
  obtain ⟨_, hnumbered, hall⟩ := decode_ok h
  refine ⟨⟨decode_valid h, hnumbered, fun block hb lb hlb t ht => ?_⟩, ?_⟩
  · exact (((hall block hb).2 lb hlb t ht).recoded).2
  · refine List.forall₂_same.mpr fun block hb => ⟨rfl, List.forall₂_same.mpr fun lb hlb => ?_⟩
    exact ⟨((hall block hb).2 lb hlb lb.k (.inl rfl)).recoded.1,
      ((hall block hb).2 lb hlb lb.v (.inr rfl)).recoded.1⟩

/-- **The round trip.** A bundle that can be written comes back with the same metadata, blocks,
    layers and elements; what decodes can be written, and then decodes to the same again. -/
theorem decode_encode :
    (∀ bundle : KvBundle T, bundle.Encodable → JsonRoundTrips toVec fromSlice bundle.header →
      bundle.header.SizesFit → bundle.header.Allocates → bundle.header.Granted T →
        ∃ bytes bundle', encode toVec bundle () = some (.ok bytes, ()) ∧
          decode fromSlice bytes () = some (.ok bundle', ()) ∧ bundle.Same bundle') ∧
    ∀ bytes, ∀ bundle : KvBundle T, decode fromSlice bytes () = some (.ok bundle, ()) →
      bundle.Encodable ∧ (JsonRoundTrips toVec fromSlice bundle.header →
        ∃ bytes', encode toVec bundle () = some (.ok bytes', ()) ∧
          decode fromSlice bytes' () = some (.ok bundle, ())) := by
  constructor
  · intro bundle h hjson hfit hcap hgrant
    obtain ⟨blocks', hblocks, hsame⟩ := exists_recodedBlocks h
    obtain ⟨bytes, henc, hdec⟩ := decode_encode_recoded hjson h.consistent hfit hcap hgrant h.layers
      h.numbered hblocks
    exact ⟨bytes, _, henc, hdec, hsame⟩
  · intro bytes bundle h
    obtain ⟨henc, hblocks⟩ := encodable_of_decode h
    refine ⟨henc, fun hjson => ?_⟩
    obtain ⟨_, hfit, hcap, hgrant⟩ := decode_accepted h
    exact decode_encode_recoded hjson henc.consistent hfit hcap hgrant henc.layers henc.numbered
      hblocks

end RoundTrip

/-! ## 6. A bundle of one block -/

/-- Two elements of type `f16`, one per position. -/
def sampleTensor : Dense :=
  ⟨[1, 2, 1], .f16, true, fun idx => if idx = [0, 0, 0] then 0x3E00 else 0xC000⟩

def sampleBundle : KvBundle Dense where
  header :=
    { modelId := "m", tokenCount := 2, tokenIds := [0, 1], blockSize := 2, numLayers := 1,
      numKvHeads := 1, headDim := 1, dtype := .f16 }
  blocks := [{ logicalBlockIdx := 0, layers := [{ k := sampleTensor, v := sampleTensor }] }]

/-- The JSON text of its header. -/
def sampleHeader : List UInt8 :=
  ("\x7b\"model_id\":\"m\",\"token_count\":2,\"token_ids\":[0,1],\"block_size\":2," ++
    "\"num_layers\":1,\"num_kv_heads\":1,\"head_dim\":1,\"dtype\":\"F16\"\x7d").toList.map
      fun c => UInt8.ofNat c.toNat

def sampleToVec (m : KvBundleMeta) : Except String (List UInt8) :=
  if m = sampleBundle.header then .ok sampleHeader else .error "unknown header"

def sampleFromSlice (bytes : List UInt8) : Except String KvBundleMeta :=
  if bytes = sampleHeader then .ok sampleBundle.header else .error "expected value"

theorem sample_round_trip :
    ∃ bytes bundle', encode sampleToVec sampleBundle () = some (.ok bytes, ()) ∧
      decode sampleFromSlice bytes () = some (.ok bundle', ()) ∧ sampleBundle.Same bundle' := by
  have hvalid : sampleBundle.Valid :=
    ⟨by decide, by decide, by decide, by decide, by decide, by decide, by
      intro block hb lb hlb t ht
      obtain rfl := List.mem_singleton.mp hb
      obtain rfl := List.mem_singleton.mp hlb
      obtain rfl | rfl := ht <;> exact ⟨rfl, rfl⟩⟩
  have hbits : ∀ i j k, elem sampleTensor [i, j, k] < 256 ^ 2 := by
    intro i j k
    show (if _ then _ else _) < _
    split <;> decide
  refine decode_encode.1 sampleBundle ⟨hvalid, by decide, ?_⟩ ?_ ?_ ?_ ?_
  · intro block hb lb hlb t ht i j k _ _ _
    obtain rfl := List.mem_singleton.mp hb
    obtain rfl := List.mem_singleton.mp hlb
    obtain rfl | rfl := ht <;> exact hbits i j k
  · refine ⟨sampleHeader, ?_, by decide +kernel, ?_⟩
    · unfold sampleToVec
      rw [if_pos rfl]
    · unfold sampleFromSlice
      rw [if_pos rfl]
  · exact ⟨by decide, by decide, by decide, by decide, by decide, by decide⟩
  · exact ⟨by decide, by decide⟩
  · exact ⟨by decide, by decide⟩

end KvBundleCodec

end Flour.Kv
