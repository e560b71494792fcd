/-
  File:      Flour/DistKv/Client.lean
  Subject:   `encode_segment` of `src/distkv/client.rs`, and the URLs that a client builds with it for
             the data path of a worker.

  * **`encodeSegment_lossless`** -- the encoded key is read back, so no two keys have one segment;
    and it is made of unreserved characters and escapes alone, so it adds nothing to the structure
    of a URL.
  * **`Put.url_eq_iff`** -- two puts write to one URL exactly if they write to one slot of one server.

  What a server reads in such a URL is in `Http.lean`.
-/
import Flour.DistKv.System
import Flour.Lib.Percent

namespace Flour.DistKv

open Flour.Lib Flour.Lib.Percent Flour.Lib.Utf8

/-! ## 1. Segments -/

/-- The bytes that stay as they are. -/
def unreserved (b : UInt8) : Bool :=
  between 'A'.toUInt8 'Z'.toUInt8 b || between 'a'.toUInt8 'z'.toUInt8 b ||
    between '0'.toUInt8 '9'.toUInt8 b || b = '-'.toUInt8 || b = '_'.toUInt8 || b = '.'.toUInt8 ||
    b = '~'.toUInt8

/-- Percent-encodes a single URL path segment. -/
def encodeSegment (s : String) : String :=
  String.ofList ((utf8Bytes s).flatMap fun b =>
    if unreserved b then [Char.ofUInt8 b] else '%' :: hexPair b)

/-- The unreserved characters of a URL. -/
def isUnreserved (c : Char) : Bool :=
  ('A' ≤ c && c ≤ 'Z') || ('a' ≤ c && c ≤ 'z') || ('0' ≤ c && c ≤ '9') || c ∈ ['-', '_', '.', '~']

theorem unreserved_eq (b : UInt8) : unreserved b = isUnreserved (Char.ofUInt8 b) := by
  have hall : ∀ n < 256, unreserved (UInt8.ofNat n) = isUnreserved (Char.ofUInt8 (UInt8.ofNat n)) :=
    by decide +kernel
  simpa using hall b.toNat b.toNat_lt

theorem isUnreserved_ascii {c : Char} (h : isUnreserved c = true) : c.toNat < 128 := by
  simp only [isUnreserved, Bool.or_eq_true, Bool.and_eq_true, decide_eq_true_eq, Char.le_def,
    UInt32.le_iff_toNat_le] at h
  obtain ((⟨-, h⟩ | ⟨-, h⟩) | ⟨-, h⟩) | h := h
  · exact Nat.lt_of_le_of_lt h (by decide)
  · exact Nat.lt_of_le_of_lt h (by decide)
  · exact Nat.lt_of_le_of_lt h (by decide)
  · simp only [List.mem_cons, List.not_mem_nil, or_false] at h
    rcases h with rfl | rfl | rfl | rfl <;> decide

theorem toList_encodeSegment (s : String) :
    (encodeSegment s).toList = encode unreserved (utf8Bytes s) := String.toList_ofList

/-- The text of a segment. -/
theorem escaped_encodeSegment (s : String) : Escaped isUnreserved (encodeSegment s).toList := by
  rw [toList_encodeSegment]
  exact escaped_encode (fun b hb => unreserved_eq b ▸ hb) _

theorem decode_encodeSegment (s : String) : decode (utf8Bytes (encodeSegment s)) = utf8Bytes s := by
  have hascii := (escaped_encodeSegment s).ascii fun _ => isUnreserved_ascii
  rw [← String.ofList_toList (s := encodeSegment s), utf8Bytes_ofList hascii, toList_encodeSegment]
  exact decode_encoded (by decide) _

theorem encodeSegment_inj {s t : String} (h : encodeSegment s = encodeSegment t) : s = t :=
  utf8Bytes_inj (by rw [← decode_encodeSegment, h, decode_encodeSegment])

theorem notMem_encodeSegment {c : Char} (hc : c ∈ ['/', '?', '#']) (s : String) :
    c ∉ (encodeSegment s).toList := by
  have hno : isUnreserved c = false ∧ isHexDigit c = false ∧ c ≠ '%' := by
    simp only [List.mem_cons, List.not_mem_nil, or_false] at hc
    rcases hc with rfl | rfl | rfl <;> decide
  exact (escaped_encodeSegment s).notMem hno.1 hno.2.1 hno.2.2

/-- **Encoding a segment loses nothing and adds no structure.** Decoding gives back the bytes of the
    key, so other keys have other segments; the segment is made of unreserved characters and
    escapes, without a slash, a question mark or a number sign, and every percent sign in it has two
    upper-case hexadecimal digits behind it. -/
theorem encodeSegment_lossless (s : String) :
    decode (utf8Bytes (encodeSegment s)) = utf8Bytes s ∧
    (∀ t, encodeSegment t = encodeSegment s → t = s) ∧
    Escaped isUnreserved (encodeSegment s).toList ∧
    (∀ c ∈ ['/', '?', '#'], c ∉ (encodeSegment s).toList) ∧
    ∀ front rest, (encodeSegment s).toList = front ++ '%' :: rest →
      ∃ hi lo rest', rest = hi :: lo :: rest' ∧ isHexDigit hi = true ∧ isHexDigit lo = true :=
  ⟨decode_encodeSegment s, fun _ => encodeSegment_inj, escaped_encodeSegment s,
    fun _ hc => notMem_encodeSegment hc s,
    fun _ _ h => (escaped_encodeSegment s).percent (by decide) h⟩

theorem encodeSegment_lossless_once : encodeSegment "kv://é%2f" = "kv%3A%2F%2F%C3%A9%252f" ∧
    decode (utf8Bytes "kv%3A%2F%2F%C3%A9%252f") = utf8Bytes "kv://é%2f" ∧
    '/' ∉ "kv%3A%2F%2F%C3%A9%252f".toList ∧
    ∃ hi lo rest', "252f".toList = hi :: lo :: rest' ∧ isHexDigit hi = true ∧
      isHexDigit lo = true := by
  have hkey : encodeSegment "kv://é%2f" = "kv%3A%2F%2F%C3%A9%252f" := by decide +kernel
  obtain ⟨hdecode, -, -, hsplit, hpercent⟩ := encodeSegment_lossless "kv://é%2f"
  rw [hkey] at hdecode hsplit hpercent
  exact ⟨hkey, hdecode, hsplit '/' (by decide),
    hpercent "kv%3A%2F%2F%C3%A9".toList "252f".toList (by decide +kernel)⟩

/-! ## 2. URLs -/

/-- The URL of an object of a worker, for writes and for fetches. -/
def objectUrl (workerAddr : String) (key : ObjectKey) (generation : ℕ) : String :=
  s!"{baseUrl workerAddr}/v1/distkv/worker/objects/{encodeSegment key}?generation={generation}"

theorem toList_objectUrl (workerAddr : String) (key : ObjectKey) (generation : ℕ) :
    (objectUrl workerAddr key generation).toList =
      (((baseUrl workerAddr).toList ++ "/v1/distkv/worker/objects".toList) ++
        '/' :: (encodeSegment key).toList ++ "?generation".toList) ++
        '=' :: Nat.toDigits 10 generation := by
  simp [objectUrl, toString]

/-- **A URL determines** the server, the key and the generation, whatever the address contains. -/
theorem objectUrl_inj {a a' : String} {key key' : ObjectKey} {g g' : ℕ}
    (h : objectUrl a key g = objectUrl a' key' g') :
    baseUrl a = baseUrl a' ∧ key = key' ∧ g = g' := by
  have h := congrArg String.toList h
  rw [toList_objectUrl, toList_objectUrl] at h
  have heq : ∀ n, '=' ∉ Nat.toDigits 10 n := notMem_toDigits (by decide)
  -- from the right: the numeral, then the segment
  obtain ⟨hrest, hnum⟩ := last_field_inj (heq g) (heq g') h
  have hrest := (List.append_inj' hrest rfl).1
  obtain ⟨hbase, hseg⟩ := last_field_inj (notMem_encodeSegment (by decide) key)
    (notMem_encodeSegment (by decide) key') hrest
  exact ⟨String.toList_inj.mp (List.append_inj' hbase rfl).1,
    encodeSegment_inj (String.toList_inj.mp hseg), toDigits_inj hnum⟩

namespace Put

/-- Where the bytes of a put are sent. -/
def url (p : Put) : String := objectUrl p.start.workerAddr p.key p.start.objectGeneration

/-- **One URL is one slot of one server.** -/
theorem url_eq_iff (p q : Put) : p.url = q.url ↔ p.server = q.server ∧ p.slot = q.slot := by
  unfold url server slot
  constructor
  · intro h
    obtain ⟨hserver, hkey, hgen⟩ := objectUrl_inj h
    exact ⟨hserver, Prod.ext hkey hgen⟩
  · rintro ⟨hserver, hslot⟩
    obtain ⟨hkey, hgen⟩ := Prod.mk.inj hslot
    rw [objectUrl, objectUrl, hserver, hkey, hgen]

end Put

end Flour.DistKv
