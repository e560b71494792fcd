/-
  File:      Flour/Kv/Session.lean
  Subject:   The requests on a cache: `CausalLM::forward` and `prefill_suffix` of
             `src/models/common/model.rs`, and `KvSession::prefill` of `src/kv_cache/manager.rs`.

  * `CausalLM` -- what the layers compute around the cache is not modelled: it is given as functions
    of hidden states `H`, each of which may fail.
  * `Traced` -- the cache with a record of the forward passes and of the views their layers read.
  * `KvSession.prefill` -- reset, match, remote lookup with fallback, suffix, registration.
-/
import Flour.Kv.Key
import Flour.Kv.KvCache

namespace Flour.Kv

open Candle Flour.Lib

/-! ## 1. Forward passes -/

/-- A model: its configuration, and what is computed between two accesses to the cache. -/
structure CausalLM (T H O : Type) where
  cfg : Config
  embed : List UInt32 → Except String H
  /-- The K and V tensors of a layer, for hidden states whose first position is `index_pos`. -/
  keyValue : ℕ → H → ℕ → Except String (T × T)
  /-- The rest of a layer: attention over the blocks of the cache, and what follows it. -/
  attend : ℕ → H → ℕ → List (T × T) → Except String H
  output : H → Except String O

/-- What is recorded: a pass over `tokenIds` at `indexPos`, called with `len` live tokens; and the
    views that one of its layers read. -/
inductive Event (T : Type) where
  | forward (tokenIds : List UInt32) (indexPos len : ℕ)
  | read (layer : ℕ) (blocks : List (T × T))

structure Traced (T : Type) where
  cache : Cache T
  events : List (Event T)

section Forward

variable {T H O : Type} [Candle T]

def onCache {α : Type} (x : Prog (Cache T) α) : Prog (Traced T) α :=
  Prog.zoom Traced.cache (fun t cache => { t with cache }) x

omit [Candle T] in
theorem wp_onCache {α : Type} {x : Prog (Cache T) α} {t : Traced T} {Q : α → Traced T → Prop}
    {E : String → Traced T → Prop} : Prog.wp (onCache x) Q E t ↔
      Prog.wp x (fun a cache => Q a { t with cache }) (fun e cache => E e { t with cache }) t.cache :=
  Prog.wp_zoom _ _ x

omit [Candle T] in
theorem wlp_onCache {α : Type} {x : Prog (Cache T) α} {t : Traced T} {Q : α → Traced T → Prop}
    {E : String → Traced T → Prop}
    (h : Prog.wlp x (fun a cache => Q a { t with cache }) (fun e cache => E e { t with cache })
      t.cache) : Prog.wlp (onCache x) Q E t := Prog.wlp_zoom h

def record (e : Event T) : Prog (Traced T) Unit :=
  Prog.modify fun t => { t with events := t.events ++ [e] }

namespace CausalLM

/-- The accesses of a layer to the cache, and what it computes. -/
def layerForward (m : CausalLM T H O) (indexPos layer : ℕ) (x : H) : Prog (Traced T) H := do
  let (k, v) ← Prog.ofExcept (m.keyValue layer x indexPos)
  onCache (Cache.writeKv layer k v)
  let blocks ← onCache (Cache.kvBlocks layer)
  record (.read layer blocks)
  Prog.ofExcept (m.attend layer x indexPos blocks)

def layersForward (m : CausalLM T H O) (indexPos : ℕ) : List ℕ → H → Prog (Traced T) H
  | [], x => pure x
  | layer :: rest, x => do
    let x ← m.layerForward indexPos layer x
    m.layersForward indexPos rest x

/-- One pass over `tokenIds`; slots are reserved once, before any layer writes. -/
def forward (m : CausalLM T H O) (tokenIds : List UInt32) (indexPos : ℕ) : Prog (Traced T) O := do
  let t ← Prog.get
  record (.forward tokenIds indexPos t.cache.kvs.table.len)
  let x ← Prog.ofExcept (m.embed tokenIds)
  onCache (Cache.allocateKv tokenIds.length)
  let x ← m.layersForward indexPos (List.range m.cfg.numHiddenLayers) x
  Prog.ofExcept (m.output x)

/-- Runs the model over the tokens that are not in the cache yet. -/
def prefillSuffix (m : CausalLM T H O) (prompt : List UInt32) (reused : ℕ) : Prog (Traced T) O :=
  if prompt.length ≤ reused then
    Prog.fail (s!"reused_prefix_tokens {reused} must be < prompt_len {prompt.length}; " ++
      "cached KV cannot produce the last prompt token's logits")
  else m.forward (prompt.drop reused) reused

end CausalLM

end Forward

/-! ## 2. Sessions -/

/-- `get_object` of a remote store, as it answers during one request. -/
abbrev RemoteGet := String → Except String (Option (List UInt8))

/-- The block-aligned cap of the keys is that of a match. -/
theorem reusableTokenCount_eq (modelId : String) (promptLen : ℕ) :
    (PrefixKeyBuilder.new modelId blockSize).reusableTokenCount promptLen =
      KvCache.maxReusable blockSize promptLen * blockSize := by
  show (if promptLen = 0 then 0 else (promptLen - 1) / 16 * 16) = _
  unfold KvCache.maxReusable blockSize
  split_ifs <;> omega

structure KvCacheManager where
  modelId : String
  remote : Option RemoteGet

/-- The plan of a prefill. -/
structure KvLookup where
  remoteKey : Option String
  reusableTokens : ℕ
  remoteCacheHit : Option Bool

structure KvSession where
  modelId : String
  promptTokens : List UInt32
  reusableTokens : ℕ
  remoteKey : Option String
  remoteStore : Option RemoteGet
  reusedPrefixTokens : ℕ
  remoteCacheHit : Option Bool
  remoteImportedTokens : ℕ
  remoteError : Option String

structure PrefillOutput (O : Type) where
  logits : O
  reusedPrefixTokens : ℕ

namespace KvCacheManager

def keyBuilder (m : KvCacheManager) : PrefixKeyBuilder := .new m.modelId blockSize

def localOnly (modelId : String) : KvCacheManager := { modelId, remote := none }

def withRemote (modelId : String) (store : RemoteGet) : KvCacheManager :=
  { modelId, remote := some store }

def prepare (m : KvCacheManager) (promptTokens : List UInt32) : KvLookup :=
  let reusableTokens := m.keyBuilder.reusableTokenCount promptTokens.length
  match m.remote with
  | none => { remoteKey := none, reusableTokens, remoteCacheHit := none }
  | some _ =>
    { remoteKey := (m.keyBuilder.keyForReusablePrefix promptTokens).map Prod.fst
      reusableTokens, remoteCacheHit := none }

def bindSession (m : KvCacheManager) (lookup : KvLookup) (promptTokens : List UInt32) : KvSession :=
  { modelId := m.modelId
    promptTokens
    reusableTokens := lookup.reusableTokens
    remoteKey := lookup.remoteKey
    remoteStore := m.remote
    reusedPrefixTokens := 0
    remoteCacheHit := none
    remoteImportedTokens := 0
    remoteError := none }

/-- The session a request starts with. -/
def session (m : KvCacheManager) (promptTokens : List UInt32) : KvSession :=
  m.bindSession (m.prepare promptTokens) promptTokens

end KvCacheManager

namespace KvSession

variable {T H O : Type} [Candle T]

/-- A session borrows the cache. -/
abbrev State (T : Type) := KvSession × Traced T

def onTraced {α : Type} (x : Prog (Traced T) α) : Prog (State T) α :=
  Prog.zoom Prod.snd (fun s t => (s.1, t)) x

def update (f : KvSession → KvSession) : Prog (State T) Unit := Prog.modify fun s => (f s.1, s.2)

/-- One character of `{:?}`. Past U+00FF the table of printable characters is taken to hold all. -/
def debugChar (c : Char) : String :=
  match c with
  | '\x00' => "\\0"
  | '\t' => "\\t"
  | '\n' => "\\n"
  | '\r' => "\\r"
  | '"' => "\\\""
  | '\\' => "\\\\"
  | c =>
    if c.toNat < 0x20 ∨ 0x7f ≤ c.toNat ∧ c.toNat ≤ 0xa0 ∨ c.toNat = 0xad then
      "\\u\x7b" ++ String.ofList (Nat.toDigits 16 c.toNat) ++ "\x7d"
    else c.toString

/-- `{:?}` of a text. -/
def debug (s : String) : String := "\"" ++ String.join (s.toList.map debugChar) ++ "\""

example : debug "m\"\n\x01é" = "\"m\\\"\\n\\u\x7b1\x7dé\"" := by decide +kernel

/-- Decodes the bytes, checks the model and imports the bundle. -/
def importRemoteBundle (fromSlice : List UInt8 → Except String KvBundleMeta)
    (blockHash : BlockHash) (bytes : List UInt8) (prompt : List UInt32) : Prog (State T) ℕ := do
  let bundle ← Prog.zoom (fun _ => ()) (fun s _ => s) (KvBundleCodec.decode (T := T) fromSlice bytes)
  let (s, _) ← Prog.get
  if bundle.header.modelId ≠ s.modelId then
    Prog.fail s!"bundle model_id {debug bundle.header.modelId} != engine model_id {debug s.modelId}"
  else onTraced (onCache (Cache.importPrefixBundle blockHash bundle prompt))

/-- The local match that replaces a failed import. -/
def fallBack (blockHash : BlockHash) (prompt : List UInt32) (e : String) : Prog (State T) ℕ := do
  update fun s => { s with remoteError := some e }
  onTraced (onCache Cache.resetSequence)
  let reused ← onTraced (onCache (Cache.matchPrefix blockHash prompt))
  update fun s => { s with remoteCacheHit := some false }
  pure reused

/-- The import of fetched bytes, with its fallback; returns the tokens that are reused. -/
def tryImport (fromSlice : List UInt8 → Except String KvBundleMeta) (blockHash : BlockHash)
    (bytes : List UInt8) (prompt : List UInt32) : Prog (State T) ℕ := do
  match ← Prog.catching (importRemoteBundle fromSlice blockHash bytes prompt) with
  | .ok imported => do
    update fun s => { s with remoteCacheHit := some true, remoteImportedTokens := imported }
    pure imported
  | .error e => fallBack blockHash prompt e

/-- The remote part of a prefill that matched `reused` tokens locally. -/
def useRemote (fromSlice : List UInt8 → Except String KvBundleMeta) (blockHash : BlockHash)
    (prompt : List UInt32) (reused : ℕ) : Prog (State T) ℕ := do
  let (s, _) ← Prog.get
  match s.remoteStore, s.remoteKey with
  | some store, some key =>
    match store key with
    | .ok (some bytes) =>
      if s.reusableTokens ≤ reused then do
        update fun s => { s with remoteCacheHit := some true }
        pure reused
      else tryImport fromSlice blockHash bytes prompt
    | .ok none => do
      update fun s => { s with remoteCacheHit := some false }
      pure reused
    | .error e => do
      update fun s => { s with remoteError := some e, remoteCacheHit := some false }
      pure reused
  | _, _ => pure reused

/-- Takes the best available prefix and runs the model over the rest of the prompt. -/
def prefill (fromSlice : List UInt8 → Except String KvBundleMeta) (blockHash : BlockHash)
    (m : CausalLM T H O) : Prog (State T) (PrefillOutput O) := do
  let (s, _) ← Prog.get
  let prompt := s.promptTokens
  onTraced (onCache Cache.resetSequence)
  let reused ← onTraced (onCache (Cache.matchPrefix blockHash prompt))
  let reused ← useRemote fromSlice blockHash prompt reused
  let logits ← onTraced (m.prefillSuffix prompt reused)
  onTraced (onCache (Cache.registerPrefix blockHash prompt))
  update fun s => { s with reusedPrefixTokens := reused }
  pure { logits, reusedPrefixTokens := reused }

end KvSession

/-! ## 3. Prefills over another forward pass -/

/-- A forward pass over tokens, at an `index_pos`. -/
abbrev Forward (T O : Type) := List UInt32 → ℕ → Prog (Traced T) O

section Forward

variable {T O : Type} [Candle T]

/-- `CausalLM.prefillSuffix`, over a forward pass. -/
def prefillSuffixWith (forward : Forward T O) (prompt : List UInt32) (reused : ℕ) :
    Prog (Traced T) O :=
  if prompt.length ≤ reused then
    Prog.fail (s!"reused_prefix_tokens {reused} must be < prompt_len {prompt.length}; " ++
      "cached KV cannot produce the last prompt token's logits")
  else forward (prompt.drop reused) reused

/-- `KvSession.prefill`, over a forward pass. -/
def prefillWith (fromSlice : List UInt8 → Except String KvBundleMeta) (blockHash : BlockHash)
    (forward : Forward T O) : Prog (KvSession.State T) (PrefillOutput O) := do
  let (s, _) ← Prog.get
  let prompt := s.promptTokens
  KvSession.onTraced (onCache Cache.resetSequence)
  let reused ← KvSession.onTraced (onCache (Cache.matchPrefix blockHash prompt))
  let reused ← KvSession.useRemote fromSlice blockHash prompt reused
  let logits ← KvSession.onTraced (prefillSuffixWith forward prompt reused)
  KvSession.onTraced (onCache (Cache.registerPrefix blockHash prompt))
  KvSession.update fun s => { s with reusedPrefixTokens := reused }
  pure { logits, reusedPrefixTokens := reused }

/-- That of a model is the prefill. -/
theorem prefillWith_forward {H : Type} (fromSlice : List UInt8 → Except String KvBundleMeta)
    (blockHash : BlockHash) (m : CausalLM T H O) :
    prefillWith fromSlice blockHash m.forward = KvSession.prefill fromSlice blockHash m := rfl

end Forward

end Flour.Kv
