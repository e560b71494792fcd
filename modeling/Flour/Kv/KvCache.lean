/-
  File:      Flour/Kv/KvCache.lean
  Subject:   `KvCache` and `Cache` of `src/models/common/cache.rs`: one live sequence over a pool of
             physical blocks, and the registry of cached prefixes.

  * Every operation is a `Prog`: an index out of range and a count below zero panic, `bail!` and `?`
    fail, and a failure leaves the state as far as it was changed.
  * `blockHash` is a parameter, and so is the order in which `clearPrefixCache` drains the registry:
    a hash map has none of its own.
  * Left out: the device, the rope tables (but for the check their construction makes) and the
    masks, which no operation on blocks reads.
-/
import Flour.Kv.Allocator
import Flour.Kv.Bundle
import Flour.Kv.Paged
import Flour.Kv.Prefix

namespace Flour.Kv

open Candle Flour.Lib

/-- `BLOCK_SIZE`. -/
def blockSize : ℕ := 16

def divCeil (a b : ℕ) : ℕ := (a + b - 1) / b

/-- A block is one of the blocks of `n` positions iff it starts below `n`. -/
theorem lt_divCeil_iff {size : ℕ} (h : 0 < size) {b n : ℕ} : b < divCeil n size ↔ b * size < n := by
  unfold divCeil
  rw [← Nat.succ_le_iff, Nat.le_div_iff_mul_le h, Nat.succ_mul]
  omega

theorem le_divCeil_mul {size : ℕ} (h : 0 < size) (n : ℕ) : n ≤ divCeil n size * size :=
  Nat.le_of_not_lt fun hlt => Nat.lt_irrefl _ ((lt_divCeil_iff h).mpr hlt)

theorem divCeil_mono {a b : ℕ} (h : a ≤ b) (size : ℕ) : divCeil a size ≤ divCeil b size :=
  Nat.div_le_div_right (Nat.sub_le_sub_right (Nat.add_le_add_right h size) 1)

/-- The fields of the model's configuration that the cache reads. -/
structure Config where
  numHiddenLayers : ℕ
  numKeyValueHeads : ℕ
  headDim : ℕ
  maxSeqLen : ℕ

structure KvCache (T : Type) where
  pool : PagedKvPool T
  allocator : BlockAllocator
  table : BlockTable
  registry : PrefixRegistry

namespace KvCache

variable {T : Type} [Candle T]

def new (cfg : Config) (dtype : DType) : Except String (KvCache T) := do
  let numBlocks := divCeil cfg.maxSeqLen blockSize
  let pool ← PagedKvPool.new cfg.numHiddenLayers (numBlocks * blockSize) cfg.numKeyValueHeads
    cfg.headDim dtype
  .ok { pool
        allocator := BlockAllocator.new numBlocks
        table := BlockTable.new blockSize
        registry := PrefixRegistry.new }

section Parts

omit [Candle T]

def onPool {α : Type} (x : Prog (PagedKvPool T) α) : Prog (KvCache T) α :=
  Prog.zoom KvCache.pool (fun c pool => { c with pool }) x

def onTable (f : BlockTable → BlockTable) : Prog (KvCache T) Unit :=
  Prog.modify fun c => { c with table := f c.table }

def incref (id : ℕ) : Prog (KvCache T) Unit :=
  Prog.zoom KvCache.allocator (fun c allocator => { c with allocator })
    (Prog.of fun a => (a.incref id).map fun a => (.ok (), a))

def decref (id : ℕ) : Prog (KvCache T) Unit :=
  Prog.zoom KvCache.allocator (fun c allocator => { c with allocator })
    (Prog.of fun a => (a.decref id).map fun r => (.ok (), r.2))

/-- `self.allocator.allocate()`. -/
def takeBlock : Prog (KvCache T) (Option ℕ) :=
  Prog.zoom KvCache.allocator (fun c allocator => { c with allocator })
    (Prog.of fun a => a.allocate.map fun r => (.ok r.1, r.2))

end Parts

section Sequence

omit [Candle T]

def allocate : Prog (KvCache T) (Option ℕ) := do
  match ← takeBlock with
  | none => pure none
  | some id => do
    onTable (·.pushBlock id)
    pure (some id)

/-- Drops the references of the current sequence and starts an empty one. -/
def resetSequence : Prog (KvCache T) Unit := do
  let c ← Prog.get
  Prog.forEach decref c.table.blocks
  onTable BlockTable.clear

/-- The loop of `matchPrefix` over the blocks from `b` on, of which `n` may be reused. -/
def matchBlocks (blockHash : BlockHash) (tokenIds : List UInt32) :
    ℕ → ℕ → UInt64 → ℕ → Prog (KvCache T) ℕ
  | 0, _, _, matched => pure matched
  | n + 1, b, parent, matched => do
    let c ← Prog.get
    let bs := c.table.blockSize
    let chunk := chunk bs tokenIds b
    let h := blockHash parent chunk
    match c.registry.get h chunk with
    | none => pure matched
    | some id => do
      incref id
      onTable (·.pushBlock id)
      matchBlocks blockHash tokenIds n (b + 1) h (matched + bs)

/-- The last full block of a block-aligned prompt is not reused. -/
def maxReusable (bs len : ℕ) : ℕ := if len % bs = 0 then len / bs - 1 else len / bs

/-- Reuses cached blocks that form a prefix of the tokens; returns the number of tokens. -/
def matchPrefix (blockHash : BlockHash) (tokenIds : List UInt32) : Prog (KvCache T) ℕ := do
  let c ← Prog.get
  let bs := c.table.blockSize
  let matched ← matchBlocks blockHash tokenIds (maxReusable bs tokenIds.length) 0 prefixHashSeed 0
  onTable (·.advance matched)
  pure matched

/-- The loop that registers the `n` blocks from `b` on. -/
def registerBlocks (blockHash : BlockHash) (tokenIds : List UInt32) :
    ℕ → ℕ → UInt64 → Prog (KvCache T) Unit
  | 0, _, _ => pure ()
  | n + 1, b, parent => do
    let c ← Prog.get
    let chunk := chunk c.table.blockSize tokenIds b
    let h := blockHash parent chunk
    if c.registry.contains h then registerBlocks blockHash tokenIds n (b + 1) h
    else do
      let id ← Prog.ofOption c.table.blocks[b]?
      incref id
      Prog.modify fun c => { c with registry := c.registry.insert h chunk id }
      registerBlocks blockHash tokenIds n (b + 1) h

/-- Registers every full block of a completed prefill. -/
def registerPrefix (blockHash : BlockHash) (tokenIds : List UInt32) : Prog (KvCache T) Unit := do
  let c ← Prog.get
  registerBlocks blockHash tokenIds (tokenIds.length / c.table.blockSize) 0 prefixHashSeed

/-- Drops all cached prefixes; `drained` is `drain_block_ids`, in the order of the hash map. -/
def clearPrefixCache (drained : List ℕ) : Prog (KvCache T) Unit := do
  Prog.modify fun c => { c with registry := PrefixRegistry.new }
  Prog.forEach decref drained

end Sequence

/-! ## 1. Reading and writing rows -/

/-- Writes the rows of the last positions of the sequence, as many as `k` has. -/
def writeCurrent (layer : ℕ) (k v : T) : Prog (KvCache T) Unit := do
  let c ← Prog.get
  let seqLen ← Prog.ofOption (dims k)[2]?
  if c.table.len < seqLen then Prog.crash
  else do
    let slots ← Prog.ofOption (c.table.slots (c.table.len - seqLen) c.table.len)
    onPool (Prog.of fun p => p.write layer slots k v)

/-- The views of the listed logical blocks. -/
def gatherFrom (layer : ℕ) : List ℕ → Prog (KvCache T) (List (T × T))
  | [] => pure []
  | b :: rest => do
    let c ← Prog.get
    let start := b * c.table.blockSize
    let n := min c.table.blockSize (c.table.len - start)
    let startSlot ← Prog.ofOption (c.table.slot start)
    let view ← onPool (Prog.of fun p => (p.blockView layer startSlot n).map fun r => (r, p))
    let views ← gatherFrom layer rest
    pure (view :: views)

/-- The live K/V, one physical block at a time. -/
def gatherBlocks (layer : ℕ) : Prog (KvCache T) (List (T × T)) := do
  let c ← Prog.get
  gatherFrom layer (List.range (divCeil c.table.len c.table.blockSize))

/-! ## 2. Importing a bundle -/

/-- The checks of an import, in their order. -/
def checkBundle (bundle : KvBundle T) (prompt : List UInt32) : Prog (KvCache T) Unit := do
  let c ← Prog.get
  let m := bundle.header
  let bs := c.table.blockSize
  if m.blockSize ≠ bs then Prog.fail s!"bundle block_size {m.blockSize} != cache block_size {bs}"
  else if m.numLayers ≠ c.pool.numLayers then
    Prog.fail s!"bundle num_layers {m.numLayers} != model {c.pool.numLayers}"
  else if m.numKvHeads ≠ c.pool.kvHeads then
    Prog.fail s!"bundle num_kv_heads {m.numKvHeads} != model {c.pool.kvHeads}"
  else if m.headDim ≠ c.pool.headDim then
    Prog.fail s!"bundle head_dim {m.headDim} != model {c.pool.headDim}"
  else do
    let dtype ← Prog.ofOption c.pool.dtype
    if BundleDType.fromCandle dtype ≠ some m.dtype then
      Prog.fail s!"bundle dtype {m.dtype.debug} != model dtype"
    else if m.tokenCount = 0 ∨ m.tokenCount % bs ≠ 0 then
      Prog.fail s!"bundle token_count {m.tokenCount} not block aligned"
    else if m.tokenIds.length ≠ m.tokenCount then Prog.fail "bundle token_ids len != token_count"
    else if prompt.length < m.tokenCount ∨ prompt.take m.tokenCount ≠ m.tokenIds then
      Prog.fail "prompt does not start with bundle token ids"
    else if bundle.blocks.length ≠ m.tokenCount / bs then
      Prog.fail s!"bundle has {bundle.blocks.length} blocks, expected {m.tokenCount / bs}"
    else pure ()

/-- Imports one block; the list collects the blocks allocated so far. -/
def importBlock (numLayers : ℕ) (block : KvBundleBlock T) : Prog (List ℕ × KvCache T) Unit :=
  if block.layers.length ≠ numLayers then Prog.fail "bundle block has wrong layer count"
  else do
    match ← Prog.zoom Prod.snd (fun s c => (s.1, c)) takeBlock with
    | none => Prog.fail "out of kv blocks"
    | some id => do
      Prog.modify fun s => (s.1 ++ [id], s.2)
      Prog.zoom Prod.snd (fun s c => (s.1, c)) <| Prog.forEach
        (fun e => onPool (Prog.of fun p => p.writeBlock e.2 id e.1.k e.1.v)) block.layers.zipIdx
      Prog.zoom Prod.snd (fun s c => (s.1, c)) (onTable (·.pushBlock id))

/-- The part of an import after its checks, on the sequence that was just reset. -/
def importBlocks (blockHash : BlockHash) (bundle : KvBundle T) : Prog (KvCache T) ℕ := do
  let c ← Prog.get
  let m := bundle.header
  let numBlocks := m.tokenCount / c.table.blockSize
  if c.allocator.numFree < numBlocks then
    Prog.fail s!"not enough free kv blocks to import ({c.allocator.numFree} < {numBlocks})"
  else do
    match ← Prog.attempt [] (Prog.forEach (importBlock m.numLayers) bundle.blocks) with
    | (.error e, allocated) => do
      Prog.forEach decref allocated
      onTable BlockTable.clear
      Prog.fail e
    | (.ok (), _) => do
      onTable (·.advance m.tokenCount)
      registerBlocks blockHash m.tokenIds numBlocks 0 prefixHashSeed
      pure m.tokenCount

/-- Imports a remote bundle into a fresh sequence; returns the number of its tokens. -/
def importPrefixBundle (blockHash : BlockHash) (bundle : KvBundle T) (prompt : List UInt32) :
    Prog (KvCache T) ℕ := do
  checkBundle bundle prompt
  resetSequence
  importBlocks blockHash bundle

end KvCache

/-! ## 3. The cache of the model -/

structure Cache (T : Type) where
  kvs : KvCache T
  maxSeqLen : ℕ

namespace Cache

variable {T : Type} [Candle T]

/-- The rope tables: `arange` takes the length as a `u32`, `reshape` the length itself. -/
def checkTables (cfg : Config) : Except String Unit :=
  if cfg.maxSeqLen % 2 ^ 32 = cfg.maxSeqLen then .ok ()
  else .error (s!"shape mismatch in reshape, lhs: [{cfg.maxSeqLen % 2 ^ 32}], " ++
    s!"rhs: [{cfg.maxSeqLen}, 1]")

def new (cfg : Config) (dtype : DType) : Except String (Cache T) := do
  checkTables cfg
  let kvs ← KvCache.new cfg dtype
  .ok { kvs, maxSeqLen := cfg.maxSeqLen }

def onKvs {α : Type} (x : Prog (KvCache T) α) : Prog (Cache T) α :=
  Prog.zoom Cache.kvs (fun c kvs => { c with kvs }) x

/-- The loop `while capacity < stop`. It runs at most `stop` times: `fuel` does not run out, which
    would be a panic here. -/
def reserve (stop : ℕ) : ℕ → Prog (KvCache T) Unit
  | 0 => Prog.crash
  | fuel + 1 => do
    let c ← Prog.get
    if c.table.capacity < stop then do
      match ← KvCache.allocate with
      | none => Prog.fail "out of kv blocks"
      | some _ => reserve stop fuel
    else pure ()

/-- Reserves slots for the next `seqLen` tokens. -/
def allocateKv (seqLen : ℕ) : Prog (Cache T) Unit := do
  let c ← Prog.get
  let stop := c.kvs.table.len + seqLen
  if c.maxSeqLen < stop then
    Prog.fail s!"paged kv cache overflow: {stop} tokens exceeds max_seq_len {c.maxSeqLen}"
  else do
    onKvs (reserve stop (stop + 1))
    onKvs (KvCache.onTable (·.advance seqLen))

def writeKv (layer : ℕ) (k v : T) : Prog (Cache T) Unit := onKvs (KvCache.writeCurrent layer k v)

def kvBlocks (layer : ℕ) : Prog (Cache T) (List (T × T)) := onKvs (KvCache.gatherBlocks layer)

def resetSequence : Prog (Cache T) Unit := onKvs KvCache.resetSequence

def matchPrefix (blockHash : BlockHash) (tokenIds : List UInt32) : Prog (Cache T) ℕ :=
  onKvs (KvCache.matchPrefix blockHash tokenIds)

def registerPrefix (blockHash : BlockHash) (tokenIds : List UInt32) : Prog (Cache T) Unit :=
  onKvs (KvCache.registerPrefix blockHash tokenIds)

def importPrefixBundle (blockHash : BlockHash) (bundle : KvBundle T) (prompt : List UInt32) :
    Prog (Cache T) ℕ :=
  onKvs (KvCache.importPrefixBundle blockHash bundle prompt)

def clearPrefixCache (drained : List ℕ) : Prog (Cache T) Unit :=
  onKvs (KvCache.clearPrefixCache drained)

end Cache

end Flour.Kv
