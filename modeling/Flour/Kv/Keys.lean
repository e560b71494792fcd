/-
  File:      Flour/Kv/Keys.lean
  Subject:   The keys of two prompts, of one model or of two: when they are equal, and what the
             sessions that use an equal key agree on.

  * **`keys_separate`** -- equal reusable prefixes have equal keys; equal keys are of one model id
    and one number of tokens; and so are two sessions that look for one key.
  * `wlp_publishRun_key` -- hence whoever finds published bytes under its key finds a bundle of its
    own model, of as many tokens as it asks for.
-/
import Flour.Kv.Publish

namespace Flour.Kv

open Candle Flour.Lib Flour.Lib.Prog

/-! ## 1. Sessions and their keys -/

section Sessions

variable {m m' : KvCacheManager} {p q : List UInt32} {key : String}

/-- A session that has a key has the one of its prompt, with its reusable tokens. -/
theorem keyForReusablePrefix_of_session (h : (m.session p).remoteKey = some key) :
    m.keyBuilder.keyForReusablePrefix p = some (key, (m.session p).reusableTokens) := by
  obtain ⟨modelId, remote⟩ := m
  cases remote with
  | none => cases h
  | some store =>
    obtain ⟨⟨key', n⟩, hkey, rfl⟩ := Option.map_eq_some_iff.mp h
    obtain ⟨rfl, -⟩ := PrefixKeyBuilder.keyForReusablePrefix_eq_some hkey
    exact hkey

/-- Two sessions that look for one key are of one model, and reuse as many tokens. -/
theorem session_eq_of_key (h : (m.session p).remoteKey = some key)
    (h' : (m'.session q).remoteKey = some key) :
    m.modelId = m'.modelId ∧ (m.session p).reusableTokens = (m'.session q).reusableTokens :=
  PrefixKeyBuilder.modelId_eq_of_key (keyForReusablePrefix_of_session h)
    (keyForReusablePrefix_of_session h')

/-- The number of reusable tokens can be read off the reusable prefix. -/
theorem keyForReusablePrefix_eq {b : PrefixKeyBuilder}
    (h : p.take (b.reusableTokenCount p.length) = q.take (b.reusableTokenCount q.length)) :
    b.keyForReusablePrefix p = b.keyForReusablePrefix q := by
  have hcount : b.reusableTokenCount p.length = b.reusableTokenCount q.length := by
    have hlen := congrArg List.length h
    rwa [List.length_take, List.length_take, Nat.min_eq_left (b.reusableTokenCount_le _),
      Nat.min_eq_left (b.reusableTokenCount_le _)] at hlen
  refine PrefixKeyBuilder.keyForReusablePrefix_congr hcount ?_
  rw [← hcount] at h ⊢
  exact h

end Sessions

/-- **Keys separate models and lengths**, whatever the model ids contain. Equal reusable prefixes
    have one key under one builder, whatever follows them; equal keys of any two builders are of one
    model id and one number of tokens, which is the reusable count of both prompts; and two sessions
    that look for one key are of one model and reuse as many tokens. -/
theorem keys_separate :
    (∀ (b : PrefixKeyBuilder) (p q : List UInt32),
      p.take (b.reusableTokenCount p.length) = q.take (b.reusableTokenCount q.length) →
        b.keyForReusablePrefix p = b.keyForReusablePrefix q) ∧
    (∀ (b b' : PrefixKeyBuilder) (p q : List UInt32) (key : String) (n n' : ℕ),
      b.keyForReusablePrefix p = some (key, n) → b'.keyForReusablePrefix q = some (key, n') →
        b.modelId = b'.modelId ∧ n = n' ∧ n = b.reusableTokenCount p.length ∧
          n' = b'.reusableTokenCount q.length) ∧
    (∀ (m m' : KvCacheManager) (p q : List UInt32) (key : String),
      (m.session p).remoteKey = some key → (m'.session q).remoteKey = some key →
        m.modelId = m'.modelId ∧
          (m.session p).reusableTokens = (m'.session q).reusableTokens) := by
  refine ⟨fun _ _ _ => keyForReusablePrefix_eq, fun b b' p q key n n' h h' => ?_,
    fun _ _ _ _ _ => session_eq_of_key⟩
  obtain ⟨hmodel, hcount⟩ := PrefixKeyBuilder.modelId_eq_of_key h h'
  exact ⟨hmodel, hcount, (PrefixKeyBuilder.keyForReusablePrefix_eq_some h).1,
    (PrefixKeyBuilder.keyForReusablePrefix_eq_some h').1⟩

/-- A manager whose model id looks like the end of a key. -/
def slashManager : KvCacheManager := .withRemote "m/prefix/0/tokens/16" fun _ => .ok none

theorem keys_separate_once :
    ∃ key, slashManager.keyBuilder.keyForReusablePrefix samplePrompt = some (key, 16) ∧
      slashManager.keyBuilder.keyForReusablePrefix (samplePrompt ++ [5]) = some (key, 16) ∧
      16 = slashManager.keyBuilder.reusableTokenCount samplePrompt.length ∧
      (slashManager.session samplePrompt).reusableTokens =
        (slashManager.session (samplePrompt ++ [5])).reusableTokens := by
  obtain ⟨key, hkey⟩ : ∃ key, slashManager.keyBuilder.keyForReusablePrefix samplePrompt =
      some (key, 16) := ⟨_, rfl⟩
  have hsame : slashManager.keyBuilder.keyForReusablePrefix (samplePrompt ++ [5]) = some (key, 16) :=
    (keys_separate.1 _ samplePrompt (samplePrompt ++ [5]) (by decide)).symm.trans hkey
  have hsession : (slashManager.session samplePrompt).remoteKey = some key :=
    congrArg (Option.map Prod.fst) hkey
  have hsession' : (slashManager.session (samplePrompt ++ [5])).remoteKey = some key :=
    congrArg (Option.map Prod.fst) hsame
  exact ⟨key, hkey, hsame, (keys_separate.2.1 _ _ _ _ _ _ _ hkey hsame).2.2.1,
    (keys_separate.2.2 _ _ _ _ _ hsession hsession').2⟩

/-! ## 2. Published bundles -/

section Publish

variable {T H O : Type} [Candle T] [LawfulCandle T] [HostCandle T] {m : CausalLM T H O}
  {dtype : DType} {c₀ : Cache T} {blockHash : BlockHash}

/-- **What is published under a key** is a bundle of the model, and of as many tokens, of every
    session that looks for this key. -/
theorem wlp_publishRun_key (fromSlice : List UInt8 → Except String KvBundleMeta)
    (toVec : KvBundleMeta → Except String (List UInt8)) (hnew : Cache.new m.cfg dtype = .ok c₀)
    (manager : KvCacheManager) (prompt tokens : List UInt32) {t : Traced T}
    (hr : Reaches blockHash c₀ t.cache) :
    wlp (publishRun fromSlice toVec blockHash m manager prompt tokens)
      (fun publish _ => ∀ bytes, publish.bundleBytes = some bytes →
        ∃ (key : String) (bundle : KvBundle T), publish.key = some key ∧
          KvBundleCodec.encode toVec bundle () = some (.ok bytes, ()) ∧
          ∀ (reader : KvCacheManager) (q : List UInt32), (reader.session q).remoteKey = some key →
            bundle.header.modelId = reader.modelId ∧
              bundle.header.tokenCount = (reader.session q).reusableTokens)
      (fun _ _ => True) t := by
  refine (wlp_publishRun fromSlice toVec hnew manager prompt tokens hr).mono
    (fun publish t' hpub bytes hbytes => ?_) fun _ _ _ => trivial
  obtain ⟨-, s, hs, hpub⟩ := hpub
  obtain ⟨hsome, d, bundle, -, hexp, henc⟩ := hpub.bytes hbytes
  obtain ⟨key, hkey⟩ := Option.isSome_iff_exists.mp hsome
  refine ⟨key, bundle, hpub.key.trans hkey, henc, fun reader q hq => ?_⟩
  obtain ⟨hmodel, hcount⟩ := session_eq_of_key (hs.remoteKey.symm.trans hkey) hq
  rw [hexp.header]
  exact ⟨hs.modelId.trans hmodel, hs.reusableTokens.trans hcount⟩

end Publish

end Flour.Kv
