/-
  File:      Flour/Lib/Talk.lean
  Subject:   Programs that talk to servers over a network that loses things. Names nothing of the
             program.

  * `Talk` -- a program that sends requests one at a time and fails at its first error, or goes on;
  * `Service` -- servers that handle requests, and what else can happen to them; `Service.lts` -- any
    number of talks: a request is handled and answered, or its sender gives up, and then it may be
    handled at any later time, any number of times, or never;
  * `Contract` -- what a talk may ask in a world, and what an answer tells of the time between two
    worlds; `Keeps` -- a talk that asks nothing else, whatever is answered, and ends as it should;
  * **`Service.kept_steps`, `kept_run`** -- where every request that may be made and everything else
    that happens moves the world on, all talks of every run end as they should.
-/
import Flour.Lib.Run
import Mathlib.Logic.Function.Basic
import Mathlib.Order.Defs.PartialOrder

namespace Flour.Lib

/-! ## 1. Talks -/

/-- A program that sends requests; an error is a request that was not answered. -/
inductive Talk (Q A α : Type) where
  | done (r : Except String α)
  | send (q : Q) (k : Except String A → Talk Q A α)

namespace Talk

variable {Q A α β : Type}

def bind : Talk Q A α → (α → Talk Q A β) → Talk Q A β
  | done (.ok a), f => f a
  | done (.error e), _ => done (.error e)
  | send q k, f => send q fun a => (k a).bind f

instance : Monad (Talk Q A) where
  pure a := done (.ok a)
  bind := bind

def bail (e : String) : Talk Q A α := done (.error e)

def ofExcept (r : Except String α) : Talk Q A α := done r

/-- The answer to a request, or the error that there was none. -/
def ask (q : Q) : Talk Q A A := send q done

end Talk

/-! ## 2. Contracts -/

/-- What may be asked, and what is told by an answer to a question that was put in the first world and
    answered before the second one. -/
structure Contract (W Q A : Type) [Preorder W] where
  may : W → Q → Prop
  told : W → W → Q → A → Prop
  may_mono {w w' : W} {q : Q} (hle : w ≤ w') (h : may w q) : may w' q
  told_earlier {w₀ w w' : W} {q : Q} {a : A} (hle : w₀ ≤ w) (h : told w w' q a) : told w₀ w' q a

section Keeps

variable {W Q A α β : Type} [Preorder W] {C : Contract W Q A} {P : W → Except String α → Prop}

/-- A talk that keeps to its contract from a world on, and ends with `P`. -/
def Keeps (C : Contract W Q A) (P : W → Except String α → Prop) : Talk Q A α → W → Prop
  | .done r, w => ∀ w', w ≤ w' → P w' r
  | .send q k, w => C.may w q ∧ ∀ w', w ≤ w' →
      (∀ e, Keeps C P (k (.error e)) w') ∧ ∀ a, C.told w w' q a → Keeps C P (k (.ok a)) w'

namespace Keeps

theorem later {t : Talk Q A α} {w w' : W} (h : Keeps C P t w) (hle : w ≤ w') : Keeps C P t w' := by
  cases t with
  | done r => exact fun w'' hle' => h w'' (le_trans hle hle')
  | send q k =>
    refine ⟨C.may_mono hle h.1, fun w'' hle' => ?_⟩
    obtain ⟨herr, hok⟩ := h.2 w'' (le_trans hle hle')
    exact ⟨herr, fun a htold => hok a (C.told_earlier hle htold)⟩

theorem mono {P' : W → Except String α → Prop} {t : Talk Q A α} {w : W} (h : Keeps C P t w)
    (hP : ∀ w r, P w r → P' w r) : Keeps C P' t w := by
  induction t generalizing w with
  | done r => exact fun w' hle => hP _ _ (h w' hle)
  | send q k ih =>
    exact ⟨h.1, fun w' hle => ⟨fun e => ih _ ((h.2 w' hle).1 e),
      fun a htold => ih _ ((h.2 w' hle).2 a htold)⟩⟩

/-- The result of a talk that is over. -/
theorem result {r : Except String α} {w : W} (h : Keeps C P (.done r) w) : P w r := h w le_rfl

/-- A step after another. -/
theorem bind {P : W → Except String β → Prop} {t : Talk Q A α} {f : α → Talk Q A β} {w : W}
    (h : Keeps C (fun w r => match r with
      | .ok a => Keeps C P (f a) w
      | .error e => P w (.error e)) t w) : Keeps C P (t >>= f) w := by
  induction t generalizing w with
  | done r =>
    cases r with
    | ok a => exact h w le_rfl
    | error e => exact h
  | send q k ih =>
    exact ⟨h.1, fun w' hle => ⟨fun e => ih _ ((h.2 w' hle).1 e),
      fun a htold => ih _ ((h.2 w' hle).2 a htold)⟩⟩

theorem bail {e : String} {w : W} (h : ∀ w', w ≤ w' → P w' (.error e)) :
    Keeps C P (Talk.bail e : Talk Q A α) w := h

/-- A request that may be made. -/
theorem ask {P : W → Except String A → Prop} {q : Q} {w : W} (hmay : C.may w q)
    (herr : ∀ w' e, w ≤ w' → P w' (.error e))
    (hok : ∀ w' w'' a, w ≤ w' → w' ≤ w'' → C.told w w' q a → P w'' (.ok a)) :
    Keeps C P (Talk.ask q) w :=
  ⟨hmay, fun w' hle => ⟨fun e w'' hle' => herr w'' e (le_trans hle hle'),
    fun a htold w'' hle' => hok w' w'' a hle hle' htold⟩⟩

end Keeps

end Keeps

/-! ## 3. Services -/

/-- Servers: how a request may be handled, with no answer if the connection breaks, and what else
    happens. -/
structure Service (σ Q A ε : Type) where
  init : σ → Prop
  serve : σ → Q → Option A → σ → Prop
  happen : σ → ε → σ → Prop

/-- The servers, the talks under way, and the requests whose senders gave up. -/
structure Talking (ι σ Q A α : Type) where
  servers : σ
  talks : ι → Option (Talk Q A α)
  stray : List Q

inductive TalkEvent (ι Q A ε : Type) where
  | started (c : ι)
  | answered (c : ι) (q : Q) (a : A)
  /-- The sender learns that something went wrong. Its request may still be on the way. -/
  | gaveUp (c : ι) (q : Q) (e : String)
  /-- A stray request is handled. -/
  | strayed (q : Q) (a : Option A)
  | happened (x : ε)

namespace Service

variable {ι σ Q A α ε : Type} [DecidableEq ι]

/-- Any number of talks, of those that `starts` allows. -/
inductive Step (S : Service σ Q A ε) (starts : ι → Talk Q A α → Prop) :
    Talking ι σ Q A α → TalkEvent ι Q A ε → Talking ι σ Q A α → Prop where
  | started {n : Talking ι σ Q A α} {c : ι} {t : Talk Q A α} (hidle : n.talks c = none)
      (h : starts c t) :
      Step S starts n (.started c) { n with talks := Function.update n.talks c (some t) }
  | answered {n : Talking ι σ Q A α} {c : ι} {q : Q} {k : Except String A → Talk Q A α} {a : A}
      {s : σ} (hc : n.talks c = some (.send q k)) (h : S.serve n.servers q (some a) s) :
      Step S starts n (.answered c q a)
        { n with servers := s, talks := Function.update n.talks c (some (k (.ok a))) }
  | gaveUp {n : Talking ι σ Q A α} {c : ι} {q : Q} {k : Except String A → Talk Q A α} (e : String)
      (hc : n.talks c = some (.send q k)) :
      Step S starts n (.gaveUp c q e)
        { n with talks := Function.update n.talks c (some (k (.error e))), stray := q :: n.stray }
  | strayed {n : Talking ι σ Q A α} {q : Q} {a : Option A} {s : σ} (hq : q ∈ n.stray)
      (h : S.serve n.servers q a s) : Step S starts n (.strayed q a) { n with servers := s }
  | happened {n : Talking ι σ Q A α} {x : ε} {s : σ} (h : S.happen n.servers x s) :
      Step S starts n (.happened x) { n with servers := s }

def lts (S : Service σ Q A ε) (starts : ι → Talk Q A α → Prop) :
    Lts (Talking ι σ Q A α) (TalkEvent ι Q A ε) where
  init n := S.init n.servers ∧ (∀ c, n.talks c = none) ∧ n.stray = []
  step := Step S starts

variable {W : Type} [Preorder W] {S : Service σ Q A ε} {starts : ι → Talk Q A α → Prop}
  {C : Contract W Q A} {R : W → σ → Prop} {P : ι → W → Except String α → Prop}

/-- Everything that is under way keeps its contract. -/
structure Kept (C : Contract W Q A) (P : ι → W → Except String α → Prop) (w : W)
    (n : Talking ι σ Q A α) : Prop where
  talks {c : ι} {t : Talk Q A α} (h : n.talks c = some t) : Keeps C (P c) t w
  stray {q : Q} (h : q ∈ n.stray) : C.may w q

theorem Kept.update {w w' : W} {n : Talking ι σ Q A α} (h : Kept C P w n) (hle : w ≤ w') {c : ι}
    {t : Talk Q A α} (ht : Keeps C (P c) t w') (s : σ) :
    Kept C P w' { n with servers := s, talks := Function.update n.talks c (some t) } where
  talks {c' t'} h' := by
    change Function.update n.talks c (some t) c' = some t' at h'
    by_cases hc : c' = c
    · subst hc
      rw [Function.update_self] at h'
      cases h'
      exact ht
    · rw [Function.update_of_ne hc] at h'
      exact (h.talks h').later hle
  stray hq := C.may_mono hle (h.stray hq)

omit [DecidableEq ι] in
theorem Kept.servers {w w' : W} {n : Talking ι σ Q A α} (h : Kept C P w n) (hle : w ≤ w') (s : σ) :
    Kept C P w' { n with servers := s } :=
  ⟨fun h' => (h.talks h').later hle, fun hq => C.may_mono hle (h.stray hq)⟩

/-- **Contracts are kept.** Where every request that may be made moves the servers on to a later world,
    with an answer that tells what the contract says, and so does everything else that happens, every
    continuation of a run in which the talks keep their contract, and those that start later will, ends
    in such a world. -/
theorem kept_steps (hserve : ∀ w s q a s', R w s → C.may w q → S.serve s q a s' →
      ∃ w', w ≤ w' ∧ R w' s' ∧ ∀ r, a = some r → C.told w w' q r)
    (hhappen : ∀ w s x s', R w s → S.happen s x s' → ∃ w', w ≤ w' ∧ R w' s')
    {w₀ : W} {n₀ n : Talking ι σ Q A α} {history : List (TalkEvent ι Q A ε)}
    (h : (S.lts starts).Steps n₀ history n) (hR₀ : R w₀ n₀.servers) (hkept₀ : Kept C P w₀ n₀)
    (hstart : ∀ c t w, w₀ ≤ w → n₀.talks c = none → starts c t → Keeps C (P c) t w) :
    ∃ w, w₀ ≤ w ∧ R w n.servers ∧ Kept C P w n := by
  -- a talk that was under way is never idle again
  let I : List (TalkEvent ι Q A ε) → Talking ι σ Q A α → Prop := fun _ n =>
    (∀ c, n.talks c = none → n₀.talks c = none) ∧ ∃ w, w₀ ≤ w ∧ R w n.servers ∧ Kept C P w n
  have hbusy : ∀ (n : Talking ι σ Q A α) c t, (∀ c, n.talks c = none → n₀.talks c = none) →
      ∀ c', Function.update n.talks c (some t) c' = none → n₀.talks c' = none := by
    intro n c t hidle c' hc'
    by_cases hc : c' = c
    · subst hc
      rw [Function.update_self] at hc'
      cases hc'
    · rw [Function.update_of_ne hc] at hc'
      exact hidle c' hc'
  refine (h.invariant (I := I) ⟨fun _ => id, w₀, le_rfl, hR₀, hkept₀⟩ fun _ n ev n' _ hn hstep => ?_).2
  obtain ⟨hidle, w, hle₀, hR, hkept⟩ := hn
  cases hstep with
  | started hc ht =>
    exact ⟨hbusy _ _ _ hidle, w, hle₀, hR,
      hkept.update le_rfl (hstart _ _ w hle₀ (hidle _ hc) ht) _⟩
  | answered hc hq =>
    obtain ⟨hmay, hnext⟩ := hkept.talks hc
    obtain ⟨w', hle, hR', htold⟩ := hserve _ _ _ _ _ hR hmay hq
    exact ⟨hbusy _ _ _ hidle, w', le_trans hle₀ hle, hR',
      hkept.update hle ((hnext w' hle).2 _ (htold _ rfl)) _⟩
  | gaveUp e hc =>
    obtain ⟨hmay, hnext⟩ := hkept.talks hc
    have hkept' := hkept.update le_rfl ((hnext w le_rfl).1 e) n.servers
    refine ⟨hbusy _ _ _ hidle, w, hle₀, hR, hkept'.talks, fun {q} hq => ?_⟩
    rcases List.mem_cons.mp hq with rfl | hq
    · exact hmay
    · exact hkept.stray hq
  | strayed hq hs =>
    obtain ⟨w', hle, hR', -⟩ := hserve _ _ _ _ _ hR (hkept.stray hq) hs
    exact ⟨hidle, w', le_trans hle₀ hle, hR', hkept.servers hle _⟩
  | happened hs =>
    obtain ⟨w', hle, hR'⟩ := hhappen _ _ _ _ hR hs
    exact ⟨hidle, w', le_trans hle₀ hle, hR', hkept.servers hle _⟩

omit [DecidableEq ι] in
/-- At the start there is nothing under way. -/
theorem Kept.start {w : W} {n : Talking ι σ Q A α} (hidle : ∀ c, n.talks c = none)
    (hstray : n.stray = []) : Kept C P w n := by
  refine ⟨fun {c t} h => ?_, fun hq => ?_⟩
  · rw [hidle c] at h
    cases h
  · rw [hstray] at hq
    cases hq

/-- **Every run keeps the contract**, from servers that start in some world. -/
theorem kept_run (hinit : ∀ s, S.init s → ∃ w, R w s)
    (hserve : ∀ w s q a s', R w s → C.may w q → S.serve s q a s' →
      ∃ w', w ≤ w' ∧ R w' s' ∧ ∀ r, a = some r → C.told w w' q r)
    (hhappen : ∀ w s x s', R w s → S.happen s x s' → ∃ w', w ≤ w' ∧ R w' s')
    (hstart : ∀ c t w, starts c t → Keeps C (P c) t w)
    {history : List (TalkEvent ι Q A ε)} {n : Talking ι σ Q A α}
    (h : (S.lts starts).Run history n) : ∃ w, R w n.servers ∧ Kept C P w n := by
  obtain ⟨n₀, ⟨hs, hidle, hstray⟩, hsteps⟩ := h.exists_steps
  obtain ⟨w₀, hR₀⟩ := hinit _ hs
  obtain ⟨w, -, hR, hkept⟩ := kept_steps hserve hhappen hsteps hR₀ (Kept.start hidle hstray)
    fun c t w _ _ => hstart c t w
  exact ⟨w, hR, hkept⟩

end Service

end Flour.Lib
