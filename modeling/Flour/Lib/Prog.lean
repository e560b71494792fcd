/-
  File:      Flour/Lib/Prog.lean
  Subject:   Programs on a state that can panic, fail or return, and their weakest preconditions.
             Names nothing of the program.

  * `Prog σ α` -- a panic leaves nothing; a failure leaves the state it happened in, so nothing is
    rolled back by itself;
  * `attempt` -- a block whose failure is a value, with a variable of its own that survives it;
    `zoom` -- a program on a part of the state; `forEach` -- a loop over a list;
  * `wp x Q E s` -- from `s`, `x` does not panic, ends in `Q` when it returns and in `E` when it
    fails. There is one rule for each construct, an equivalence, so nothing is lost by taking a
    program apart; `wp_forEach` and `wp.mono` are the rules of loops and of consequence. `wlp`
    admits a panic;
  * `Keeps I x` -- `I` is kept in whichever way `x` ends, with a rule for each construct;
  * `bind_congr_run` -- two programs run alike from a state: with `ensure`, that assertions which
    hold wherever they are reached can be taken out.
-/
import Mathlib.Logic.Basic

namespace Flour.Lib

/-- A program on states `σ`: `none` is a panic, `.error` a failure with a message. -/
def Prog (σ α : Type) : Type := σ → Option (Except String α × σ)

namespace Prog

variable {σ τ α β : Type}

instance : Monad (Prog σ) where
  pure a := fun s => some (.ok a, s)
  bind x f := fun s =>
    match x s with
    | none => none
    | some (.error e, s') => some (.error e, s')
    | some (.ok a, s') => f a s'

/-- A primitive operation, by what it does. -/
def of (f : σ → Option (Except String α × σ)) : Prog σ α := f

def get : Prog σ σ := fun s => some (.ok s, s)

def modify (f : σ → σ) : Prog σ Unit := fun s => some (.ok (), f s)

def fail (e : String) : Prog σ α := fun s => some (.error e, s)

def crash : Prog σ α := fun _ => none

/-- A value, or a panic. -/
def ofOption (o : Option α) : Prog σ α := fun s => o.map fun a => (.ok a, s)

/-- A value, or a failure. -/
def ofExcept (r : Except String α) : Prog σ α := fun s => some (r, s)

/-- A program on a part of the state. -/
def zoom (get : τ → σ) (set : τ → σ → τ) (x : Prog σ α) : Prog τ α := fun t =>
  (x (get t)).map fun r => (r.1, set t r.2)

/-- Runs a block with a variable of its own; a failure of the block is a value, and the variable
    is returned in both cases. -/
def attempt (b : β) (x : Prog (β × σ) α) : Prog σ (Except String α × β) := fun s =>
  (x (b, s)).map fun r => (.ok (r.1, r.2.1), r.2.2)

/-- A block whose failure is a value. -/
def catching (x : Prog σ α) : Prog σ (Except String α) := fun s =>
  (x s).map fun r => (.ok r.1, r.2)

/-- Runs a program with a variable of its own, which ends with it. -/
def within (b : β) (x : Prog (β × σ) α) : Prog σ α := fun s =>
  (x (b, s)).map fun r => (r.1, r.2.2)

/-- `for a in l { f a }`. -/
def forEach (f : α → Prog σ Unit) : List α → Prog σ Unit
  | [] => pure ()
  | a :: l => do
    f a
    forEach f l

/-! ## 1. Weakest preconditions -/

def wp (x : Prog σ α) (Q : α → σ → Prop) (E : String → σ → Prop) (s : σ) : Prop :=
  match x s with
  | none => False
  | some (.error e, s') => E e s'
  | some (.ok a, s') => Q a s'

variable {x : Prog σ α} {Q Q' : α → σ → Prop} {E E' : String → σ → Prop} {s : σ}

/-- Preconditions can be evaluated where the postconditions can. -/
instance [hQ : ∀ a s, Decidable (Q a s)] [hE : ∀ e s, Decidable (E e s)] : Decidable (wp x Q E s) :=
  match h : x s with
  | none => isFalse (by unfold wp; rw [h]; exact id)
  | some (.error e, s') => decidable_of_iff (E e s') (by unfold wp; rw [h])
  | some (.ok a, s') => decidable_of_iff (Q a s') (by unfold wp; rw [h])

@[simp] theorem wp_pure (a : α) : wp (pure a) Q E s ↔ Q a s := Iff.rfl

theorem wp_of_eq_ok {f : σ → Option (Except String α × σ)} {a : α} {s' : σ}
    (h : f s = some (.ok a, s')) : wp (of f) Q E s ↔ Q a s' := by
  unfold wp of
  rw [h]

theorem wp_of_eq_error {f : σ → Option (Except String α × σ)} {e : String} {s' : σ}
    (h : f s = some (.error e, s')) : wp (of f) Q E s ↔ E e s' := by
  unfold wp of
  rw [h]

@[simp] theorem wp_get {Q : σ → σ → Prop} : wp get Q E s ↔ Q s s := Iff.rfl

@[simp] theorem wp_modify {Q : Unit → σ → Prop} (f : σ → σ) :
    wp (modify f) Q E s ↔ Q () (f s) := Iff.rfl

@[simp] theorem wp_fail (e : String) : wp (fail e) Q E s ↔ E e s := Iff.rfl

@[simp] theorem wp_crash : wp crash Q E s ↔ False := Iff.rfl

@[simp] theorem wp_bind {Q : β → σ → Prop} (x : Prog σ α) (f : α → Prog σ β) :
    wp (x >>= f) Q E s ↔ wp x (fun a => wp (f a) Q E) E s := by
  unfold wp
  show (match (match x s with
      | none => none
      | some (.error e, s') => some (.error e, s')
      | some (.ok a, s') => f a s' : Option (Except String β × σ)) with
    | none => False
    | some (.error e, s') => E e s'
    | some (.ok a, s') => Q a s') ↔ _
  rcases x s with _ | ⟨_ | a, s'⟩ <;> rfl

@[simp] theorem wp_ofOption_some (a : α) : wp (ofOption (some a)) Q E s ↔ Q a s := Iff.rfl

theorem wp_ofExcept (r : Except String α) :
    wp (ofExcept r) Q E s ↔ match r with
      | .ok a => Q a s
      | .error e => E e s := by
  cases r <;> rfl

@[simp] theorem wp_zoom {Q : α → τ → Prop} {E : String → τ → Prop} {t : τ} (get : τ → σ)
    (set : τ → σ → τ) (x : Prog σ α) :
    wp (zoom get set x) Q E t ↔
      wp x (fun a s => Q a (set t s)) (fun e s => E e (set t s)) (get t) := by
  unfold wp zoom
  rcases x (get t) with _ | ⟨_ | a, s'⟩ <;> rfl

@[simp] theorem wp_attempt {Q : Except String α × β → σ → Prop} (b : β) (x : Prog (β × σ) α) :
    wp (attempt b x) Q E s ↔
      wp x (fun a p => Q (.ok a, p.1) p.2) (fun e p => Q (.error e, p.1) p.2) (b, s) := by
  unfold wp attempt
  rcases x (b, s) with _ | ⟨_ | a, s'⟩ <;> rfl

@[simp] theorem wp_catching {Q : Except String α → σ → Prop} (x : Prog σ α) :
    wp (catching x) Q E s ↔ wp x (fun a => Q (.ok a)) (fun e => Q (.error e)) s := by
  unfold wp catching
  rcases x s with _ | ⟨_ | a, s'⟩ <;> rfl

@[simp] theorem wp_within (b : β) (x : Prog (β × σ) α) :
    wp (within b x) Q E s ↔ wp x (fun a p => Q a p.2) (fun e p => E e p.2) (b, s) := by
  unfold wp within
  rcases x (b, s) with _ | ⟨_ | a, s'⟩ <;> rfl

/-- A check that fails the program. -/
theorem wp_guard {p : Prop} [Decidable p] {e : String} {x : Prog σ α} (hp : p → E e s)
    (hx : ¬ p → wp x Q E s) : wp (if p then fail e else x) Q E s := by
  by_cases h : p
  · rw [if_pos h]
    exact hp h
  · rw [if_neg h]
    exact hx h

/-- A check that two programs make. -/
theorem wp_guard_congr {p : Prop} [Decidable p] {e : String} {x y : Prog σ α} {s' : σ}
    (hE : E e s ↔ E' e s') (h : wp x Q E s ↔ wp y Q' E' s') :
    wp (if p then fail e else x) Q E s ↔ wp (if p then fail e else y) Q' E' s' := by
  split
  · exact hE
  · exact h

/-- **The rule of consequence.** -/
theorem wp.mono {x : Prog σ α} (h : wp x Q E s) (hQ : ∀ a s', Q a s' → Q' a s')
    (hE : ∀ e s', E e s' → E' e s') : wp x Q' E' s := by
  unfold wp at h ⊢
  split at h
  · exact h
  · exact hE _ _ h
  · exact hQ _ _ h

theorem wp_congr (hQ : ∀ a s', Q a s' ↔ Q' a s') (hE : ∀ e s', E e s' ↔ E' e s') :
    wp x Q E s ↔ wp x Q' E' s :=
  ⟨fun h => h.mono (fun a s' => (hQ a s').mp) fun e s' => (hE e s').mp,
    fun h => h.mono (fun a s' => (hQ a s').mpr) fun e s' => (hE e s').mpr⟩

/-- The same, for the results that the program has. -/
theorem wp_congr_run (hQ : ∀ a s', x s = some (.ok a, s') → (Q a s' ↔ Q' a s'))
    (hE : ∀ e s', x s = some (.error e, s') → (E e s' ↔ E' e s')) :
    wp x Q E s ↔ wp x Q' E' s := by
  unfold wp
  split
  · exact Iff.rfl
  · exact hE _ _ ‹_›
  · exact hQ _ _ ‹_›

/-- Two facts about one program. -/
theorem wp.and {x : Prog σ α} (h : wp x Q E s) (h' : wp x Q' E' s) :
    wp x (fun a s => Q a s ∧ Q' a s) (fun e s => E e s ∧ E' e s) s := by
  unfold wp at h h' ⊢
  split at h <;> simp_all

/-- **The rule of loops**: `I` holds of the elements still to come. -/
theorem wp_forEach {f : α → Prog σ Unit} {I : List α → σ → Prop} {l : List α}
    (hstep : ∀ a rest s, I (a :: rest) s → wp (f a) (fun _ s' => I rest s') E s)
    (h : I l s) : wp (forEach f l) (fun _ s' => I [] s') E s := by
  induction l generalizing s with
  | nil => exact h
  | cons a l ih =>
    show wp (f a >>= fun _ => forEach f l) _ _ _
    rw [wp_bind]
    exact (hstep a l s h).mono (fun _ _ h' => ih h') fun _ _ h' => h'

/-- `wp`, or a panic. -/
def wlp (x : Prog σ α) (Q : α → σ → Prop) (E : String → σ → Prop) (s : σ) : Prop :=
  x s = none ∨ wp x Q E s

theorem wlp_bind {x : Prog σ α} {f : α → Prog σ β} {Q : β → σ → Prop}
    (h : wlp x (fun a => wlp (f a) Q E) E s) : wlp (x >>= f) Q E s := by
  unfold wlp wp at h ⊢
  show (match x s with
    | none => none
    | some (.error e, s') => some (.error e, s')
    | some (.ok a, s') => f a s' : Option (Except String β × σ)) = none ∨ (match (match x s with
      | none => none
      | some (.error e, s') => some (.error e, s')
      | some (.ok a, s') => f a s' : Option (Except String β × σ)) with
    | none => False
    | some (.error e, s') => E e s'
    | some (.ok a, s') => Q a s')
  rcases hx : x s with _ | ⟨_ | a, s'⟩ <;> simp_all

theorem wlp_zoom {Q : α → τ → Prop} {E : String → τ → Prop} {t : τ} {get : τ → σ}
    {set : τ → σ → τ} {x : Prog σ α}
    (h : wlp x (fun a s => Q a (set t s)) (fun e s => E e (set t s)) (get t)) :
    wlp (zoom get set x) Q E t := by
  refine h.imp (fun h => ?_) (wp_zoom get set x).mpr
  unfold zoom
  rw [h]
  rfl

theorem wlp_within {b : β} {x : Prog (β × σ) α}
    (h : wlp x (fun a p => Q a p.2) (fun e p => E e p.2) (b, s)) : wlp (within b x) Q E s := by
  refine h.imp (fun h => ?_) (wp_within b x).mpr
  unfold within
  rw [h]
  rfl

/-- What is known of a program with its variable is known of the program on both. -/
theorem wlp_of_within {b : β} {x : Prog (β × σ) α} (h : wlp (within b x) Q E s) :
    wlp x (fun a p => Q a p.2) (fun e p => E e p.2) (b, s) :=
  h.imp Option.map_eq_none_iff.mp (wp_within b x).mp

theorem wlp_catching {Q : Except String α → σ → Prop} {x : Prog σ α}
    (h : wlp x (fun a => Q (.ok a)) (fun e => Q (.error e)) s) : wlp (catching x) Q E s := by
  refine h.imp (fun h => ?_) (wp_catching x).mpr
  unfold catching
  rw [h]
  rfl

theorem wlp_ofExcept {r : Except String α} (hQ : ∀ a, r = .ok a → Q a s)
    (hE : ∀ e, r = .error e → E e s) : wlp (ofExcept r) Q E s := by
  cases r with
  | ok a => exact Or.inr (hQ a rfl)
  | error e => exact Or.inr (hE e rfl)

theorem wlp_guard {p : Prop} [Decidable p] {e : String} {x : Prog σ α} (hp : p → E e s)
    (hx : ¬ p → wlp x Q E s) : wlp (if p then fail e else x) Q E s := by
  by_cases h : p
  · rw [if_pos h]
    exact Or.inr (hp h)
  · rw [if_neg h]
    exact hx h

theorem wlp.mono {x : Prog σ α} (h : wlp x Q E s) (hQ : ∀ a s', Q a s' → Q' a s')
    (hE : ∀ e s', E e s' → E' e s') : wlp x Q' E' s :=
  h.imp_right fun h => h.mono hQ hE

/-- Whatever a program does, it panics, fails or returns. -/
theorem wlp_trivial (x : Prog σ α) : wlp x (fun _ _ => True) (fun _ _ => True) s := by
  unfold wlp wp
  rcases x s with _ | ⟨_ | a, s'⟩ <;> simp

/-! ## 2. From preconditions to results -/

/-- What a sequence that returned went through. -/
protected theorem bind_eq_ok {x : Prog σ α} {f : α → Prog σ β} {b : β} {s' : σ} :
    (x >>= f) s = some (.ok b, s') ↔
      ∃ a s₁, x s = some (.ok a, s₁) ∧ f a s₁ = some (.ok b, s') := by
  show (match x s with
    | none => none
    | some (.error e, s') => some (.error e, s')
    | some (.ok a, s') => f a s' : Option (Except String β × σ)) = _ ↔ _
  rcases x s with _ | ⟨_ | a, s₁⟩
  · exact ⟨fun h => (by cases h), fun ⟨_, _, h, _⟩ => (by cases h)⟩
  · exact ⟨fun h => (by cases h), fun ⟨_, _, h, _⟩ => (by cases h)⟩
  · exact ⟨fun h => ⟨a, s₁, rfl, h⟩, fun ⟨_, _, h, hf⟩ => (by cases h; exact hf)⟩

/-- A program whose value is not used ends as it does. -/
theorem discard_eq_some {x : Prog σ α} {r : Except String Unit} {s' : σ} :
    (x >>= fun _ => pure ()) s = some (r, s') ↔
      ∃ r₀, x s = some (r₀, s') ∧ r = r₀.map fun _ => () := by
  show (match x s with
    | none => none
    | some (.error e, s') => some (.error e, s')
    | some (.ok _, s') => some (.ok (), s') : Option (Except String Unit × σ)) = some (r, s') ↔ _
  rcases x s with _ | ⟨e | a, s₁⟩
  · simp
  · constructor
    · intro h
      cases h
      exact ⟨.error e, rfl, rfl⟩
    · rintro ⟨_, h, rfl⟩
      cases h
      rfl
  · constructor
    · intro h
      cases h
      exact ⟨.ok a, rfl, rfl⟩
    · rintro ⟨_, h, rfl⟩
      cases h
      rfl

theorem discard_run {x : Prog σ α} {r : Except String α} {s' : σ} (h : x s = some (r, s')) :
    ∃ r', (x >>= fun _ => pure ()) s = some (r', s') := ⟨_, discard_eq_some.mpr ⟨r, h, rfl⟩⟩

@[simp] theorem pure_eq_ok {a b : α} {s' : σ} :
    (pure a : Prog σ α) s = some (.ok b, s') ↔ a = b ∧ s = s' := by
  show (some (Except.ok a, s) : Option (Except String α × σ)) = _ ↔ _
  simp

theorem ofExcept_eq_ok {r : Except String α} {a : α} {s' : σ} :
    ofExcept r s = some (.ok a, s') ↔ r = .ok a ∧ s = s' := by
  unfold ofExcept
  simp

/-- A run on a part of the state. -/
theorem zoom_eq_some {get : τ → σ} {set : τ → σ → τ} {x : Prog σ α} {t t' : τ}
    {r : Except String α} :
    zoom get set x t = some (r, t') ↔ ∃ s', x (get t) = some (r, s') ∧ set t s' = t' := by
  constructor
  · intro h
    obtain ⟨⟨r₁, s'⟩, hr, heq⟩ := Option.map_eq_some_iff.mp h
    cases heq
    exact ⟨s', hr, rfl⟩
  · rintro ⟨s', hr, rfl⟩
    exact Option.map_eq_some_iff.mpr ⟨(r, s'), hr, rfl⟩

/-- What a run that returned says. -/
theorem wp.of_ok {x : Prog σ α} (h : wp x Q E s) {a : α} {s' : σ}
    (hx : x s = some (.ok a, s')) : Q a s' := by
  unfold wp at h
  rwa [hx] at h

/-- What a run that failed says. -/
theorem wp.of_error {x : Prog σ α} (h : wp x Q E s) {e : String} {s' : σ}
    (hx : x s = some (.error e, s')) : E e s' := by
  unfold wp at h
  rwa [hx] at h

/-- What holds of the state a run left behind, whether it returned or failed. -/
theorem wp.of_end {x : Prog σ α} {I : σ → Prop} (h : wp x (fun _ => I) (fun _ => I) s)
    {r : Except String α} {s' : σ} (hx : x s = some (r, s')) : I s' := by
  cases r with
  | ok a => exact h.of_ok hx
  | error e => exact h.of_error hx

theorem wlp.of_end {x : Prog σ α} {I : σ → Prop} (h : wlp x (fun _ => I) (fun _ => I) s)
    {r : Except String α} {s' : σ} (hx : x s = some (r, s')) : I s' := by
  rcases h with h | h
  · rw [h] at hx
    cases hx
  · exact h.of_end hx

theorem wlp.of_ok {x : Prog σ α} (h : wlp x Q E s) {a : α} {s' : σ}
    (hx : x s = some (.ok a, s')) : Q a s' := by
  rcases h with h | h
  · rw [h] at hx
    cases hx
  · exact h.of_ok hx

theorem wlp.of_error {x : Prog σ α} (h : wlp x Q E s) {e : String} {s' : σ}
    (hx : x s = some (.error e, s')) : E e s' := by
  rcases h with h | h
  · rw [h] at hx
    cases hx
  · exact h.of_error hx

theorem wp.ne_none {x : Prog σ α} (h : wp x Q E s) : x s ≠ none := by
  intro hx
  unfold wp at h
  rwa [hx] at h

/-- A program that does not panic returns or fails. -/
theorem wp.exists {x : Prog σ α} (h : wp x Q E s) :
    (∃ a s', x s = some (.ok a, s') ∧ Q a s') ∨ ∃ e s', x s = some (.error e, s') ∧ E e s' := by
  unfold wp at h
  split at h
  · exact h.elim
  · rename_i e s' hx
    exact Or.inr ⟨e, s', hx, h⟩
  · rename_i a s' hx
    exact Or.inl ⟨a, s', hx, h⟩

/-- A program that cannot fail returns. -/
theorem wp.returns {x : Prog σ α} (h : wp x Q (fun _ _ => False) s) :
    ∃ a s', x s = some (.ok a, s') ∧ Q a s' :=
  h.exists.resolve_right fun ⟨_, _, _, hf⟩ => hf

/-- A program that cannot return fails. -/
theorem wp.fails {x : Prog σ α} (h : wp x (fun _ _ => False) E s) :
    ∃ e s', x s = some (.error e, s') ∧ E e s' :=
  h.exists.resolve_left fun ⟨_, _, _, hf⟩ => hf

theorem wp_of_ok {x : Prog σ α} {a : α} {s' : σ} (hx : x s = some (.ok a, s')) :
    wp x Q E s ↔ Q a s' := by
  unfold wp
  rw [hx]

theorem wp_of_error {x : Prog σ α} {e : String} {s' : σ} (hx : x s = some (.error e, s')) :
    wp x Q E s ↔ E e s' := by
  unfold wp
  rw [hx]

/-- A program meets its postcondition without failing iff it returns with it. -/
theorem wp_iff_returns {x : Prog σ α} :
    wp x Q (fun _ _ => False) s ↔ ∃ a s', x s = some (.ok a, s') ∧ Q a s' :=
  ⟨wp.returns, fun ⟨_, _, hx, h⟩ => (wp_of_ok hx).mpr h⟩

theorem wp_true_iff_returns {x : Prog σ α} :
    wp x (fun _ _ => True) (fun _ _ => False) s ↔ ∃ a s', x s = some (.ok a, s') := by
  simp [wp_iff_returns]

/-- A program that does not panic, and what it does if it does not. -/
theorem wp.and_wlp {x : Prog σ α} (h : wp x Q E s) (h' : wlp x Q' E' s) :
    wp x (fun a s => Q a s ∧ Q' a s) (fun e s => E e s ∧ E' e s) s :=
  h.and (h'.resolve_left h.ne_none)

theorem wlp.and {x : Prog σ α} (h : wlp x Q E s) (h' : wlp x Q' E' s) :
    wlp x (fun a s' => Q a s' ∧ Q' a s') (fun e s' => E e s' ∧ E' e s') s :=
  h.imp_right fun h => h.and_wlp h'

/-! ## 3. What a program keeps, returning or failing -/

/-- `I` holds after the program where it held before, in whichever way it ends. -/
def Keeps (I : σ → Prop) (x : Prog σ α) : Prop := ∀ s r s', I s → x s = some (r, s') → I s'

variable {I : σ → Prop}

theorem keeps_of {f : σ → Option (Except String α × σ)}
    (h : ∀ s r s', I s → f s = some (r, s') → I s') : Keeps I (of f) := h

theorem keeps_pure (a : α) : Keeps I (pure a : Prog σ α) := by
  intro s r s' hI hx
  cases hx
  exact hI

theorem keeps_get : Keeps I (get : Prog σ σ) := by
  intro s r s' hI hx
  cases hx
  exact hI

theorem keeps_fail (e : String) : Keeps I (fail e : Prog σ α) := by
  intro s r s' hI hx
  cases hx
  exact hI

theorem keeps_modify {f : σ → σ} (h : ∀ s, I s → I (f s)) : Keeps I (modify f) := by
  intro s r s' hI hx
  cases hx
  exact h s hI

theorem keeps_ofOption (o : Option α) : Keeps I (ofOption o : Prog σ α) := by
  intro s r s' hI hx
  cases o with
  | none => cases hx
  | some a =>
    cases hx
    exact hI

theorem keeps_bind {x : Prog σ α} {f : α → Prog σ β} (hx : Keeps I x) (hf : ∀ a, Keeps I (f a)) :
    Keeps I (x >>= f) := by
  intro s r s' hI h
  have h : (match x s with
      | none => none
      | some (.error e, s₁) => some (.error e, s₁)
      | some (.ok a, s₁) => f a s₁ : Option (Except String β × σ)) = some (r, s') := h
  rcases hr : x s with _ | ⟨_ | a, s₁⟩ <;> rw [hr] at h
  · cases h
  · cases h
    exact hx _ _ _ hI hr
  · exact hf a _ _ _ (hx _ _ _ hI hr) h

theorem keeps_ite {p : Prop} [Decidable p] {x y : Prog σ α} (hx : Keeps I x) (hy : Keeps I y) :
    Keeps I (if p then x else y) := by
  split
  · exact hx
  · exact hy

theorem keeps_zoom {J : τ → Prop} {get : τ → σ} {set : τ → σ → τ} {x : Prog σ α} (hx : Keeps I x)
    (hget : ∀ t, J t → I (get t)) (hset : ∀ t s, J t → I s → J (set t s)) :
    Keeps J (zoom get set x) := by
  intro t r t' hJ h
  obtain ⟨s₁, hr, rfl⟩ := zoom_eq_some.mp h
  exact hset t s₁ hJ (hx _ _ _ (hget t hJ) hr)

theorem keeps_attempt {b : β} {x : Prog (β × σ) α} (hx : Keeps (fun p => I p.2) x) :
    Keeps I (attempt b x) := by
  intro s r s' hI h
  obtain ⟨⟨r₁, p⟩, hr, heq⟩ := Option.map_eq_some_iff.mp h
  cases heq
  exact hx (b, s) r₁ p hI hr

theorem keeps_within {b : β} {x : Prog (β × σ) α} (hx : Keeps (fun p => I p.2) x) :
    Keeps I (within b x) := by
  intro s r s' hI h
  obtain ⟨⟨r₁, p⟩, hr, heq⟩ := Option.map_eq_some_iff.mp h
  cases heq
  exact hx (b, s) r₁ p hI hr

theorem keeps_catching {x : Prog σ α} (hx : Keeps I x) : Keeps I (catching x) := by
  intro s r s' hI h
  obtain ⟨⟨r₁, s₁⟩, hr, heq⟩ := Option.map_eq_some_iff.mp h
  cases heq
  exact hx s r₁ s₁ hI hr

/-- What is kept, added to what else is known. -/
theorem wlp.and_keeps {x : Prog σ α} (h : wlp x Q E s) (hx : Keeps I x) (hI : I s) :
    wlp x (fun a s' => Q a s' ∧ I s') (fun e s' => E e s' ∧ I s') s := by
  refine h.imp_right fun h => ?_
  rcases h.exists with ⟨a, s', hr, hQ⟩ | ⟨e, s', hr, hE⟩
  · exact (wp_of_ok hr).mpr ⟨hQ, hx s _ s' hI hr⟩
  · exact (wp_of_error hr).mpr ⟨hE, hx s _ s' hI hr⟩

theorem keeps_forEach {f : α → Prog σ Unit} (hf : ∀ a, Keeps I (f a)) (l : List α) :
    Keeps I (forEach f l) := by
  induction l with
  | nil => exact keeps_pure ()
  | cons a l ih => exact keeps_bind (hf a) fun _ => ih

/-! ## 4. Programs that run alike -/

/-- Two sequences run alike where their first parts do, and what follows each result. -/
theorem bind_congr_run {x y : Prog σ α} {f g : α → Prog σ β} (hx : x s = y s)
    (hf : ∀ a s', x s = some (.ok a, s') → f a s' = g a s') : (x >>= f) s = (y >>= g) s := by
  show (match x s with
      | none => none
      | some (.error e, s') => some (.error e, s')
      | some (.ok a, s') => f a s' : Option (Except String β × σ)) =
    match y s with
      | none => none
      | some (.error e, s') => some (.error e, s')
      | some (.ok a, s') => g a s'
  rw [← hx]
  rcases hr : x s with _ | ⟨_ | a, s'⟩
  · rfl
  · rfl
  · exact hf a s' hr

theorem zoom_congr_run {x y : Prog σ α} {get : τ → σ} {set : τ → σ → τ} {t : τ}
    (h : x (get t) = y (get t)) : zoom get set x t = zoom get set y t := by
  unfold zoom
  rw [h]

theorem within_congr_run {b : β} {x y : Prog (β × σ) α} (h : x (b, s) = y (b, s)) :
    within b x s = within b y s := by
  unfold within
  rw [h]

/-- An assertion: it fails unless `p` holds. -/
def ensure (p : Prop) [Decidable p] (e : String) : Prog σ Unit := if p then pure () else fail e

/-- An assertion that holds does nothing. -/
theorem ensure_bind {p : Prop} [Decidable p] {e : String} {f : Unit → Prog σ β} (h : p) :
    (ensure p e >>= f) s = f () s := by
  unfold ensure
  rw [if_pos h]
  rfl

/-- An assertion that does not hold fails with its text. -/
theorem wp_ensure_bind {p : Prop} [Decidable p] {e : String} {f : Unit → Prog σ β} (h : ¬ p)
    {Q : β → σ → Prop} {E : String → σ → Prop} : wp (ensure p e >>= f) Q E s ↔ E e s := by
  unfold ensure
  rw [if_neg h]
  rfl

/-- What ends in whatever text it is given runs like no program without one. -/
theorem not_alike_of_alarms {x : String → Prog σ α} {y : Prog σ α}
    (h : ∀ alarm, wp (x alarm) (fun _ _ => False) (fun e _ => e = alarm) s) :
    ¬ ∀ alarm, x alarm s = y s := by
  intro halike
  obtain ⟨e, s₁, hrun, he⟩ := (h "a").fails
  obtain ⟨e', s₂, hrun', he'⟩ := (h "b").fails
  rw [halike] at hrun hrun'
  rw [hrun] at hrun'
  cases hrun'
  exact absurd (he.symm.trans he') (by decide)

end Prog

end Flour.Lib
