/-
  File:      Flour/DistKv/WriteRoom.lean
  Subject:   Whether a granted write fits: the Master's ledger of a worker against the worker's own.

  * `Calm`, `calmLts` -- the runs of the system in which nothing is lost: each worker is registered
    once, with the capacity of its own store; each granted put is written at most once; nobody
    crashes, deletes or restarts.
  * `Sites`, `Ledger` -- the invariants of these runs: where the puts of a worker go, and that the
    store of a server counts exactly the puts written to it.
  * `granted_writes_fit_iff` -- every write of a run is accepted, and every outstanding one will
    be, in any order, if and only if all the bytes ever granted on a worker fit its capacity,
    the generations that were overwritten included.
  * `overwrite_refused` -- the Master releases an overwritten generation that the worker keeps, so
    a run with one key put twice has a granted write refused.
-/
import Flour.DistKv.System
import Mathlib.Algebra.GroupWithZero.Nat
import Mathlib.Algebra.Order.BigOperators.Group.List
import Mathlib.Algebra.Order.Group.Nat

namespace Flour.DistKv

open Flour.Lib

/-! ## 1. Calm runs -/

/-- A step of a run in which nothing is lost. -/
def Calm (s : Sys) : SysEvent → Prop
  | .master (.registered _ w addr cap _) => s.master.workers.lookup w = none ∧
      cap = (s.stores (baseUrl addr)).capacityBytes ∧
      ∀ w' x, s.master.workers.lookup w' = some x → baseUrl x.addr ≠ baseUrl addr
  | .write p _ => p ∉ s.written
  | .crashed _ => False
  | .deleted _ _ _ => False
  | .restarted => False
  | _ => True

def calmLts : Lts Sys SysEvent := sysLts.restrict Calm

/-- The event is no refused write. -/
def SysEvent.Accepted : SysEvent → Prop
  | .write _ (.error _) => False
  | _ => True

/-- The event is a write. -/
def SysEvent.IsWrite : SysEvent → Prop
  | .write _ _ => True
  | _ => False

/-- The bytes of the puts in a list that meet `q`. -/
def bytesOf (q : Put → Bool) (l : List Put) : ℕ := ((l.filter q).map fun p => p.bytes.length).sum

/-- All bytes ever granted on worker `w`, overwritten generations included. -/
def grantedBytes (s : Sys) (w : WorkerId) : ℕ := bytesOf (fun p => p.start.workerId = w) s.puts

/-- What was granted on a worker fits its capacity. -/
def NotOversold (s : Sys) : Prop :=
  ∀ w x, s.master.workers.lookup w = some x → grantedBytes s w ≤ x.capacityBytes

section BytesOf

variable {q q' : Put → Bool} {l l' : List Put}

theorem bytesOf_cons (p : Put) (l : List Put) :
    bytesOf q (p :: l) = (if q p then p.bytes.length else 0) + bytesOf q l := by
  unfold bytesOf
  by_cases hq : q p
  · simp [hq]
  · simp [hq]

theorem bytesOf_congr (h : ∀ p ∈ l, q p = q' p) : bytesOf q l = bytesOf q' l := by
  unfold bytesOf
  rw [List.filter_congr h]

theorem bytesOf_le_of_subperm (h : l.Subperm l') : bytesOf q l ≤ bytesOf q l' := by
  obtain ⟨m, hp, hs⟩ := h
  have h1 := ((hp.filter q).map fun p => p.bytes.length).sum_eq
  have h2 := ((hs.filter q).map fun p => p.bytes.length).sum_le_sum
  unfold bytesOf
  rw [← h1]
  exact h2 fun _ _ => Nat.zero_le _

end BytesOf

/-! ## 2. Where the puts of a worker go -/

/-- A worker's entry as far as its registration fixes it: its server and its capacity. -/
def WorkerMeta.site (x : WorkerMeta) : String × ℕ := (baseUrl x.addr, x.capacityBytes)

def Sys.site (s : Sys) (w : WorkerId) : Option (String × ℕ) :=
  (s.master.workers.lookup w).map WorkerMeta.site

theorem site_of_idle {o o' : Option WorkerMeta}
    (h : o.map WorkerMeta.idle = o'.map WorkerMeta.idle) :
    o.map WorkerMeta.site = o'.map WorkerMeta.site := by
  have hsite : WorkerMeta.site = WorkerMeta.site ∘ WorkerMeta.idle := rfl
  rw [hsite, ← Option.map_map, h, Option.map_map]

/-- A call to the Master that does not register `w` leaves its site. -/
theorem MasterStep.site {m m' : MasterState} {e : Event} (h : MasterStep m e m') {w : WorkerId}
    (hr : ¬ e.Registers w) :
    (m'.workers.lookup w).map WorkerMeta.site = (m.workers.lookup w).map WorkerMeta.site := by
  rcases h.worker w with ⟨hi, _⟩ | ⟨_, _, _, hreg, _⟩ | ⟨x, now, _, _, _, hx, hx'⟩ |
    ⟨x, _, _, _, hx, hx'⟩
  · exact site_of_idle hi
  · exact absurd hreg hr
  · rw [hx, hx']
    rfl
  · rw [hx, hx']
    rfl

/-- **All a calm step can do to the sites**: nothing, or add a new worker on a new server that has
    the capacity of its store. -/
theorem calm_site {s s' : Sys} {e : SysEvent} (hs : SysStep s e s') (hc : Calm s e) :
    (∀ w, s'.site w = s.site w) ∨
    (∃ id a c, s.site id = none ∧ (∀ w c', s.site w ≠ some (a, c')) ∧
      (s.stores a).capacityBytes = c ∧ s'.stores = s.stores ∧ s'.puts = s.puts ∧
      s'.written = s.written ∧ ∀ w, s'.site w = if w = id then some (a, c) else s.site w) := by
  cases hs with
  | @master e m' ha h =>
      cases e with
      | registered now id addr cap epoch =>
          obtain ⟨hnew, hcap, hne⟩ := hc
          refine Or.inr ⟨id, baseUrl addr, cap, ?_, ?_, hcap.symm, rfl, rfl, rfl, fun w => ?_⟩
          · rw [Sys.site, hnew]
            rfl
          · intro w c' hw
            obtain ⟨x, hx, hxs⟩ := Option.map_eq_some_iff.mp hw
            exact hne w x hx (congrArg Prod.fst hxs)
          · by_cases hw : w = id
            · subst hw
              rw [if_pos rfl]
              rcases h.worker w with ⟨_, hr, _⟩ | ⟨_, _, _, _, _, _, _⟩ | ⟨_, _, hr, _⟩ | ⟨_, hr, _⟩
              · exact absurd rfl hr
              · cases h with
                | registerWorker h =>
                    cases h
                    simp [Sys.site, WorkerMeta.site]
              · exact absurd rfl hr
              · exact absurd rfl hr
            · rw [if_neg hw]
              exact h.site fun hx => hw hx.symm
      | putStart now req reply => exact ha.elim
      | putCommit req reply => exact ha.elim
      | _ => exact Or.inl fun w => h.site fun hx => hx
  | put h => exact Or.inl fun w => (MasterStep.putStart h).site fun hx => hx
  | write _ _ => exact Or.inl fun _ => rfl
  | commit _ h => exact Or.inl fun w => (MasterStep.putCommit h).site fun hx => hx
  | crash => exact hc.elim
  | delete => exact hc.elim
  | restart => exact hc.elim

/-- Every put goes to the server of its worker, no two workers share a server, and the Master
    knows the capacity of every store. -/
structure Sites (s : Sys) : Prop where
  put : ∀ p ∈ s.puts, ∃ c, s.site p.start.workerId = some (p.server, c)
  inj : ∀ w w' a c c', s.site w = some (a, c) → s.site w' = some (a, c') → w = w'
  cap : ∀ w a c, s.site w = some (a, c) → (s.stores a).capacityBytes = c

theorem sites_start {s : Sys} (h0 : sysLts.init s) : Sites s := by
  have hnone : ∀ w, s.site w = none := fun w => by rw [Sys.site, h0.1]; rfl
  refine ⟨fun p hp => ?_, fun w _ a c _ hw => ?_, fun w a c hw => ?_⟩
  · rw [h0.2.2.1] at hp
    exact absurd hp List.not_mem_nil
  · rw [hnone] at hw
    cases hw
  · rw [hnone] at hw
    cases hw

/-- The capacity of a store is never changed by a calm step. -/
theorem calm_capacity {s s' : Sys} {e : SysEvent} (hs : SysStep s e s') (hc : Calm s e)
    (a : String) : (s'.stores a).capacityBytes = (s.stores a).capacityBytes := by
  cases hs with
  | @write p reply store hp h =>
      by_cases ha : a = p.server
      · subst ha
        have hst : (s.wrote p reply store).stores p.server = store := setStore_self _ _ _
        rw [hst]
        rcases (s.stores p.server).putBytes_cases p.key p.start.objectGeneration p.bytes with
          ⟨msg, h', _⟩ | ⟨h', _⟩ <;> (rw [h'] at h; cases h; rfl)
      · exact congrArg _ (setStore_of_ne _ ha _)
  | crash => exact hc.elim
  | delete => exact hc.elim
  | restart => exact hc.elim
  | _ => rfl

/-- A granted put goes to the site its worker has. -/
theorem put_site {s : Sys} {now : ℕ} {order : List WorkerId} {putId : PutId} {key : ObjectKey}
    {bytes : List UInt8} {preferred : Option WorkerId} {start : PutStartResponse} {m' : MasterState}
    (h : s.master.putStart now order putId ⟨key, bytes.length, preferred⟩ = (.ok start, m')) :
    ∃ c, s.site start.workerId = some (baseUrl start.workerAddr, c) := by
  rcases s.master.putStart_cases now order putId ⟨key, bytes.length, preferred⟩ with
    ⟨msg, h'⟩ | ⟨id, x, hx, _, _, h'⟩
  · rw [h'] at h
    cases h
  · rw [h'] at h
    cases h
    exact ⟨x.capacityBytes, by simp [Sys.site, MasterState.granted, hx, WorkerMeta.site]⟩

theorem sites_step {s s' : Sys} {e : SysEvent} (hI : Sites s) (hs : SysStep s e s')
    (hc : Calm s e) : Sites s' := by
  have hcap := calm_capacity hs hc
  rcases calm_site hs hc with hsame | ⟨id, a, c, hnew, hfree, hca, hst, hputs, _, hsite⟩
  · refine ⟨fun p hp => ?_, fun w w' b c c' hw hw' => ?_, fun w b c hw => ?_⟩
    · have hold : p ∈ s.puts → ∃ c, s'.site p.start.workerId = some (p.server, c) := by
        intro hp
        rw [hsame]
        exact hI.put p hp
      cases hs with
      | @put _ _ _ key bytes _ reply _ h =>
          cases reply with
          | error msg => exact hold hp
          | ok start =>
              rcases List.mem_cons.mp hp with rfl | hp
              · rw [hsame]
                exact put_site h
              · exact hold hp
      | restart => exact hc.elim
      | _ => exact hold hp
    · rw [hsame] at hw hw'
      exact hI.inj w w' b c c' hw hw'
    · rw [hsame] at hw
      rw [hcap]
      exact hI.cap w b c hw
  · refine ⟨fun p hp => ?_, fun w w' b c₁ c₂ hw hw' => ?_, fun w b c₁ hw => ?_⟩
    · rw [hputs] at hp
      obtain ⟨c₁, hp⟩ := hI.put p hp
      refine ⟨c₁, ?_⟩
      rw [hsite, if_neg]
      · exact hp
      · intro hx
        rw [hx, hnew] at hp
        cases hp
    · rw [hsite] at hw hw'
      split_ifs at hw hw' with h1 h2 h2
      · rw [h1, h2]
      · cases hw
        exact absurd hw' (hfree w' c₂)
      · cases hw'
        exact absurd hw (hfree w c₁)
      · exact hI.inj w w' b c₁ c₂ hw hw'
    · rw [hsite] at hw
      rw [hst]
      split_ifs at hw with h1
      · cases hw
        exact hca
      · exact hI.cap w b c₁ hw

/-! ## 3. What the stores count -/

/-- The store of a server holds exactly the puts written to it, and counts them. -/
structure Ledger (s : Sys) : Prop where
  current : s.past = []
  nodup : s.written.Nodup
  held : ∀ a slot b, (s.stores a).objects.lookup slot = some b →
    ∃ p ∈ s.written, p.server = a ∧ p.slot = slot
  used : ∀ a, (s.stores a).usedBytes = bytesOf (fun p => p.server = a) s.written
  fits : ∀ a, (s.stores a).usedBytes ≤ (s.stores a).capacityBytes

theorem ledger_start {s : Sys} (h0 : sysLts.init s) : Ledger s := by
  obtain ⟨_, hst, _, hpast, hw⟩ := h0
  refine ⟨hpast, by rw [hw]; exact List.nodup_nil, fun a slot b hb => ?_, fun a => ?_, fun a => ?_⟩
  · obtain ⟨id, epoch, cap, ha⟩ := hst a
    rw [ha] at hb
    cases hb
  · obtain ⟨id, epoch, cap, ha⟩ := hst a
    rw [ha, hw]
    rfl
  · obtain ⟨id, epoch, cap, ha⟩ := hst a
    rw [ha]
    exact Nat.zero_le _

/-- The slot of a put that was not written is free. -/
theorem slot_free {tr : List SysEvent} {s : Sys} (hrun : sysLts.Run tr s) (hI : Ledger s)
    {p : Put} (hp : p ∈ s.puts) (hw : p ∉ s.written) :
    (s.stores p.server).prevLen p.key p.start.objectGeneration = 0 := by
  unfold WorkerStore.prevLen
  cases hb : (s.stores p.server).objects.lookup (p.key, p.start.objectGeneration) with
  | none => rfl
  | some b =>
    obtain ⟨q, hq, _, hslot⟩ := hI.held _ _ _ hb
    have hqp := written_granted hrun q hq
    rw [hI.current, List.append_nil] at hqp
    exact absurd (put_of_slot hrun hqp hp hslot ▸ hq) hw

theorem ledger_step {tr : List SysEvent} {s s' : Sys} {e : SysEvent} (hrun : sysLts.Run tr s)
    (hI : Ledger s) (hs : SysStep s e s') (hc : Calm s e) : Ledger s' := by
  cases hs with
  | @write p reply store hp h =>
      have hp : p ∈ s.puts := hp.resolve_right fun hx => by rw [hI.current] at hx; cases hx
      have hfree := slot_free hrun hI hp hc
      have hself : (s.wrote p reply store).stores p.server = store := setStore_self _ _ _
      have hother : ∀ a, a ≠ p.server → (s.wrote p reply store).stores a = s.stores a :=
        fun a ha => setStore_of_ne _ ha _
      rcases (s.stores p.server).putBytes_cases p.key p.start.objectGeneration p.bytes with
        ⟨msg, h', _⟩ | ⟨h', _, hfit⟩
      · rw [h'] at h
        cases h
        have hall : ∀ a, (s.wrote p (.error msg) (s.stores p.server)).stores a = s.stores a := by
          intro a
          by_cases ha : a = p.server
          · rw [ha]
            exact hself
          · exact hother a ha
        refine ⟨hI.current, hI.nodup, fun a slot b hb => ?_, fun a => ?_, fun a => ?_⟩
        · rw [hall] at hb
          exact hI.held a slot b hb
        · rw [hall]
          exact hI.used a
        · rw [hall]
          exact hI.fits a
      · rw [h'] at h
        cases h
        rw [hfree, Nat.sub_zero] at hfit
        rw [hfree, Nat.sub_zero] at hself hother
        rw [hfree, Nat.sub_zero]
        refine ⟨hI.current, List.nodup_cons.mpr ⟨hc, hI.nodup⟩, fun a slot b hb => ?_,
          fun a => ?_, fun a => ?_⟩
        · by_cases ha : a = p.server
          · subst ha
            rw [hself] at hb
            by_cases hslot : slot = p.slot
            · exact ⟨p, List.mem_cons_self, rfl, hslot.symm⟩
            · have hb := (Finmap.lookup_insert_of_ne _ hslot).symm.trans hb
              obtain ⟨q, hq, hrest⟩ := hI.held _ _ _ hb
              exact ⟨q, List.mem_cons_of_mem _ hq, hrest⟩
          · rw [hother a ha] at hb
            obtain ⟨q, hq, hrest⟩ := hI.held _ _ _ hb
            exact ⟨q, List.mem_cons_of_mem _ hq, hrest⟩
        · refine Eq.trans ?_ (bytesOf_cons p s.written).symm
          by_cases ha : a = p.server
          · subst ha
            rw [hself, ← hI.used]
            simp [WorkerStore.stored, Nat.add_comm]
          · rw [hother a ha, ← hI.used]
            simp [Ne.symm ha]
        · by_cases ha : a = p.server
          · subst ha
            rw [hself]
            exact hfit
          · rw [hother a ha]
            exact hI.fits a
  | crash => exact hc.elim
  | delete => exact hc.elim
  | restart => exact hc.elim
  | _ => exact ⟨hI.current, hI.nodup, hI.held, hI.used, hI.fits⟩

theorem calm_run {tr : List SysEvent} {s : Sys} (h : calmLts.Run tr s) : Sites s ∧ Ledger s := by
  induction h with
  | start h0 => exact ⟨sites_start h0, ledger_start h0⟩
  | step h hs ih =>
    exact ⟨sites_step ih.1 hs.1 hs.2, ledger_step h.of_restrict ih.2 hs.1 hs.2⟩

/-! ## 4. Every granted write fits when nothing is oversold, and only then -/

theorem notOversold_iff_site {s : Sys} :
    NotOversold s ↔ ∀ w a c, s.site w = some (a, c) → grantedBytes s w ≤ c := by
  constructor
  · intro h w a c hw
    obtain ⟨x, hx, hxs⟩ := Option.map_eq_some_iff.mp hw
    have := h w x hx
    rwa [show x.capacityBytes = c from congrArg Prod.snd hxs] at this
  · intro h w x hx
    exact h w (baseUrl x.addr) x.capacityBytes (by rw [Sys.site, hx]; rfl)

/-- The puts of a worker are the puts that go to its server. -/
theorem grantedBytes_eq_server {s : Sys} (hI : Sites s) {w : WorkerId} {a : String} {c : ℕ}
    (hw : s.site w = some (a, c)) :
    grantedBytes s w = bytesOf (fun p => p.server = a) s.puts := by
  refine bytesOf_congr fun p hp => decide_eq_decide.mpr ?_
  obtain ⟨c', hp⟩ := hI.put p hp
  constructor
  · intro hx
    rw [hx, hw] at hp
    cases hp
    rfl
  · intro hx
    rw [hx] at hp
    exact hI.inj _ _ a c' c hp hw

/-- A granted put that was not written fits, while its worker is not oversold. -/
theorem putBytes_ok_of_notOversold {tr : List SysEvent} {s : Sys} (h : calmLts.Run tr s)
    (hns : NotOversold s) {p : Put} (hp : p ∈ s.puts) (hw : p ∉ s.written) :
    ((s.stores p.server).putBytes p.key p.start.objectGeneration p.bytes).1 = .ok () := by
  obtain ⟨hS, hL⟩ := calm_run h
  have hfree := slot_free h.of_restrict hL hp hw
  obtain ⟨c, hsite⟩ := hS.put p hp
  have hgranted := notOversold_iff_site.mp hns _ _ _ hsite
  rw [grantedBytes_eq_server hS hsite, ← hS.cap _ _ _ hsite] at hgranted
  have hsub : (p :: s.written).Subperm s.puts := by
    refine (List.nodup_cons.mpr ⟨hw, hL.nodup⟩).subperm fun q hq => ?_
    rcases List.mem_cons.mp hq with rfl | hq
    · exact hp
    · have := written_granted h.of_restrict q hq
      rwa [hL.current, List.append_nil] at this
  have hle := bytesOf_le_of_subperm (q := fun q => q.server = p.server) hsub
  rw [bytesOf_cons, ← hL.used] at hle
  simp only [decide_true, if_true] at hle
  rcases (s.stores p.server).putBytes_cases p.key p.start.objectGeneration p.bytes with
    ⟨msg, h', hbad⟩ | ⟨h', _⟩
  · rw [hfree] at hbad
    omega
  · rw [h']

/-- What was not oversold after a calm step was not before it. -/
theorem notOversold_of_step {s s' : Sys} {e : SysEvent} (hs : SysStep s e s') (hc : Calm s e)
    (hns : NotOversold s') : NotOversold s := by
  have hputs : s.puts <:+ s'.puts := by
    cases hs with
    | put _ => exact List.suffix_append _ _
    | restart => exact hc.elim
    | _ => exact List.suffix_refl _
  refine notOversold_iff_site.mpr fun w a c hw => ?_
  have hw' : s'.site w = some (a, c) := by
    rcases calm_site hs hc with hsame | ⟨id, b, d, hnew, _, _, _, _, _, hsite⟩
    · rw [hsame, hw]
    · rw [hsite, if_neg, hw]
      intro hx
      rw [hx, hnew] at hw
      cases hw
  exact (bytesOf_le_of_subperm hputs.sublist.subperm).trans
    (notOversold_iff_site.mp hns w a c hw')

/-- While nothing is oversold, every write of a calm run was accepted. -/
theorem accepted_of_notOversold {tr : List SysEvent} {s : Sys} (h : calmLts.Run tr s)
    (hns : NotOversold s) : ∀ e ∈ tr, e.Accepted := by
  induction h with
  | start _ => exact fun _ he => absurd he List.not_mem_nil
  | @step tr s s' e h hs ih =>
    obtain ⟨hs, hc⟩ := hs
    have hns := notOversold_of_step hs hc hns
    refine List.forall_mem_cons.mpr ⟨?_, ih hns⟩
    cases hs with
    | @write p reply store hp hput =>
        have hp : p ∈ s.puts := hp.resolve_right fun hx => by
          rw [(calm_run h).2.current] at hx
          cases hx
        have hok := putBytes_ok_of_notOversold h hns hp hc
        rw [hput] at hok
        cases hok
        trivial
    | _ => trivial

/-- The runs that only deliver outstanding writes. -/
def deliverLts : Lts Sys SysEvent := calmLts.restrict fun _ e => e.IsWrite

/-- Delivering writes leaves the grants and the Master. -/
theorem deliver_puts {s s' : Sys} {tr : List SysEvent} (h : deliverLts.Steps s tr s') :
    s'.puts = s.puts ∧ s'.master = s.master := by
  induction h with
  | refl => exact ⟨rfl, rfl⟩
  | step _ hs ih =>
    obtain ⟨⟨hs, _⟩, hw⟩ := hs
    cases hs with
    | write _ _ => exact ih
    | _ => exact hw.elim

/-- As long as writes are accepted, the outstanding ones can all be delivered. -/
theorem exists_delivered {tr : List SysEvent} {s : Sys}
    (hall : ∀ tr' s', deliverLts.Steps s tr' s' → ∀ e ∈ tr' ++ tr, e.Accepted) (l : List Put)
    (hl : ∀ p ∈ l, p ∈ s.puts) :
    ∃ tr' s', deliverLts.Steps s tr' s' ∧ ∀ p ∈ l, p ∈ s'.written := by
  induction l with
  | nil => exact ⟨[], s, .refl, fun _ hp => absurd hp List.not_mem_nil⟩
  | cons p l ih =>
    obtain ⟨hp, hl⟩ := List.forall_mem_cons.mp hl
    obtain ⟨tr', s', hsteps, hdone⟩ := ih hl
    by_cases hw : p ∈ s'.written
    · exact ⟨tr', s', hsteps, List.forall_mem_cons.mpr ⟨hw, hdone⟩⟩
    · rcases hput : (s'.stores p.server).putBytes p.key p.start.objectGeneration p.bytes with
        ⟨reply, store⟩
      have hp' : p ∈ s'.puts := (deliver_puts hsteps).1 ▸ hp
      have hnext := hsteps.step ⟨⟨SysStep.write (Or.inl hp') hput, hw⟩, trivial⟩
      cases reply with
      | error msg => exact (hall _ _ hnext _ List.mem_cons_self).elim
      | ok _ =>
          refine ⟨_, _, hnext, List.forall_mem_cons.mpr ⟨List.mem_cons_self, fun q hq => ?_⟩⟩
          exact List.mem_cons_of_mem _ (hdone q hq)

/-- **When granted writes fit.** In every calm run, repeated puts of one key included: every write
    of the run was accepted, and every outstanding one will be, in whatever order they arrive, if
    and only if all the bytes granted on each worker so far, the generations that were
    overwritten included, fit its capacity. -/
theorem granted_writes_fit_iff {tr : List SysEvent} {s : Sys} (h : calmLts.Run tr s) :
    (∀ tr' s', deliverLts.Steps s tr' s' → ∀ e ∈ tr' ++ tr, e.Accepted) ↔ NotOversold s := by
  constructor
  · intro hall
    obtain ⟨tr', s', hsteps, hdone⟩ := exists_delivered hall s.puts fun _ hp => hp
    obtain ⟨hputs, hmaster⟩ := deliver_puts hsteps
    have h' := h.trans hsteps.of_restrict
    obtain ⟨hS, hL⟩ := calm_run h'
    have hnd : s'.puts.Nodup := by
      have hslots := (grantedSlots_run (master_run h'.of_restrict)).2
      rw [(puts_granted h'.of_restrict).2] at hslots
      exact hslots.of_map
    refine notOversold_iff_site.mpr fun w a c hw => ?_
    have hw' : s'.site w = some (a, c) := by rw [Sys.site, hmaster]; exact hw
    have hgranted : grantedBytes s w = grantedBytes s' w := by
      rw [grantedBytes, grantedBytes, hputs]
    have hsub : s'.puts.Subperm s'.written := hnd.subperm fun p hp => hdone p (hputs ▸ hp)
    calc grantedBytes s w = bytesOf (fun p => p.server = a) s'.puts := by
          rw [hgranted, grantedBytes_eq_server hS hw']
      _ ≤ bytesOf (fun p => p.server = a) s'.written := bytesOf_le_of_subperm hsub
      _ = (s'.stores a).usedBytes := (hL.used a).symm
      _ ≤ (s'.stores a).capacityBytes := hL.fits a
      _ = c := hS.cap w a c hw'
  · intro hns tr' s' hsteps
    obtain ⟨hputs, hmaster⟩ := deliver_puts hsteps
    refine accepted_of_notOversold (h.trans hsteps.of_restrict) fun w x hx => ?_
    rw [hmaster] at hx
    rw [grantedBytes, hputs]
    exact hns w x hx

/-! ## 5. A run with an overwrite -/

/-- Two puts of one key on a worker of 3 bytes, the second overwriting the first. -/
def firstPut : Put := ⟨"k", [1, 1], ⟨1, "w1", "http://w1", 1⟩⟩
def secondPut : Put := ⟨"k", [2, 2], ⟨2, "w1", "http://w1", 2⟩⟩

/-- The first put is granted, written and committed, and the second is granted, newest first. -/
def overwriteTrace : List SysEvent :=
  [.put 1000 "k" [2, 2] none (.ok secondPut.start), .commit firstPut (.ok ()),
   .write firstPut (.ok ()), .put 1000 "k" [1, 1] none (.ok firstPut.start),
   .master (.registered 1000 "w1" "http://w1" 3 1)]

/-- One worker of 3 bytes, with nothing stored, and the Master empty. -/
def smallWorker : Sys :=
  { master := .new, stores := fun _ => .new "w1" 0 3, puts := [], past := [], written := [] }

/-- The system after `overwriteTrace`. -/
def overwriteSys : Sys :=
  { master := ((((MasterState.new.registerWorker 1000 "w1" "http://w1" 3).2.putStart 1000 ["w1"] 1
      ⟨"k", 2, none⟩).2.putCommit ⟨"k", 1⟩).2.putStart 1000 ["w1"] 2 ⟨"k", 2, none⟩).2
    stores := setStore smallWorker.stores firstPut.server
      ((WorkerStore.new "w1" 0 3).stored "k" 1 [1, 1] 2)
    puts := [secondPut, firstPut], past := [], written := [firstPut] }

theorem smallWorker_start : calmLts.Run [] smallWorker :=
  .start ⟨rfl, fun _ => ⟨"w1", 0, 3, rfl⟩, rfl, rfl, rfl⟩

theorem overwrite_run : calmLts.Run overwriteTrace overwriteSys :=
  .step (.step (.step (.step (.step smallWorker_start
    ⟨.master trivial (.registerWorker rfl), rfl, rfl, fun _ _ hx => by cases hx⟩)
    ⟨@SysStep.put _ 1000 ["w1"] 1 "k" [1, 1] none _ _ rfl, trivial⟩)
    ⟨.write (Or.inl List.mem_cons_self) rfl, List.not_mem_nil⟩)
    ⟨.commit List.mem_cons_self rfl, trivial⟩)
    ⟨@SysStep.put _ 1000 ["w1"] 2 "k" [2, 2] none _ _ rfl, trivial⟩

/-- The worker of 3 bytes was granted 4, so a write of the run is or will be refused. -/
theorem overwrite_oversold :
    ¬ ∀ tr' s', deliverLts.Steps overwriteSys tr' s' → ∀ e ∈ tr' ++ overwriteTrace, e.Accepted :=
  fun hall => absurd ((granted_writes_fit_iff overwrite_run).mp hall "w1" _ rfl) (by decide)

/-- **A granted write is refused.** The Master released the 2 bytes of the first generation when it
    granted the second; the worker still holds them, and refuses the write. -/
theorem overwrite_refused : calmLts.Run overwriteTrace overwriteSys ∧ secondPut ∈ overwriteSys.puts ∧
    secondPut ∉ overwriteSys.written ∧
    ∃ msg s', calmLts.Run (.write secondPut (.error msg) :: overwriteTrace) s' := by
  refine ⟨overwrite_run, List.mem_cons_self, by decide, ?_⟩
  have hstore : overwriteSys.stores secondPut.server =
      (WorkerStore.new "w1" 0 3).stored "k" 1 [1, 1] 2 := setStore_self _ _ _
  rcases ((WorkerStore.new "w1" 0 3).stored "k" 1 [1, 1] 2).putBytes_cases "k" 2 [2, 2] with
    ⟨msg, h, _⟩ | ⟨_, _, hfit⟩
  · exact ⟨msg, _, overwrite_run.step
      ⟨.write (Or.inl List.mem_cons_self) (by rw [hstore]; exact h),
        show secondPut ∉ overwriteSys.written by decide⟩⟩
  · exact absurd hfit (by decide)

end Flour.DistKv
