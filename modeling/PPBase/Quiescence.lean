import PPBase.Shield

/-!
# Calls that wait for their threads

Blocking work runs in a thread, and its caller may be cancelled while it waits. The caller goes on
waiting until the thread has stopped, and only then passes the cancellation on.

`toThreadQuiescent` gives a result that nobody will see to a clean-up function. In all runs no thread
is left when they end, and a result is either returned or released (`toThreadQuiescent_hands_over`).
The task around the thread is cancelled by nobody, as the shutdown of a loop would.
-/

universe u

namespace PPBase

namespace Quiescence

open Shield

/-- A function that runs in a thread over a shared state. -/
structure Blocking (σ ε α : Type u) where
  Place : Type u
  start : Place
  step : Place → σ → Place → σ → Prop
  outcome : Place → Option (Except ε α)

/-- How a call ends. -/
inductive Ending (ε α : Type u)
  | returned (a : α)
  | raised (e : ε)
  | cancelled

variable {σ ε α : Type u}

namespace Blocking

/-- A function that does nothing. -/
def skip : Blocking σ ε PUnit where
  Place := PUnit
  start := .unit
  step _ _ _ _ := False
  outcome _ := some (.ok .unit)

/-- The function always comes to an end. -/
def Halts (f : Blocking σ ε α) : Prop :=
  ∃ rank : f.Place → ℕ, (∀ t s t' s', f.step t s t' s' → rank t' < rank t) ∧
    ∀ t s, f.outcome t = none → ∃ t' s', f.step t s t' s'

theorem halts_skip : (skip : Blocking σ ε PUnit).Halts :=
  ⟨fun _ => 0, fun _ _ _ _ h => h.elim, fun _ _ h => nomatch h⟩

end Blocking

/-! ## A result that nobody sees -/

inductive Name
  | worker | cleanup
  deriving DecidableEq

instance : Fintype Name := ⟨{.worker, .cleanup}, by rintro (_ | _) <;> decide⟩

/-- Where `to_thread_quiescent` is : in the `try`, in the two loops of its `except` clause. -/
inductive Pc (ε α : Type u)
  | start
  | awaiting
  | draining
  | releasing (completed : α)
  | cleaning (completed : α)
  | ended (r : Ending ε α)

section

variable (function : Blocking σ ε α) (cancelCleanup : Option (α → Blocking σ ε PUnit))

/-- `cancel_cleanup(completed)` -/
def cleanupOf (completed : α) : Blocking σ ε PUnit :=
  match cancelCleanup with
  | some f => f completed
  | none => .skip

def threads : Threads σ Name where
  Place
    | .worker => function.Place
    | .cleanup => (a : α) × (cleanupOf cancelCleanup a).Place
  Outcome
    | .worker => Except ε α
    | .cleanup => Except ε PUnit
  work
    | .worker => function.step
    | .cleanup => fun t s t' s' =>
      ∃ u, t' = ⟨t.1, u⟩ ∧ (cleanupOf cancelCleanup t.1).step t.2 s u s'
  outcome
    | .worker => function.outcome
    | .cleanup => fun t => (cleanupOf cancelCleanup t.1).outcome t.2

def toThreadQuiescent : Pc ε α → Act (threads function cancelCleanup) (Pc ε α)
  | .start => .spawn .worker function.start .awaiting
  | .awaiting =>
    .await .worker (fun
      | .ok a => .ended (.returned a)
      | .error e => .ended (.raised e)) .draining
  | .draining =>
    .await .worker (fun
      | .ok a => if cancelCleanup.isSome then .releasing a else .ended .cancelled
      | .error _ => .ended .cancelled) .draining
  | .releasing a => .spawn .cleanup ⟨a, (cleanupOf cancelCleanup a).start⟩ (.cleaning a)
  | .cleaning a =>
    .await .cleanup (fun
      | .ok _ => .ended .cancelled
      | .error e => .ended (.raised e)) (.cleaning a)
  | .ended _ => .stop

/-- A call that has not begun. -/
def initial (s : σ) : Config (threads function cancelCleanup) (Pc ε α) :=
  { pc := .start, threads := fun _ => none, world := s }

variable {function cancelCleanup}
variable {c c' : Config (threads function cancelCleanup) (Pc ε α)}

/-- The clean-up of a result has ended. -/
def Cleaned (c : Config (threads function cancelCleanup) (Pc ε α)) (a : α) (o : Except ε PUnit) :
    Prop :=
  ∃ t, c.threads .cleanup = some ⟨a, t⟩ ∧ (cleanupOf cancelCleanup a).outcome t = some o

/-- Where a result of the function goes. -/
def HandedOver (c : Config (threads function cancelCleanup) (Pc ε α)) : Ending ε α → Prop
  | .returned a => Ended c .worker (.ok a) ∧ c.threads .cleanup = none
  | .raised e =>
    Ended c .worker (.error e) ∧ c.threads .cleanup = none ∨
      ∃ a, Ended c .worker (.ok a) ∧ Cleaned c a (.error e)
  | .cancelled =>
    (∃ e, Ended c .worker (.error e)) ∧ c.threads .cleanup = none ∨
      ∃ a, Ended c .worker (.ok a) ∧
        (cancelCleanup = none ∧ c.threads .cleanup = none ∨ Cleaned c a (.ok .unit))

/-- What holds at each place of the call. -/
def At (c : Config (threads function cancelCleanup) (Pc ε α)) : Pc ε α → Prop
  | .start => c.threads .worker = none ∧ c.threads .cleanup = none
  | .awaiting | .draining => c.threads .worker ≠ none ∧ c.threads .cleanup = none
  | .releasing a => Ended c .worker (.ok a) ∧ c.threads .cleanup = none
  | .cleaning a => Ended c .worker (.ok a) ∧ ∃ t, c.threads .cleanup = some ⟨a, t⟩
  | .ended r => HandedOver c r

theorem Cleaned.work {a : α} {o : Except ε PUnit} (h : Cleaned c a o) {w : Name}
    {t t' : (threads function cancelCleanup).Place w} (s' : σ) (ht : c.threads w = some t)
    (ho : (threads function cancelCleanup).outcome w t = none) :
    Cleaned { c with threads := Function.update c.threads w (some t'), world := s' } a o := by
  obtain ⟨u, hu, hou⟩ := h
  refine ⟨u, (Function.update_of_ne ?_ _ _).trans hu, hou⟩
  rintro rfl
  obtain rfl := Option.some.inj (hu.symm.trans ht)
  exact absurd (hou.symm.trans ho) nofun

theorem HandedOver.work {r : Ending ε α} (h : HandedOver c r) {w : Name}
    {t t' : (threads function cancelCleanup).Place w} (s' : σ) (ht : c.threads w = some t)
    (ho : (threads function cancelCleanup).outcome w t = none) :
    HandedOver { c with threads := Function.update c.threads w (some t'), world := s' } r := by
  cases r with
  | returned a => exact ⟨h.1.work s' ht ho, update_eq_none ht h.2⟩
  | raised e =>
    rcases h with ⟨hw, hc⟩ | ⟨a, hw, hc⟩
    · exact .inl ⟨hw.work s' ht ho, update_eq_none ht hc⟩
    · exact .inr ⟨a, hw.work s' ht ho, hc.work s' ht ho⟩
  | cancelled =>
    rcases h with ⟨⟨e, hw⟩, hc⟩ | ⟨a, hw, ⟨hnone, hc⟩ | hc⟩
    · exact .inl ⟨⟨e, hw.work s' ht ho⟩, update_eq_none ht hc⟩
    · exact .inr ⟨a, hw.work s' ht ho, .inl ⟨hnone, update_eq_none ht hc⟩⟩
    · exact .inr ⟨a, hw.work s' ht ho, .inr (hc.work s' ht ho)⟩

theorem At.work {pc : Pc ε α} (hc : At c pc) {w : Name}
    {t : (threads function cancelCleanup).Place w} (t' : (threads function cancelCleanup).Place w)
    (s' : σ) (ht : c.threads w = some t) (ho : (threads function cancelCleanup).outcome w t = none)
    (hwork : (threads function cancelCleanup).work w t c.world t' s') :
    At { c with threads := Function.update c.threads w (some t'), world := s' } pc := by
  have hnone : ∀ {w'}, c.threads w' = none → Function.update c.threads w (some t') w' = none :=
    update_eq_none ht
  cases pc with
  | start => exact ⟨hnone hc.1, hnone hc.2⟩
  | awaiting | draining => exact ⟨update_ne_none hc.1, hnone hc.2⟩
  | releasing a => exact ⟨hc.1.work s' ht ho, hnone hc.2⟩
  | cleaning a =>
    obtain ⟨hw, u, hu⟩ := hc
    refine ⟨hw.work s' ht ho, ?_⟩
    cases w with
    | worker => exact ⟨u, hu⟩
    | cleanup =>
      obtain ⟨u', rfl, -⟩ := hwork
      obtain rfl := Option.some.inj (hu.symm.trans ht)
      exact ⟨u', Function.update_self Name.cleanup _ c.threads⟩
  | ended r => exact HandedOver.work hc s' ht ho

theorem At.step (hc : At c c.pc) (hstep : Step (toThreadQuiescent function cancelCleanup) c c') :
    At c' c'.pc := by
  cases hstep with
  | @spawn w t next hact =>
    cases hpc : c.pc with
    | start =>
      rw [hpc] at hc hact
      cases hact
      exact ⟨nofun, hc.2⟩
    | releasing a =>
      rw [hpc] at hc hact
      cases hact
      exact ⟨hc.1.spawn _ _ nofun, _, rfl⟩
    | awaiting | draining | cleaning | ended =>
      rw [hpc] at hact
      cases hact
  | @resume w resume cancelled t o hact ht ho =>
    cases hpc : c.pc with
    | awaiting =>
      rw [hpc] at hc hact
      cases hact
      cases o with
      | ok a => exact ⟨⟨t, ht, ho⟩, hc.2⟩
      | error e => exact .inl ⟨⟨t, ht, ho⟩, hc.2⟩
    | draining =>
      rw [hpc] at hc hact
      cases hact
      cases o with
      | ok a =>
        dsimp only
        split_ifs with hsome
        · exact ⟨⟨t, ht, ho⟩, hc.2⟩
        · exact .inr ⟨a, ⟨t, ht, ho⟩, .inl ⟨Option.not_isSome_iff_eq_none.1 hsome, hc.2⟩⟩
      | error e => exact .inl ⟨⟨e, t, ht, ho⟩, hc.2⟩
    | cleaning a =>
      rw [hpc] at hc hact
      cases hact
      obtain ⟨hw, u, hu⟩ := hc
      obtain rfl := Option.some.inj (hu.symm.trans ht)
      cases o with
      | ok => exact .inr ⟨a, hw, .inr ⟨u, hu, ho⟩⟩
      | error e => exact .inr ⟨a, hw, u, hu, ho⟩
    | start | releasing | ended =>
      rw [hpc] at hact
      cases hact
  | @cancel w resume cancelled hact =>
    cases hpc : c.pc with
    | awaiting | draining | cleaning =>
      rw [hpc] at hc hact
      cases hact
      exact hc
    | start | releasing | ended =>
      rw [hpc] at hact
      cases hact
  | @work w t t' s' ht ho hwork => exact hc.work t' s' ht ho hwork

/-- The threads that may run at each place. -/
def live : Pc ε α → Set Name
  | .awaiting | .draining => {.worker}
  | .cleaning _ => {.cleanup}
  | .start | .releasing _ | .ended _ => ∅

theorem tracks : Tracks (toThreadQuiescent function cancelCleanup) live where
  spawn := by
    intro p w t next hact
    cases p with
    | start | releasing =>
      cases hact
      exact ⟨Set.notMem_empty _, by simp [live]⟩
    | awaiting | draining | cleaning | ended => cases hact
  resume := by
    intro p w resume cancelled hact o
    cases p with
    | awaiting | draining | cleaning =>
      cases hact
      exact fun w hw => (hw.2 hw.1).elim
    | start | releasing | ended => cases hact
  cancel := by
    intro p w resume cancelled hact
    cases p with
    | awaiting | draining | cleaning =>
      cases hact
      exact subset_rfl
    | start | releasing | ended => cases hact
  stop := by
    intro p hact
    cases p with
    | ended => rfl
    | start | awaiting | draining | releasing | cleaning => cases hact

/-- How far the call is. -/
def Pc.rank : Pc ε α → ℕ
  | .start => 5
  | .awaiting => 4
  | .draining => 3
  | .releasing _ => 2
  | .cleaning _ => 1
  | .ended _ => 0

theorem forward : Forward (toThreadQuiescent function cancelCleanup) Pc.rank where
  spawn := by
    intro p w t next hact
    cases p with
    | start | releasing =>
      cases hact
      simp [Pc.rank]
    | awaiting | draining | cleaning | ended => cases hact
  resume := by
    intro p w resume cancelled hact o
    cases p with
    | awaiting | cleaning =>
      cases hact
      cases o with
      | _ => simp [Pc.rank]
    | draining =>
      cases hact
      cases o with
      | ok a =>
        dsimp only
        split_ifs <;> simp [Pc.rank]
      | error e => simp [Pc.rank]
    | start | releasing | ended => cases hact
  cancel := by
    intro p w resume cancelled hact
    cases p with
    | awaiting =>
      cases hact
      exact .inr (by simp [Pc.rank])
    | draining | cleaning =>
      cases hact
      exact .inl rfl
    | start | releasing | ended => cases hact

theorem halts_cleanupOf (h : ∀ f, cancelCleanup = some f → ∀ a, (f a).Halts) (a : α) :
    (cleanupOf cancelCleanup a).Halts := by
  cases hf : cancelCleanup with
  | none => exact Blocking.halts_skip
  | some f => exact h f hf a

/-- A call of functions that come to an end stops, whatever cancellations there are. -/
theorem ranked (hfun : function.Halts) (hclean : ∀ a, (cleanupOf cancelCleanup a).Halts) :
    ∃ rank : Config (threads function cancelCleanup) (Pc ε α) → ℕ ×ₗ ℕ,
      Ranked (toThreadQuiescent function cancelCleanup) (fun c => At c c.pc) rank := by
  obtain ⟨rank, hrank, hnext⟩ := hfun
  choose rank' hrank' hnext' using hclean
  let place : (w : Name) → (threads function cancelCleanup).Place w → ℕ
    | .worker => rank
    | .cleanup => fun t => rank' t.1 t.2
  refine ⟨_, forward.ranked place ?_ At.step ?_⟩
  · intro w t s t' s' hwork
    cases w with
    | worker => exact hrank t s t' s' hwork
    | cleanup =>
      obtain ⟨u, rfl, hu⟩ := hwork
      exact hrank' t.1 t.2 s u s' hu
  · intro c w resume cancelled hc hact
    have hworker : ∀ t, c.threads .worker = some t → function.outcome t = none → CanWork c := by
      intro t ht ho
      obtain ⟨t', s', hstep⟩ := hnext t c.world ho
      exact ⟨.worker, t, t', s', ht, ho, hstep⟩
    cases hpc : c.pc with
    | awaiting | draining =>
      rw [hpc] at hc hact
      cases hact
      obtain ⟨t, ht⟩ := Option.ne_none_iff_exists'.1 hc.1
      exact ⟨t, ht, hworker t ht⟩
    | cleaning a =>
      rw [hpc] at hc hact
      cases hact
      obtain ⟨-, t, ht⟩ := hc
      refine ⟨_, ht, fun ho => ?_⟩
      obtain ⟨t', s', hstep⟩ := hnext' a t c.world ho
      exact ⟨.cleanup, ⟨a, t⟩, ⟨a, t'⟩, s', ht, ho, t', rfl, hstep⟩
    | start | releasing | ended =>
      rw [hpc] at hact
      cases hact

/-- In every run, when the call has ended no thread runs, and the function's result was either
returned, or given to the clean-up function, which has ended too. Wherever a run has come, the
call still ends. -/
theorem toThreadQuiescent_hands_over (s : σ) {c : Config (threads function cancelCleanup) (Pc ε α)}
    (h : Run (toThreadQuiescent function cancelCleanup) (initial function cancelCleanup s) c) :
    (∀ r, c.pc = .ended r →
      (∀ w t, c.threads w = some t →
        ∃ o, (threads function cancelCleanup).outcome w t = some o) ∧ HandedOver c r) ∧
      (function.Halts → (∀ f, cancelCleanup = some f → ∀ a, (f a).Halts) →
        ∃ c', Run (toThreadQuiescent function cancelCleanup) c c' ∧ ∃ r, c'.pc = .ended r) := by
  have hat : At c c.pc := h.invariant (I := fun c => At c c.pc) At.step ⟨rfl, rfl⟩
  refine ⟨fun r hr => ⟨?_, ?_⟩, fun hfun hclean => ?_⟩
  · refine tracks.settled ?_ h ?_
    · intro w t ht
      cases ht
    · rw [hr]
      rfl
  · rw [hr] at hat
    exact hat
  · obtain ⟨rank, hranked⟩ := ranked hfun (halts_cleanupOf hclean)
    obtain ⟨c', hrun, hstop⟩ := hranked.exists_stop hat
    refine ⟨c', hrun, ?_⟩
    cases hpc : c'.pc with
    | ended r => exact ⟨r, rfl⟩
    | start | awaiting | draining | releasing | cleaning =>
      rw [hpc] at hstop
      cases hstop

end

/-- A function that takes one step and returns. -/
def oneStep (act : σ → σ) (a : α) : Blocking σ ε α where
  Place := ULift Bool
  start := ⟨false⟩
  step t s t' s' := t.down = false ∧ t'.down = true ∧ s' = act s
  outcome t := if t.down then some (.ok a) else none

/-- An archive that is opened after its reader has been cancelled is closed again. -/
theorem late_archive_closed :
    ∃ c, Run (toThreadQuiescent (oneStep (ε := Unit) (fun _ => true) ())
        (some fun _ => oneStep (fun _ => false) .unit)) (initial _ _ false) c ∧
      c.pc = .ended .cancelled ∧ c.world = false ∧ HandedOver c .cancelled := by
  let opens : Blocking Bool Unit Unit := oneStep (fun _ => true) ()
  let closes : Unit → Blocking Bool Unit PUnit := fun _ => oneStep (fun _ => false) .unit
  let T := threads opens (some closes)
  have h₁ : Run (T := T) (toThreadQuiescent opens (some closes)) (initial _ _ false) _ :=
    .tail (.tail .refl (.spawn rfl)) (.cancel rfl)
  have h₂ := h₁.tail (.work (T := T) .worker (ULift.up true) rfl rfl ⟨rfl, rfl, rfl⟩)
  have h₃ := (h₂.tail (.resume rfl rfl rfl)).tail (.spawn rfl)
  have h₄ := h₃.tail
    (.work (T := T) .cleanup ⟨(), ULift.up true⟩ rfl rfl ⟨ULift.up true, rfl, rfl, rfl, rfl⟩)
  have h₅ := h₄.tail (.resume rfl rfl rfl)
  exact ⟨_, h₅, rfl, rfl, (((toThreadQuiescent_hands_over false h₅).1 .cancelled rfl)).2⟩

end Quiescence

end PPBase
