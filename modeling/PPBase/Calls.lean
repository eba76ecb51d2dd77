import Mathlib.Data.List.Basic

/-!
# System calls that can fail

A procedure is a sequence of calls, between any two of which the process may crash, and each of
which may fail without an effect. What goes wrong is said by a plan, by the place of the call
(`runCalls`). `Triple` says what holds after all calls of a sequence, and what holds wherever
else it stops; the rules build it up along the sequence (`Triple.cons`, `Triple.append`), and an
invariant holds wherever it stops (`Triple.invariant`). `Total` says that nothing but the plan can
stop a sequence.
-/

universe u v w

namespace PPBase

/-- What happens to a call. -/
inductive CallFault
  | pass
  | fail
  | crash
  deriving DecidableEq

/-- How a sequence of calls ends. -/
inductive Stop (ε : Type w)
  | done
  | raised (e : ε)
  | crashed

/-- A call with its place in the plan. A step without a place is no call, and cannot fail by
itself. -/
structure SysCall (κ : Type u) (σ : Type v) (ε : Type w) where
  place : Option κ
  /-- What the call raises when it fails. -/
  failure : ε
  act : σ → Except ε σ
  /-- Whatever the call raises is passed over. -/
  suppressed : Bool := false

variable {κ : Type u} {σ : Type v} {ε : Type w}

namespace SysCall

def fault (c : SysCall κ σ ε) (plan : κ → CallFault) : CallFault :=
  match c.place with
  | none => .pass
  | some p => plan p

/-- One call, as the plan lets it. -/
def run (c : SysCall κ σ ε) (plan : κ → CallFault) (s : σ) : Stop ε × σ :=
  match c.fault plan with
  | .crash => (.crashed, s)
  | .fail => if c.suppressed then (.done, s) else (.raised c.failure, s)
  | .pass =>
    match c.act s with
    | .ok s' => (.done, s')
    | .error e => if c.suppressed then (.done, s) else (.raised e, s)

theorem run_eq_done {c : SysCall κ σ ε} {plan : κ → CallFault} {s s' : σ}
    (hfault : c.fault plan = .pass)
    (hact : c.act s = .ok s') : c.run plan s = (.done, s') := by
  rw [run, hfault, hact]

/-- A call goes on as it should, or leaves the state as it is. -/
theorem run_cases (c : SysCall κ σ ε) (plan : κ → CallFault) (s : σ) :
    (∃ s', c.act s = .ok s' ∧ c.run plan s = (.done, s')) ∨
      c.suppressed = true ∧ c.run plan s = (.done, s) ∨
      (∃ e, c.run plan s = (.raised e, s)) ∨ c.run plan s = (.crashed, s) := by
  unfold run
  cases c.fault plan with
  | crash => exact .inr (.inr (.inr rfl))
  | fail =>
    cases hs : c.suppressed with
    | true => exact .inr (.inl ⟨rfl, rfl⟩)
    | false => exact .inr (.inr (.inl ⟨_, rfl⟩))
  | pass =>
    cases c.act s with
    | ok s' => exact .inl ⟨s', rfl, rfl⟩
    | error e =>
      cases hs : c.suppressed with
      | true => exact .inr (.inl ⟨rfl, rfl⟩)
      | false => exact .inr (.inr (.inl ⟨_, rfl⟩))

end SysCall

/-- The calls one after the other, until one stops. -/
def runCalls (plan : κ → CallFault) : List (SysCall κ σ ε) → σ → Stop ε × σ
  | [], s => (.done, s)
  | c :: cs, s =>
    match c.run plan s with
    | (.done, s') => runCalls plan cs s'
    | (.raised e, s') => (.raised e, s')
    | (.crashed, s') => (.crashed, s')

variable {plan : κ → CallFault}

theorem runCalls_next (c : SysCall κ σ ε) (cs : List (SysCall κ σ ε)) (s : σ) :
    runCalls plan (c :: cs) s =
      match c.run plan s with
      | (.done, s') => runCalls plan cs s'
      | (.raised e, s') => (.raised e, s')
      | (.crashed, s') => (.crashed, s') := rfl

variable {cs : List (SysCall κ σ ε)} {s s' : σ}

theorem runCalls_cons {c : SysCall κ σ ε} (h : c.run plan s = (.done, s')) :
    runCalls plan (c :: cs) s = runCalls plan cs s' := by
  rw [runCalls_next, h]

theorem runCalls_append {ds : List (SysCall κ σ ε)} (h : runCalls plan cs s = (.done, s')) :
    runCalls plan (cs ++ ds) s = runCalls plan ds s' := by
  induction cs generalizing s with
  | nil => rw [List.nil_append, (Prod.mk.inj h).2]
  | cons c cs ih =>
    rw [runCalls_next] at h
    rcases hc : c.run plan s with ⟨_ | e | _, s''⟩ <;> rw [hc] at h
    · rw [List.cons_append, runCalls_cons hc]
      exact ih h
    · cases h
    · cases h

/-- Calls that stop are not followed by others. -/
theorem runCalls_append_stop {ds : List (SysCall κ σ ε)} {stop : Stop ε}
    (h : runCalls plan cs s = (stop, s')) (hstop : stop ≠ .done) :
    runCalls plan (cs ++ ds) s = (stop, s') := by
  induction cs generalizing s with
  | nil => exact absurd (Prod.mk.inj h).1.symm hstop
  | cons c cs ih =>
    rw [List.cons_append, runCalls_next]
    rw [runCalls_next] at h
    rcases hc : c.run plan s with ⟨_ | e | _, s''⟩ <;> rw [hc] at h
    · exact ih h
    · exact h
    · exact h

/-- Calls whose errors are passed over raise none. -/
theorem runCalls_suppressed (plan : κ → CallFault) (h : ∀ c ∈ cs, c.suppressed = true) (s : σ) :
    ∃ s', runCalls plan cs s = (.done, s') ∨ runCalls plan cs s = (.crashed, s') := by
  induction cs generalizing s with
  | nil => exact ⟨s, .inl rfl⟩
  | cons c cs ih =>
    obtain ⟨hc, hcs⟩ := List.forall_mem_cons.1 h
    rw [runCalls_next]
    unfold SysCall.run
    rw [hc]
    cases c.fault plan with
    | crash => exact ⟨s, .inr rfl⟩
    | fail => exact ih hcs s
    | pass =>
      cases c.act s with
      | ok s' => exact ih hcs s'
      | error e => exact ih hcs s

/-- A crash is in the plan. -/
theorem runCalls_ne_crashed (hplan : ∀ p, plan p ≠ .crash) :
    runCalls plan cs s ≠ (.crashed, s') := by
  induction cs generalizing s with
  | nil => rintro ⟨⟩
  | cons c cs ih =>
    have hfault : c.fault plan ≠ .crash := by
      unfold SysCall.fault
      split
      · rintro ⟨⟩
      · exact hplan _
    rw [runCalls_next]
    rcases hc : c.run plan s with ⟨_ | e | _, s''⟩
    · exact ih
    · rintro ⟨⟩
    · unfold SysCall.run at hc
      split at hc
      · exact absurd ‹_› hfault
      · split_ifs at hc <;> cases hc
      · split at hc
        · cases hc
        · split_ifs at hc <;> cases hc

/-- What holds at the end: `Q` after all calls, `E` where they stop before. -/
def Post (Q E : σ → Prop) : Stop ε × σ → Prop
  | (.done, s) => Q s
  | (.raised _, s) => E s
  | (.crashed, s) => E s

/-- From `P` the calls lead to `Q`, and to `E` where they stop before. -/
def Triple (plan : κ → CallFault) (P : σ → Prop) (cs : List (SysCall κ σ ε)) (Q E : σ → Prop) :
    Prop :=
  ∀ s, P s → Post Q E (runCalls plan cs s)

namespace Triple

variable {P Q R E I : σ → Prop} {c : SysCall κ σ ε} {cs ds : List (SysCall κ σ ε)}

theorem nil (h : ∀ s, P s → Q s) : Triple plan P ([] : List (SysCall κ σ ε)) Q E := h

theorem append (h₁ : Triple plan P cs R E) (h₂ : Triple plan R ds Q E) :
    Triple plan P (cs ++ ds) Q E := by
  intro s hP
  have hs := h₁ s hP
  clear h₁ hP
  induction cs generalizing s with
  | nil => exact h₂ s hs
  | cons c cs ih =>
    rw [List.cons_append, runCalls_next]
    rw [runCalls_next] at hs
    rcases hc : c.run plan s with ⟨_ | e | _, s'⟩ <;> rw [hc] at hs
    · exact ih s' hs
    · exact hs
    · exact hs

theorem cons (hstop : ∀ s, P s → E s) (hs : c.suppressed = false)
    (hact : ∀ s s', P s → c.act s = .ok s' → R s') (h : Triple plan R cs Q E) :
    Triple plan P (c :: cs) Q E := by
  intro s hP
  rw [runCalls_next]
  rcases c.run_cases plan s with ⟨s', hok, hc⟩ | ⟨hsup, -⟩ | ⟨e, hc⟩ | hc
  · rw [hc]
    exact h s' (hact s s' hP hok)
  · exact absurd (hs.symm.trans hsup) Bool.false_ne_true
  · rw [hc]
    exact hstop s hP
  · rw [hc]
    exact hstop s hP

/-- What every call keeps holds wherever the calls stop. -/
theorem invariant (h : ∀ c ∈ cs, ∀ s s', I s → c.act s = .ok s' → I s') :
    Triple plan I cs I I := by
  induction cs with
  | nil => exact nil fun _ hI => hI
  | cons c cs ih =>
    obtain ⟨hact, hcs⟩ := List.forall_mem_cons.1 h
    intro s hI
    rw [runCalls_next]
    rcases c.run_cases plan s with ⟨s', hok, hc⟩ | ⟨-, hc⟩ | ⟨e, hc⟩ | hc <;> rw [hc]
    · exact ih hcs s' (hact s s' hI hok)
    · exact ih hcs s hI
    · exact hI
    · exact hI

theorem mono {Q' E' : σ → Prop} (h : Triple plan P cs Q E) (hQ : ∀ s, Q s → Q' s)
    (hE : ∀ s, E s → E' s) : Triple plan P cs Q' E' := by
  intro s hs
  have hpost := h s hs
  revert hpost
  rcases runCalls plan cs s with ⟨_ | e | _, s'⟩
  · exact hQ s'
  · exact hE s'
  · exact hE s'

end Triple

/-- Where nothing goes wrong, the calls lead from `P` to `Q`. -/
def Total (P : σ → Prop) (cs : List (SysCall κ σ ε)) (Q : σ → Prop) : Prop :=
  ∀ s, P s → ∃ s', runCalls (fun _ => .pass) cs s = (.done, s') ∧ Q s'

namespace Total

variable {P Q R I : σ → Prop} {c : SysCall κ σ ε} {cs ds : List (SysCall κ σ ε)}

theorem nil (h : ∀ s, P s → Q s) : Total P ([] : List (SysCall κ σ ε)) Q :=
    fun s hs => ⟨s, rfl, h s hs⟩

theorem cons (hact : ∀ s, P s → ∃ s', c.act s = .ok s' ∧ R s') (h : Total R cs Q) :
    Total P (c :: cs) Q := by
  intro s hP
  obtain ⟨s', hs', hR⟩ := hact s hP
  obtain ⟨s'', hrun, hQ⟩ := h s' hR
  have hfault : c.fault (fun _ => .pass) = .pass := by
    unfold SysCall.fault
    split <;> rfl
  exact ⟨s'', (runCalls_cons (SysCall.run_eq_done hfault hs')).trans hrun, hQ⟩

theorem append (h₁ : Total P cs R) (h₂ : Total R ds Q) : Total P (cs ++ ds) Q := by
  intro s hP
  obtain ⟨s', hrun, hR⟩ := h₁ s hP
  obtain ⟨s'', hrun', hQ⟩ := h₂ s' hR
  exact ⟨s'', (runCalls_append hrun).trans hrun', hQ⟩

/-- Calls that all succeed and keep an invariant. -/
theorem invariant (h : ∀ c ∈ cs, ∀ s, I s → ∃ s', c.act s = .ok s' ∧ I s') : Total I cs I := by
  induction cs with
  | nil => exact nil fun _ hI => hI
  | cons c cs ih =>
    obtain ⟨hc, hcs⟩ := List.forall_mem_cons.1 h
    exact cons hc (ih hcs)

end Total

end PPBase
