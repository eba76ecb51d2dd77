import Mathlib.Logic.Function.Basic
import PPBase.Interleaving

/-!
# The restart slot

At most one restart of the process may be under way. A cutover reserves the slot before it commits;
`schedule_process_restart` takes it, or claims a reservation, starts a worker and hands the slot
over to it; a worker that fails gives it back. Every block below the lock is one step
(`reserveProcessRestart`, `claimRestartReservation`, …), and threads take turns in any order.

`single_flight` : as long as no reservation is released while a call that has claimed it is under
way, the slot has one owner at most and is marked as taken while it has one.
`released_while_claimed` : such a release lets two workers run.
-/

namespace PPBase

namespace RestartSlot

/-! ## The critical sections -/

/-- `ProcessRestartReservation` -/
structure Reservation where
  active : Bool
  claimed : Bool

/-- `_restart_scheduled`, `_restart_reservation`, and the reservations that were created. -/
structure Slot where
  restartScheduled : Bool := false
  restartReservation : Option ℕ := none
  reservations : ℕ → Reservation := fun _ => ⟨false, false⟩
  created : ℕ := 0

def Slot.set (s : Slot) (k : ℕ) (r : Reservation) : Slot :=
  { s with reservations := Function.update s.reservations k r }

/-- `release` -/
def release (s : Slot) (k : ℕ) : Slot :=
  if !(s.reservations k).active || s.restartReservation ≠ some k then s
  else { s.set k ⟨false, false⟩ with restartReservation := none, restartScheduled := false }

/-- `reserve_process_restart` -/
def reserveProcessRestart (s : Slot) : Slot × Option ℕ :=
  if s.restartScheduled then (s, none)
  else
    ({ s.set s.created ⟨true, false⟩ with
        restartReservation := some s.created, restartScheduled := true, created := s.created + 1 },
      some s.created)

/-- `_claim_restart_reservation` -/
def claimRestartReservation (s : Slot) (k : ℕ) : Slot × Bool :=
  if !(s.reservations k).active || (s.reservations k).claimed || !s.restartScheduled ||
      s.restartReservation ≠ some k then (s, false)
  else (s.set k { s.reservations k with claimed := true }, true)

/-- The other way into `schedule_process_restart`. -/
def takeRestartSlot (s : Slot) : Slot × Bool :=
  if s.restartScheduled then (s, false) else ({ s with restartScheduled := true }, true)

/-- `_detach_restart_reservation` -/
def detachRestartReservation (s : Slot) (k : ℕ) : Slot :=
  { s.set k ⟨false, false⟩ with
    restartReservation :=
      if s.restartReservation = some k then none else s.restartReservation }

/-- `_clear_restart_scheduled` -/
def clearRestartScheduled (s : Slot) : Slot :=
  { (match s.restartReservation with
      | some k => s.set k ⟨false, false⟩
      | none => s) with
    restartReservation := none, restartScheduled := false }

/-! ## Threads -/

/-- Where a call of `schedule_process_restart` is. -/
inductive Caller
  | called | claimed | started | returned
  deriving DecidableEq

/-- Where its worker is. -/
inductive Worker
  | idle | running | failing | failed | replaced
  deriving DecidableEq

structure Call where
  reservation : Option ℕ
  caller : Caller := .called
  worker : Worker := .idle

inductive Thread
  | reserving
  | releasing (k : ℕ)
  | scheduling (c : Call)
  | finished

/-- The next step of a call or its worker. -/
inductive Call.Move (s : Slot) (c : Call) : Slot → Call → Prop
  /-- There is no command, or the slot is taken. -/
  | refuse (hc : c.caller = .called) : Move s c s { c with caller := .returned }
  | claim (k : ℕ) (hc : c.caller = .called) (hk : c.reservation = some k)
      (h : (claimRestartReservation s k).2 = true) :
    Move s c (claimRestartReservation s k).1 { c with caller := .claimed }
  | take (hc : c.caller = .called) (hk : c.reservation = none) (h : (takeRestartSlot s).2 = true) :
    Move s c (takeRestartSlot s).1 { c with caller := .claimed }
  /-- The environment is invalid, or the worker cannot be started. -/
  | giveUp (hc : c.caller = .claimed) :
    Move s c (if c.reservation = none then clearRestartScheduled s else s)
      { c with caller := .returned }
  | start (hc : c.caller = .claimed) :
    Move s c s { c with caller := .started, worker := .running }
  | detach (hc : c.caller = .started) :
    Move s c
      (match c.reservation with
        | some k => detachRestartReservation s k
        | none => s)
      { c with caller := .returned }
  | exec (hw : c.worker = .running) : Move s c s { c with worker := .replaced }
  | die (hw : c.worker = .running) : Move s c s { c with worker := .failed }
  /-- `before_exec` or `os.execvpe` raises. -/
  | raise (hw : c.worker = .running) : Move s c s { c with worker := .failing }
  /-- `on_failure` has returned. -/
  | settle (hw : c.worker = .failing) :
    Move s c (clearRestartScheduled s) { c with worker := .failed }
  /-- `on_failure` has raised. -/
  | unsettled (hw : c.worker = .failing) : Move s c s { c with worker := .failed }

/-- The next step of a thread. -/
inductive Thread.Move (s : Slot) : Thread → Slot → Thread → Prop
  | reserve : Move s .reserving (reserveProcessRestart s).1 .finished
  | release (k : ℕ) : Move s (.releasing k) (release s k) .finished
  | schedule {c c' : Call} {s' : Slot} (h : c.Move s s' c') :
    Move s (.scheduling c) s' (.scheduling c')

/-- A thread begins. -/
def start : Thread → Prop
  | .scheduling c => c.caller = .called ∧ c.worker = .idle
  | .finished => False
  | _ => True

/-- A thread takes its next step. -/
def move (P : Pool Slot Thread) (_ : ℕ) (p : Thread) (s : Slot) (p' : Thread) : Prop :=
  p.Move P.shared s p'

/-- A call has claimed a reservation, and has not returned. -/
def Call.Underway (c : Call) (k : ℕ) : Prop :=
  c.reservation = some k ∧ (c.caller = .claimed ∨ c.caller = .started)

/-- The step is not the release of an active reservation by which a call is under way. -/
def Orderly (P : Pool Slot Thread) (p : Thread) : Prop :=
  ∀ k, p = .releasing k → (P.shared.reservations k).active = true →
    ∀ c, .scheduling c ∈ P.procs → ¬c.Underway k

/-- The steps of a run in which reservations are released in order. -/
def orderlyMove (P : Pool Slot Thread) (i : ℕ) (p : Thread) (s : Slot) (p' : Thread) : Prop :=
  move P i p s p' ∧ Orderly P p

/-- The call owns the slot, or gives it back if it fails. -/
def Call.Holding (c : Call) : Prop :=
  c.worker = .running ∨ c.worker = .failing ∨ c.reservation = none ∧ c.caller = .claimed

/-! ## One owner -/

/-- The calls of the threads. -/
def calls (procs : List Thread) (i : ℕ) : Option Call :=
  match procs[i]? with
  | some (.scheduling c) => some c
  | _ => none

/-- What holds of the slot and the calls. -/
structure Single (s : Slot) (calls : ℕ → Option Call) : Prop where
  current : ∀ k, (s.reservations k).active = true ↔ s.restartReservation = some k
  scheduled : ∀ k, s.restartReservation = some k → s.restartScheduled = true ∧ k < s.created
  holding : ∀ i c, calls i = some c → c.Holding → s.restartScheduled = true ∧
    ∀ k, s.restartReservation = some k → c.reservation = some k ∧ c.caller = .started
  alone : ∀ i j c d, calls i = some c → calls j = some d → c.Holding → d.Holding → i = j
  claimed : ∀ i c k, calls i = some c → c.reservation = some k → c.caller = .claimed →
    s.restartReservation = some k
  idle : ∀ i c, calls i = some c → c.caller = .called ∨ c.caller = .claimed → c.worker = .idle
  flagged : ∀ i c k, calls i = some c → c.Underway k → k < s.created ∧
    ((s.reservations k).claimed = true ∨ (s.reservations k).active = false)
  claimers : ∀ i j c d k, calls i = some c → calls j = some d → c.Underway k → d.Underway k → i = j

section Steps

variable {s s' : Slot} {cs : ℕ → Option Call} {i : ℕ} {c c' : Call}

/-- Calls that only begin are no harm. -/
theorem Single.mono (h : Single s cs) {cs' : ℕ → Option Call}
    (hsub : ∀ i c, cs' i = some c → cs i = some c ∨ c.caller = .called ∧ c.worker = .idle) :
    Single s cs' := by
  have hholding : ∀ i c, cs' i = some c → c.Holding → cs i = some c := fun i c hc hholds =>
    (hsub i c hc).resolve_right fun hnew => by simp [Call.Holding, hnew.1, hnew.2] at hholds
  have hunderway : ∀ i c k, cs' i = some c → c.Underway k → cs i = some c := fun i c k hc hk =>
    (hsub i c hc).resolve_right fun hnew => by simp [Call.Underway, hnew.1] at hk
  refine ⟨h.current, h.scheduled, fun i c hc hholds => ?_, fun i j c d hc hd hholds hholds' => ?_,
    fun i c k hc hk hcaller => ?_, fun i c hc hcaller => ?_, fun i c k hc hk => ?_,
    fun i j c d k hc hd hk hk' => ?_⟩
  · exact h.holding i c (hholding i c hc hholds) hholds
  · exact h.alone i j c d (hholding i c hc hholds) (hholding j d hd hholds') hholds hholds'
  · exact h.claimed i c k (hunderway i c k hc ⟨hk, .inl hcaller⟩) hk hcaller
  · rcases hsub i c hc with hold | hnew
    · exact h.idle i c hold hcaller
    · exact hnew.2
  · exact h.flagged i c k (hunderway i c k hc hk) hk
  · exact h.claimers i j c d k (hunderway i c k hc hk) (hunderway j d k hd hk') hk hk'

theorem update_eq_some {j : ℕ} {d : Call} (h : Function.update cs i (some c') j = some d) :
    j = i ∧ d = c' ∨ j ≠ i ∧ cs j = some d := by
  by_cases hji : j = i
  · subst hji
    rw [Function.update_self] at h
    exact .inl ⟨rfl, (Option.some.inj h).symm⟩
  · rw [Function.update_of_ne hji] at h
    exact .inr ⟨hji, h⟩

/-- A call that moves without the slot. -/
theorem Single.goto (h : Single s cs) (hc : cs i = some c)
    (hholding : c'.Holding → s.restartScheduled = true ∧
      (∀ k, s.restartReservation = some k → c'.reservation = some k ∧ c'.caller = .started) ∧
        ∀ j d, j ≠ i → cs j = some d → ¬d.Holding)
    (hclaimed : ∀ k, c'.reservation = some k → c'.caller = .claimed →
      s.restartReservation = some k)
    (hidle : c'.caller = .called ∨ c'.caller = .claimed → c'.worker = .idle)
    (hunderway : ∀ k, c'.Underway k → c.Underway k) :
    Single s (Function.update cs i (some c')) where
  current := h.current
  scheduled := h.scheduled
  holding j d hd hholds := by
    rcases update_eq_some hd with ⟨-, rfl⟩ | ⟨-, hd⟩
    · exact ⟨(hholding hholds).1, (hholding hholds).2.1⟩
    · exact h.holding j d hd hholds
  alone j j' d d' hd hd' hholds hholds' := by
    rcases update_eq_some hd with ⟨rfl, rfl⟩ | ⟨hji, hold⟩ <;>
      rcases update_eq_some hd' with ⟨rfl, rfl⟩ | ⟨hji', hold'⟩
    · rfl
    · exact absurd hholds' ((hholding hholds).2.2 j' d' hji' hold')
    · exact absurd hholds ((hholding hholds').2.2 j d hji hold)
    · exact h.alone j j' d d' hold hold' hholds hholds'
  claimed j d k hd hk hcaller := by
    rcases update_eq_some hd with ⟨-, rfl⟩ | ⟨-, hd⟩
    · exact hclaimed k hk hcaller
    · exact h.claimed j d k hd hk hcaller
  idle j d hd := by
    rcases update_eq_some hd with ⟨-, rfl⟩ | ⟨-, hd⟩
    · exact hidle
    · exact h.idle j d hd
  flagged j d k hd hk := by
    rcases update_eq_some hd with ⟨-, rfl⟩ | ⟨-, hd⟩
    · exact h.flagged i c k hc (hunderway k hk)
    · exact h.flagged j d k hd hk
  claimers j j' d d' k hd hd' hk hk' := by
    rcases update_eq_some hd with ⟨rfl, rfl⟩ | ⟨hji, hold⟩ <;>
      rcases update_eq_some hd' with ⟨rfl, rfl⟩ | ⟨hji', hold'⟩
    · rfl
    · exact h.claimers j j' c d' k hc hold' (hunderway k hk) hk'
    · exact h.claimers j j' d c k hold hc hk (hunderway k hk')
    · exact h.claimers j j' d d' k hold hold' hk hk'

@[simp] theorem Slot.set_restartReservation (s : Slot) (k : ℕ) (r : Reservation) :
    (s.set k r).restartReservation = s.restartReservation := rfl

@[simp] theorem Slot.set_restartScheduled (s : Slot) (k : ℕ) (r : Reservation) :
    (s.set k r).restartScheduled = s.restartScheduled := rfl

@[simp] theorem Slot.set_created (s : Slot) (k : ℕ) (r : Reservation) :
    (s.set k r).created = s.created := rfl

theorem Slot.set_reservations (s : Slot) (k k' : ℕ) (r : Reservation) :
    (s.set k r).reservations k' = if k' = k then r else s.reservations k' :=
  Function.update_apply _ _ _ _

/-- Where the slot is free, nobody owns it. -/
theorem Single.free (h : Single s cs) (hfree : s.restartScheduled = false) :
    s.restartReservation = none ∧ ∀ j d, cs j = some d → ¬d.Holding := by
  refine ⟨?_, fun j d hd hholds => ?_⟩
  · cases hcurrent : s.restartReservation with
    | none => rfl
    | some k =>
      rw [(h.scheduled k hcurrent).1] at hfree
      cases hfree
  · rw [(h.holding j d hd hholds).1] at hfree
    cases hfree

theorem Single.reserve (h : Single s cs) : Single (reserveProcessRestart s).1 cs := by
  unfold reserveProcessRestart
  split_ifs with hscheduled
  · exact h
  obtain ⟨hcurrent, hholding⟩ := h.free (by simpa using hscheduled)
  have hinactive : ∀ k, (s.reservations k).active = false := by
    intro k
    by_contra hactive
    rw [(h.current k).1 (by simpa using hactive)] at hcurrent
    cases hcurrent
  refine ⟨fun k => ?_, fun k hk => ⟨rfl, ?_⟩, fun j d hd hholds => absurd hholds (hholding j d hd),
    h.alone, fun j d k hd hk hcaller => ?_, h.idle, fun j d k hd hk => ?_, h.claimers⟩
  · dsimp only
    rw [Slot.set_reservations]
    split_ifs with hk
    · exact iff_of_true rfl (congrArg some hk.symm)
    · rw [hinactive k]
      exact iff_of_false Bool.false_ne_true fun h => hk (Option.some.inj h).symm
  · obtain rfl := Option.some.inj hk
    exact Nat.lt_succ_self _
  · rw [h.claimed j d k hd hk hcaller] at hcurrent
    cases hcurrent
  · obtain ⟨hlt, -⟩ := h.flagged j d k hd hk
    refine ⟨Nat.lt_succ_of_lt hlt, .inr ?_⟩
    dsimp only
    rw [Slot.set_reservations, if_neg (Nat.ne_of_lt hlt)]
    exact hinactive k

variable {k : ℕ}

/-- A reservation ends, and with it the claims on it. -/
theorem Single.drop (h : Single s cs) {scheduled : Bool} (hcurrent : s.restartReservation = some k)
    (hholding : ∀ j d, cs j = some d → d.Holding → scheduled = true)
    (hclaimed : ∀ j d, cs j = some d → d.reservation = some k → d.caller ≠ .claimed) :
    Single { s.set k ⟨false, false⟩ with
      restartReservation := none, restartScheduled := scheduled } cs := by
  refine ⟨fun k' => ?_, nofun, fun j d hd hholds => ⟨hholding j d hd hholds, nofun⟩, h.alone,
    fun j d k' hd hk' hcaller => ?_, h.idle, fun j d k' hd hk' => ?_, h.claimers⟩
  · dsimp only
    rw [Slot.set_reservations]
    split_ifs with hk'
    · exact iff_of_false not_false nofun
    · refine iff_of_false (fun hactive => hk' ?_) nofun
      exact Option.some.inj (((h.current k').1 hactive).symm.trans hcurrent)
  · obtain rfl := Option.some.inj ((h.claimed j d k' hd hk' hcaller).symm.trans hcurrent)
    exact absurd hcaller (hclaimed j d hd hk')
  · obtain ⟨hlt, hflag⟩ := h.flagged j d k' hd hk'
    refine ⟨hlt, ?_⟩
    dsimp only
    rw [Slot.set_reservations]
    split_ifs
    · exact .inr rfl
    · exact hflag

theorem Single.release (h : Single s cs)
    (horderly : (s.reservations k).active = true → ∀ j d, cs j = some d → ¬d.Underway k) :
    Single (release s k) cs := by
  unfold RestartSlot.release
  split_ifs with hnoop
  · exact h
  simp only [Bool.or_eq_true, Bool.not_eq_true', decide_eq_true_eq, not_or, not_not] at hnoop
  have hnone := horderly (by simpa using hnoop.1)
  refine h.drop hnoop.2 (fun j d hd hholds => ?_) (fun j d hd hk hcaller => ?_)
  · obtain ⟨hk, hcaller⟩ := (h.holding j d hd hholds).2 k hnoop.2
    exact absurd ⟨hk, .inr hcaller⟩ (hnone j d hd)
  · exact hnone j d hd ⟨hk, .inl hcaller⟩

/-- The slot is given back when nobody owns it any more. -/
theorem Single.clear (h : Single s cs) (hholding : ∀ j d, cs j = some d → ¬d.Holding)
    (hclaimed : ∀ j d k, cs j = some d → s.restartReservation = some k → d.reservation = some k →
      d.caller ≠ .claimed) : Single (clearRestartScheduled s) cs := by
  unfold clearRestartScheduled
  split
  · rename_i k hcurrent
    exact h.drop hcurrent (fun j d hd hholds => absurd hholds (hholding j d hd))
      (fun j d hd => hclaimed j d k hd hcurrent)
  · rename_i hcurrent
    refine ⟨fun k => ?_, nofun, fun j d hd hholds => absurd hholds (hholding j d hd), h.alone,
      fun j d k hd hk hcaller => ?_, h.idle, h.flagged, h.claimers⟩
    · rw [h.current k, hcurrent]
    · rw [h.claimed j d k hd hk hcaller] at hcurrent
      cases hcurrent

theorem Single.detach (h : Single s cs)
    (hclaimed : ∀ j d, cs j = some d → d.reservation = some k → d.caller ≠ .claimed) :
    Single (detachRestartReservation s k) cs := by
  unfold detachRestartReservation
  split_ifs with hcurrent
  · exact h.drop hcurrent (fun j d hd hholds => (h.holding j d hd hholds).1) hclaimed
  refine ⟨fun k' => ?_, h.scheduled, h.holding, h.alone, h.claimed, h.idle,
    fun j d k' hd hk' => ?_, h.claimers⟩
  · dsimp only
    rw [Slot.set_reservations]
    split_ifs with hk'
    · subst hk'
      exact iff_of_false not_false hcurrent
    · exact h.current k'
  · obtain ⟨hlt, hflag⟩ := h.flagged j d k' hd hk'
    refine ⟨hlt, ?_⟩
    dsimp only
    rw [Slot.set_reservations]
    split_ifs
    · exact .inr rfl
    · exact hflag

theorem Single.claim (h : Single s cs) (hc : cs i = some c) (hcaller : c.caller = .called)
    (hk : c.reservation = some k) (hclaim : (claimRestartReservation s k).2 = true) :
    Single (claimRestartReservation s k).1
      (Function.update cs i (some { c with caller := .claimed })) := by
  unfold claimRestartReservation at hclaim ⊢
  split_ifs at hclaim ⊢ with hrefused
  simp only [Bool.or_eq_true, Bool.not_eq_true', decide_eq_true_eq, not_or, not_not,
    Bool.not_eq_true, Bool.not_eq_false] at hrefused
  obtain ⟨⟨⟨hactive, hunclaimed⟩, hscheduled⟩, hcurrent⟩ := hrefused
  -- Nobody has claimed the reservation before.
  have hnone : ∀ j d, cs j = some d → ¬d.Underway k := by
    intro j d hd hunderway
    rcases (h.flagged j d k hd hunderway).2 with hflag | hinactive
    · rw [hunclaimed] at hflag
      cases hflag
    · rw [hactive] at hinactive
      cases hinactive
  have hidle := h.idle i c hc (.inl hcaller)
  have hfree : ¬({ c with caller := .claimed } : Call).Holding := by
    simp [Call.Holding, hidle, hk]
  have hreservation : ∀ k', ({ c with caller := .claimed } : Call).Underway k' → k' = k :=
    fun k' hk' => Option.some.inj (hk'.1.symm.trans hk)
  refine ⟨fun k' => ?_, h.scheduled, fun j d hd hholds => ?_,
    fun j j' d d' hd hd' hholds hholds' => ?_,
    fun j d k' hd hk' hcaller' => ?_, fun j d hd => ?_, fun j d k' hd hk' => ?_,
    fun j j' d d' k' hd hd' hk' hk'' => ?_⟩
  · rw [Slot.set_reservations]
    split_ifs with hk'
    · rw [hk']
      exact h.current k
    · exact h.current k'
  · rcases update_eq_some hd with ⟨-, rfl⟩ | ⟨-, hd⟩
    · exact absurd hholds hfree
    · exact h.holding j d hd hholds
  · rcases update_eq_some hd with ⟨-, rfl⟩ | ⟨-, hold⟩
    · exact absurd hholds hfree
    rcases update_eq_some hd' with ⟨-, rfl⟩ | ⟨-, hold'⟩
    · exact absurd hholds' hfree
    exact h.alone j j' d d' hold hold' hholds hholds'
  · rcases update_eq_some hd with ⟨-, rfl⟩ | ⟨-, hd⟩
    · rw [Slot.set_restartReservation, hcurrent]
      exact hk.symm.trans hk'
    · exact h.claimed j d k' hd hk' hcaller'
  · rcases update_eq_some hd with ⟨-, rfl⟩ | ⟨-, hd⟩
    · exact fun _ => hidle
    · exact h.idle j d hd
  · rw [Slot.set_reservations]
    rcases update_eq_some hd with ⟨-, rfl⟩ | ⟨-, hd⟩
    · rw [if_pos (hreservation k' hk'), hreservation k' hk']
      exact ⟨(h.scheduled k hcurrent).2, .inl rfl⟩
    · refine ⟨(h.flagged j d k' hd hk').1, ?_⟩
      split_ifs
      · exact .inl rfl
      · exact (h.flagged j d k' hd hk').2
  · rcases update_eq_some hd with ⟨rfl, rfl⟩ | ⟨hji, hold⟩ <;>
      rcases update_eq_some hd' with ⟨rfl, rfl⟩ | ⟨hji', hold'⟩
    · rfl
    · exact absurd (hreservation k' hk' ▸ hk'') (hnone j' d' hold')
    · exact absurd (hreservation k' hk'' ▸ hk') (hnone j d hold)
    · exact h.claimers j j' d d' k' hold hold' hk' hk''

/-- A claimed reservation, or a taken slot, becomes that of the worker. -/
theorem Single.startWorker (h : Single s cs) (hc : cs i = some c) (hcaller : c.caller = .claimed) :
    Single s (Function.update cs i (some { c with caller := .started, worker := .running })) := by
  have hidle := h.idle i c hc (.inr hcaller)
  refine h.goto hc (fun _ => ?_) nofun nofun (fun k hk => ⟨hk.1, .inl hcaller⟩)
  cases hk : c.reservation with
  | none =>
    have hholds : c.Holding := .inr (.inr ⟨hk, hcaller⟩)
    obtain ⟨hscheduled, hreservation⟩ := h.holding i c hc hholds
    refine ⟨hscheduled, fun k hcurrent => ?_, fun j d hji hd hd' => hji ?_⟩
    · rw [(hreservation k hcurrent).1] at hk
      cases hk
    · exact h.alone j i d c hd hc hd' hholds
  | some k =>
    have hcurrent := h.claimed i c k hc hk hcaller
    refine ⟨(h.scheduled k hcurrent).1, fun k' hk' => ⟨hcurrent.symm.trans hk', rfl⟩,
      fun j d hji hd hholds => hji ?_⟩
    obtain ⟨hdk, hstarted⟩ := (h.holding j d hd hholds).2 k hcurrent
    exact h.claimers j i d c k hd hc ⟨hdk, .inr hstarted⟩ ⟨hk, .inl hcaller⟩

/-- A step after which the call no longer owns the slot, or never did. -/
theorem Single.leave (h : Single s cs) (hc : cs i = some c) (hfree : ¬c'.Holding)
    (hclaimed : c'.caller ≠ .claimed) (hidle : c'.caller = .called → c'.worker = .idle)
    (hunderway : ∀ k, c'.Underway k → c.Underway k) :
    Single s (Function.update cs i (some c')) :=
  h.goto hc (fun hholds => absurd hholds hfree) (fun _ _ hcaller => absurd hcaller hclaimed)
    (fun hcaller => hidle (hcaller.resolve_right hclaimed)) hunderway

/-- The owner gives the slot back. -/
theorem Single.leave_clear (h : Single s cs) (hc : cs i = some c) (hholds : c.Holding)
    (hfree : ¬c'.Holding) (hclaimed : c'.caller ≠ .claimed)
    (hidle : c'.caller = .called → c'.worker = .idle)
    (hunderway : ∀ k, c'.Underway k → c.Underway k) :
    Single (clearRestartScheduled s) (Function.update cs i (some c')) := by
  refine (h.leave hc hfree hclaimed hidle hunderway).clear (fun j d hd hd' => ?_)
    (fun j d k hd hcurrent hk hcaller => ?_)
  · rcases update_eq_some hd with ⟨-, rfl⟩ | ⟨hji, hd⟩
    · exact hfree hd'
    · exact hji (h.alone j i d c hd hc hd' hholds)
  · rcases update_eq_some hd with ⟨-, rfl⟩ | ⟨hji, hd⟩
    · exact hclaimed hcaller
    · obtain ⟨hck, hstarted⟩ := (h.holding i c hc hholds).2 k hcurrent
      exact hji (h.claimers j i d c k hd hc ⟨hk, .inl hcaller⟩ ⟨hck, .inr hstarted⟩)

/-- A worker that is not idle belongs to a call that has started it. -/
theorem Single.late (h : Single s cs) (hc : cs i = some c) (hw : c.worker ≠ .idle) :
    c.caller ≠ .called ∧ c.caller ≠ .claimed :=
  ⟨fun hcaller => hw (h.idle i c hc (.inl hcaller)),
    fun hcaller => hw (h.idle i c hc (.inr hcaller))⟩

theorem Single.call (h : Single s cs) (hc : cs i = some c) (hmove : c.Move s s' c') :
    Single s' (Function.update cs i (some c')) := by
  cases hmove with
  | refuse hcaller =>
    have hidle := h.idle i c hc (.inl hcaller)
    exact h.leave hc (by simp [Call.Holding, hidle]) nofun nofun (by simp [Call.Underway])
  | claim k hcaller hk hclaim => exact h.claim hc hcaller hk hclaim
  | take hcaller hk htake =>
    unfold takeRestartSlot at htake ⊢
    split_ifs at htake ⊢ with hscheduled
    obtain ⟨hcurrent, hholding⟩ := h.free (by simpa using hscheduled)
    have hidle := h.idle i c hc (.inl hcaller)
    have htaken : Single { s with restartScheduled := true } cs :=
      ⟨h.current, fun k hk => ⟨rfl, (h.scheduled k hk).2⟩,
        fun j d hd hholds => absurd hholds (hholding j d hd), h.alone, h.claimed, h.idle, h.flagged,
        h.claimers⟩
    refine htaken.goto hc (fun _ => ⟨rfl, fun k hk => ?_, fun j d _ => hholding j d⟩)
      (fun k hk' => ?_) (fun _ => hidle) (fun k hk' => ?_)
    · rw [hcurrent] at hk
      cases hk
    · rw [hk] at hk'
      cases hk'
    · rw [hk'.1] at hk
      cases hk
  | giveUp hcaller =>
    have hidle := h.idle i c hc (.inr hcaller)
    have hfree : ¬({ c with caller := .returned } : Call).Holding := by simp [Call.Holding, hidle]
    split_ifs with hk
    · exact h.leave_clear hc (.inr (.inr ⟨hk, hcaller⟩)) hfree nofun nofun
        (by simp [Call.Underway])
    · exact h.leave hc hfree nofun nofun (by simp [Call.Underway])
  | start hcaller => exact h.startWorker hc hcaller
  | detach hcaller =>
    have hholds : ({ c with caller := .returned } : Call).Holding → c.Holding := by
      simp [Call.Holding, hcaller]
    split
    · rename_i k hk
      have hdetached := h.detach (k := k) fun j d hd hdk hclaimed => by
        obtain rfl := h.claimers j i d c k hd hc ⟨hdk, .inl hclaimed⟩ ⟨hk, .inr hcaller⟩
        obtain rfl := Option.some.inj (hd.symm.trans hc)
        rw [hcaller] at hclaimed
        cases hclaimed
      refine hdetached.goto hc (fun hh => ?_) nofun nofun (by simp [Call.Underway])
      obtain ⟨hscheduled, hreservation⟩ := hdetached.holding i c hc (hholds hh)
      refine ⟨hscheduled, fun k' hk' => ?_,
        fun j d hji hd hd' => hji (h.alone j i d c hd hc hd' (hholds hh))⟩
      obtain rfl := Option.some.inj (hk.symm.trans (hreservation k' hk').1)
      unfold detachRestartReservation at hk'
      dsimp only at hk'
      split_ifs at hk' with hcurrent
      exact absurd hk' hcurrent
    · rename_i hk
      refine h.goto hc (fun hh => ?_) nofun nofun (by simp [Call.Underway])
      obtain ⟨hscheduled, hreservation⟩ := h.holding i c hc (hholds hh)
      refine ⟨hscheduled, fun k hcurrent => ?_,
        fun j d hji hd hd' => hji (h.alone j i d c hd hc hd' (hholds hh))⟩
      rw [(hreservation k hcurrent).1] at hk
      cases hk
  | exec hw | die hw =>
    obtain ⟨hcalled, hclaimed⟩ := h.late hc (by rw [hw]; decide)
    exact h.leave hc (by simp [Call.Holding, hclaimed]) hclaimed (fun h => absurd h hcalled)
      (fun _ hk => hk)
  | raise hw =>
    obtain ⟨hcalled, hclaimed⟩ := h.late hc (by rw [hw]; decide)
    obtain ⟨hscheduled, hreservation⟩ := h.holding i c hc (.inl hw)
    exact h.goto hc
      (fun _ => ⟨hscheduled, hreservation,
        fun j d hji hd hd' => hji (h.alone j i d c hd hc hd' (.inl hw))⟩)
      (fun _ _ hcaller => absurd hcaller hclaimed)
      (fun hcaller => (hcaller.elim hcalled hclaimed).elim) (fun _ hk => hk)
  | settle hw =>
    obtain ⟨hcalled, hclaimed⟩ := h.late hc (by rw [hw]; decide)
    exact h.leave_clear hc (.inr (.inl hw)) (by simp [Call.Holding, hclaimed]) hclaimed
      (fun h => absurd h hcalled) (fun _ hk => hk)
  | unsettled hw =>
    obtain ⟨hcalled, hclaimed⟩ := h.late hc (by rw [hw]; decide)
    exact h.leave hc (by simp [Call.Holding, hclaimed]) hclaimed (fun h => absurd h hcalled)
      (fun _ hk => hk)

end Steps

/-! ## Runs -/

variable {P Q : Pool Slot Thread}

theorem calls_eq_some {procs : List Thread} {i : ℕ} {c : Call} :
    calls procs i = some c ↔ procs[i]? = some (.scheduling c) := by
  unfold calls
  constructor
  · intro h
    split at h
    · rename_i hc
      rw [hc, Option.some.inj h]
    · cases h
  · intro h
    rw [h]

theorem calls_set {i : ℕ} {c : Call} (hc : P.procs[i]? = some (.scheduling c)) (c' : Call) :
    calls (P.procs.set i (.scheduling c')) = Function.update (calls P.procs) i (some c') := by
  funext j
  have hlength := (List.getElem?_eq_some_iff.1 hc).1
  by_cases hji : j = i
  · subst hji
    rw [Function.update_self]
    exact calls_eq_some.2 (by simp [hlength])
  · rw [Function.update_of_ne hji, calls, calls, List.getElem?_set_ne (Ne.symm hji)]

theorem Single.step (hP : Single P.shared (calls P.procs)) (h : Pool.Step start orderlyMove P Q) :
    Single Q.shared (calls Q.procs) := by
  cases h with
  | @arrive p hstart =>
    refine hP.mono fun j d hd => ?_
    rcases Pool.mem_of_getElem?_append (calls_eq_some.1 hd) with hold | rfl
    · exact .inl (calls_eq_some.2 hold)
    · exact .inr hstart
  | @move i p p' s' hp hmove =>
    obtain ⟨hmove, horderly⟩ := hmove
    have hfinished : ∀ j d, calls (P.procs.set i .finished) j = some d →
        calls P.procs j = some d ∨ d.caller = .called ∧ d.worker = .idle := by
      intro j d hd
      rcases Pool.of_getElem?_set (calls_eq_some.1 hd) with ⟨-, heq⟩ | ⟨-, hold⟩
      · cases heq
      · exact .inl (calls_eq_some.2 hold)
    cases hmove with
    | reserve => exact hP.reserve.mono hfinished
    | release k =>
      refine (hP.release fun hactive j d hd => ?_).mono hfinished
      exact horderly k rfl hactive d (List.mem_of_getElem? (calls_eq_some.1 hd))
    | @schedule c c' _ hcall =>
      rw [calls_set hp]
      exact hP.call (calls_eq_some.2 hp) hcall

/-- In every run in which reservations are released in order, there is one owner of the slot at
most, a reservation and the worker that is about to take it over being one, and the slot is marked
as taken while there is one. -/
theorem single_flight (h : Pool.Run start orderlyMove ⟨{}, []⟩ P) :
    (∀ k k', (P.shared.reservations k).active = true → (P.shared.reservations k').active = true →
      k = k') ∧
    (∀ (i j : ℕ) c d, P.procs[i]? = some (.scheduling c) → P.procs[j]? = some (.scheduling d) →
      c.worker = .running → d.worker = .running → i = j) ∧
    (∀ k c, (P.shared.reservations k).active = true → .scheduling c ∈ P.procs →
      c.worker = .running → c.reservation = some k ∧ c.caller = .started) ∧
    ((∃ k, (P.shared.reservations k).active = true) ∨
        (∃ c, .scheduling c ∈ P.procs ∧ c.worker = .running) →
      P.shared.restartScheduled = true) := by
  have hnone : ∀ i c, calls [] i ≠ some c := fun i c => by simp [calls]
  have hfree : ∀ k, ({} : Slot).restartReservation ≠ some k := fun k => by simp
  have hempty : Single {} (calls []) := by
    refine ⟨fun k => iff_of_false Bool.false_ne_true (hfree k), fun k h => absurd h (hfree k), ?_,
      ?_, ?_, ?_, ?_, ?_⟩
    · exact fun i c hc => absurd hc (hnone i c)
    · exact fun i j c d hc => absurd hc (hnone i c)
    · exact fun i c k hc => absurd hc (hnone i c)
    · exact fun i c hc => absurd hc (hnone i c)
    · exact fun i c k hc => absurd hc (hnone i c)
    · exact fun i j c d k hc => absurd hc (hnone i c)
  have hP : Single P.shared (calls P.procs) := h.invariant Single.step hempty
  have hcalls : ∀ c, .scheduling c ∈ P.procs → ∃ i, calls P.procs i = some c := fun c hc =>
    (List.mem_iff_getElem?.1 hc).imp fun i hi => calls_eq_some.2 hi
  refine ⟨fun k k' hk hk' => ?_, fun i j c d hc hd hw hw' => ?_, fun k c hk hc hw => ?_, ?_⟩
  · exact Option.some.inj (((hP.current k).1 hk).symm.trans ((hP.current k').1 hk'))
  · exact hP.alone i j c d (calls_eq_some.2 hc) (calls_eq_some.2 hd) (.inl hw) (.inl hw')
  · obtain ⟨i, hi⟩ := hcalls c hc
    exact (hP.holding i c hi (.inl hw)).2 k ((hP.current k).1 hk)
  · rintro (⟨k, hk⟩ | ⟨c, hc, hw⟩)
    · exact (hP.scheduled k ((hP.current k).1 hk)).1
    · obtain ⟨i, hi⟩ := hcalls c hc
      exact (hP.holding i c hi (.inl hw)).1

/-- A reserved restart is handed over to its worker. -/
theorem reserved_restart_started :
    ∃ P : Pool Slot Thread, .scheduling ⟨some 0, .returned, .running⟩ ∈ P.procs ∧
      (∀ k k', (P.shared.reservations k).active = true →
        (P.shared.reservations k').active = true → k = k') ∧
      (∀ (i j : ℕ) c d, P.procs[i]? = some (.scheduling c) →
        P.procs[j]? = some (.scheduling d) → c.worker = .running → d.worker = .running → i = j) ∧
      (∀ k c, (P.shared.reservations k).active = true → .scheduling c ∈ P.procs →
        c.worker = .running → c.reservation = some k ∧ c.caller = .started) ∧
      ((∃ k, (P.shared.reservations k).active = true) ∨
          (∃ c, .scheduling c ∈ P.procs ∧ c.worker = .running) →
        P.shared.restartScheduled = true) := by
  have hrun : Pool.Run start orderlyMove ⟨{}, []⟩ ⟨_, [.finished, .scheduling _]⟩ :=
    .tail (.tail (.tail (.tail (.tail .refl (.arrive (p := Thread.reserving) trivial))
      (.arrive (p := Thread.scheduling ⟨some 0, .called, .idle⟩) ⟨rfl, rfl⟩))
      (.move (i := 0) rfl ⟨.reserve, nofun⟩))
      (.move (i := 1) rfl ⟨.schedule (.claim 0 rfl rfl rfl), nofun⟩))
      (.move (i := 1) rfl ⟨.schedule (.start rfl), nofun⟩)
  exact ⟨_, by simp, single_flight
    (hrun.tail (.move (i := 1) rfl ⟨.schedule (.detach rfl), nofun⟩))⟩

/-- A reservation is released after it was claimed, and two workers run. -/
theorem released_while_claimed :
    ∃ P : Pool Slot Thread, Pool.Run start move ⟨{}, []⟩ P ∧
      P.procs = [.finished, .scheduling ⟨some 0, .started, .running⟩, .finished,
        .scheduling ⟨none, .started, .running⟩] := by
  refine ⟨_, .tail (.tail (.tail (.tail (.tail (.tail (.tail (.tail (.tail (.tail .refl
    (.arrive (p := Thread.reserving) trivial))
    (.arrive (p := Thread.scheduling ⟨some 0, .called, .idle⟩) ⟨rfl, rfl⟩))
    (.arrive (p := Thread.releasing 0) trivial))
    (.arrive (p := Thread.scheduling ⟨none, .called, .idle⟩) ⟨rfl, rfl⟩))
    (.move (i := 0) rfl .reserve)) (.move (i := 1) rfl (.schedule (.claim 0 rfl rfl rfl))))
    (.move (i := 2) rfl (.release 0))) (.move (i := 1) rfl (.schedule (.start rfl))))
    (.move (i := 3) rfl (.schedule (.take rfl rfl rfl))))
    (.move (i := 3) rfl (.schedule (.start rfl))), rfl⟩

end RestartSlot

end PPBase
