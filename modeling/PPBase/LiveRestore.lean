import PPBase.Restore

/-!
# The decision of the running service

After the restore transaction the service reads the marker on a second connection and either
reports success or puts the files back. If the connection of the transaction was lost the server
may commit later, and nothing makes the reading wait for it. In runs where the transaction has
ended when the marker is read, the files are put back only if it never commits.
-/

namespace PPBase

namespace Restore

/-- The transaction has not committed and never will : it has ended, or will not begin. -/
def NeverCommits (s : State) : Prop := ∀ s', Run s s' → s'.world.transaction ≠ .committed

/-- The database and the active files are from the same side. -/
def SameSide (w₀ w : World) : Prop :=
  (w.database = .old ∧ ∀ r, Original (w₀.slot r) (w.slot r)) ∨
    (w.database = .new ∧ ∀ r, Current (w.slot r))

/-- The decision agrees with the database. -/
structure Agrees (w₀ : World) (s : State) : Prop where
  rollback : ∀ caller u, s.pc = .undo caller u → NeverCommits s
  success : s.pc = .reported → s.world.transaction = .committed
  cleared : s.world.journal = none → SameSide w₀ s.world

/-- The transaction has ended, and the process cannot begin it. -/
structure Over (s : State) : Prop where
  pc : s.pc.swaps = false
  pending : s.world.transaction ≠ .pending
  committed : s.world.transaction ≠ .committed

theorem swaps_afterUndo (caller : Caller) (r : Resource) : (afterUndo caller r).swaps = false := by
  cases r with
  | storage => rfl
  | secret => cases caller <;> rfl

variable {s : State}

theorem Over.move {s' : State} (h : Over s) (hm : Move s s') : Over s' := by
  have hnot : s.pc.swaps ≠ true := by
    rw [h.pc]
    exact Bool.false_ne_true
  cases hm with
  | mkdir | checkSecret | writeStarted | retire | install | writeSwapped | cancel | begin =>
    exact absurd rfl hnot
  | raise w pc hpc => exact absurd hpc hnot
  | commit w pc hp => exact absurd hp h.pending
  | abort w pc hp => exact absurd hp h.pending
  | absent w caller r => exact ⟨swaps_afterUndo caller r, h.pending, h.committed⟩
  | bringBack w caller r => exact ⟨swaps_afterUndo caller r, h.pending, h.committed⟩
  | clear w caller => exact ⟨by cases caller <;> rfl, h.pending, h.committed⟩
  | cleaned w caller => exact ⟨by cases caller <;> rfl, h.pending, h.committed⟩
  | drop w r => exact ⟨by cases r <;> rfl, h.pending, h.committed⟩
  | _ => exact ⟨rfl, h.pending, h.committed⟩

theorem Over.decision {s' : State} (h : Over s) (hd : Decision s s') : Over s' := by
  cases hd with
  | _ => exact ⟨rfl, h.pending, h.committed⟩

/-- What is over stays so, whatever the order of steps. -/
theorem Over.neverCommits (h : Over s) : NeverCommits s := by
  intro s' hrun
  refine Over.committed ?_
  induction hrun with
  | refl => exact h
  | tail _ hstep ih =>
    rcases hstep with hm | hd
    · exact ih.move hm
    · exact ih.decision hd

/-- If the marker is only read when the server has ended the transaction, the files are put back
only if it never commits, success is reported only if it has, and without a journal the database
and the files are from the same side. -/
theorem live_decision_agrees {w₀ : World} (hw₀ : Prepared w₀) (h : SettledRun ⟨.mkdir, w₀⟩ s) :
    Agrees w₀ s := by
  have hat := at_run hw₀ h
  refine ⟨fun caller u hpc => ?_, fun hpc => ?_, fun hj => ?_⟩
  · rw [hpc] at hat
    have hover : Over s := ⟨by rw [hpc]; rfl, hat.2.1.settled, hat.2.1.transaction⟩
    exact hover.neverCommits
  · rw [hpc] at hat
    exact hat.1.transaction
  · cases durable_of_at hw₀ hat with
    | pending _ hj' _ => exact absurd (hj.symm.trans hj') nofun
    | undoable hu => exact Or.inl ⟨hu.database, hu.untouched hj⟩
    | committed _ hj' _ => exact absurd hj hj'
    | finished hc _ _ _ => exact Or.inr ⟨hc.database, hc.slot⟩

/-- A restore whose transaction is committed and acknowledged. -/
theorem acknowledged_restore_agrees :
    ∃ s, SettledRun ⟨.mkdir, preparedWorld⟩ s ∧ s.pc = .reported ∧ Agrees preparedWorld s := by
  have h₁ := SettledRun.move .refl (.mkdir preparedWorld)
  have h₂ := SettledRun.move (SettledRun.move h₁ (.checkSecret _ nofun)) (.writeStarted _)
  have h₃ := SettledRun.move (SettledRun.move h₂ (.retire _ _)) (.install _ _ nofun)
  have h₄ := SettledRun.move (SettledRun.move h₃ (.retire _ _)) (.install _ _ nofun)
  have h₅ := SettledRun.move (SettledRun.move h₄ (.writeSwapped _)) (.begin _)
  have h₆ := SettledRun.move (SettledRun.move h₅ (.commit _ _ rfl)) (.ended _)
  have h₇ := SettledRun.move (SettledRun.decision h₆ (.committed _ rfl) nofun) (.writeCommitted _)
  exact ⟨_, h₇, rfl, live_decision_agrees prepared_preparedWorld h₇⟩

theorem Run.move {s₁ s₂ : State} (h : Run s s₁) (hm : Move s₁ s₂) : Run s s₂ := h.tail (Or.inl hm)

/-- The connection is lost, the marker is not there yet, the files are put back, and the server
commits. -/
theorem late_commit_splits :
    ¬∀ s, Run ⟨.mkdir, preparedWorld⟩ s → Agrees preparedWorld s := by
  intro hall
  have h₁ := Run.move .refl (.mkdir preparedWorld)
  have h₂ := Run.move (Run.move h₁ (.checkSecret _ nofun)) (.writeStarted _)
  have h₃ := Run.move (Run.move h₂ (.retire _ _)) (.install _ _ nofun)
  have h₄ := Run.move (Run.move h₃ (.retire _ _)) (.install _ _ nofun)
  have h₅ := Run.move (Run.move (Run.move h₄ (.writeSwapped _)) (.begin _)) (.ended _)
  -- The transaction is still pending when the marker is read.
  have h₆ : Run ⟨.mkdir, preparedWorld⟩ _ := h₅.tail (Or.inr (.missing _ rfl))
  have h₇ := Run.move (Run.move h₆ (.present _ _ _ nofun)) (.removeActive _ _ _)
  have h₈ := Run.move (Run.move h₇ (.bringBack _ _ _)) (.present _ _ _ nofun)
  have h₉ := Run.move (Run.move h₈ (.removeActive _ _ _)) (.bringBack _ _ _)
  have hsplit := Run.move (Run.move h₉ (.clear _ _)) (.commit _ _ rfl)
  rcases (hall _ hsplit).cleared rfl with ⟨hdb, -⟩ | ⟨-, hslot⟩
  · cases hdb
  · exact absurd (hslot .storage) nofun

end Restore

end PPBase
