import Mathlib.Data.List.Pairwise
import Mathlib.Logic.Function.Basic
import PPBase.Interleaving

/-!
# The write barrier

Mutations take a session-level advisory lock of PostgreSQL shared, backups and cutovers take it
exclusively and the migration lock after it. The barrier of a cutover is retained beyond the call
that acquired it, and raises a counter of its process, the fence, that turns mutations away even
when the session that holds the lock is gone.

`Move` is one step of a call : what it awaits may fail or be cancelled, and its session may be lost
at any time. `mutual_exclusion` : after every run, no mutation is active together with an exclusive
lease unless a session was lost, no context of a mutation is admitted in a process that has a
retained barrier, and the fence of a process counts its retained barriers.
-/

namespace PPBase

namespace WriteBarrier

variable {Host : Type*}

/-! ## The fence -/

/-- The counter of every process, and whether a session that held a lock has been lost. -/
structure Shared (Host : Type*) where
  cutoverFenceCount : Host → ℕ := fun _ => 0
  lost : Bool := false

def activateProcessCutoverFence [DecidableEq Host] (s : Shared Host) (host : Host) :
    Shared Host :=
  { s with cutoverFenceCount :=
      Function.update s.cutoverFenceCount host (s.cutoverFenceCount host + 1) }

def releaseProcessCutoverFence [DecidableEq Host] (s : Shared Host) (host : Host) :
    Shared Host :=
  { s with cutoverFenceCount :=
      Function.update s.cutoverFenceCount host (max 0 (s.cutoverFenceCount host - 1)) }

def processCutoverIsFenced (s : Shared Host) (host : Host) : Bool :=
  s.cutoverFenceCount host > 0

/-! ## Leases -/

/-- `mutation_write_barrier`, with a connection of its own or a borrowed one,
`backup_write_barrier`, and `acquire_retained_backup_write_barrier`. -/
inductive Kind
  | mutation | exclusive | retained
  deriving DecidableEq

/-- Where a call is. The lock is granted before the call learns of it; `fenced` is the flag of a
retained barrier that is being closed. -/
inductive Phase
  | requested
  | connecting
  | acquiring (granted : Bool)
  | lockingMigration (granted : Bool)
  | verifying (verified : Bool)
  | active (nested : ℕ)
  | leavingMigration (fenced : Bool)
  | releasing (fenced : Bool)
  | cleaning (fenced : Bool)
  | closing (fenced : Bool)
  | ended
  deriving DecidableEq

/-- The next phase where what is awaited fails or is cancelled, and the session is suspect. -/
def Phase.failed : Phase → Option Phase
  | .connecting | .acquiring _ | .lockingMigration _ | .verifying _ => some (.cleaning false)
  | .leavingMigration fenced | .releasing fenced => some (.cleaning fenced)
  | _ => none

theorem Phase.eq_cleaning_of_failed {phase phase' : Phase} (h : phase.failed = some phase') :
    ∃ fenced, phase' = .cleaning fenced := by
  unfold Phase.failed at h
  split at h <;> cases h <;> exact ⟨_, rfl⟩

/-- A call with the locks that its session holds on the server. -/
structure Lease (Host : Type*) where
  host : Host
  kind : Kind
  phase : Phase := .requested
  held : Bool := false
  migration : Bool := false

/-- Shared locks exclude no shared lock. -/
def Lease.Compatible (p q : Lease Host) : Prop :=
  p.held = true → q.held = true → p.kind = .mutation ∧ q.kind = .mutation

variable {p : Lease Host}

theorem Lease.Compatible.symm {q : Lease Host} (h : p.Compatible q) : q.Compatible p :=
  fun hq hp => (h hp hq).symm

/-- The contexts of a mutation that are open. -/
def Lease.contexts (p : Lease Host) : ℕ :=
  match p.kind, p.phase with
  | .mutation, .active nested => nested + 1
  | _, _ => 0

/-- An exclusive lease is active. -/
def Lease.Excludes (p : Lease Host) : Prop :=
  p.kind ≠ .mutation ∧
    match p.phase with
    | .lockingMigration _ | .verifying _ | .active _ | .leavingMigration _ => True
    | _ => False

/-- A retained barrier between its return and the end of its `close`. -/
def Lease.live (p : Lease Host) : Bool :=
  match p.phase with
  | .active _ => p.kind = .retained
  | .leavingMigration fenced | .releasing fenced | .cleaning fenced | .closing fenced => fenced
  | _ => false

/-- A retained barrier of the process. -/
def Lease.fences [DecidableEq Host] (host : Host) (p : Lease Host) : Bool := p.host = host && p.live

/-! ## Steps -/

variable [DecidableEq Host]

/-- One step of a call, where `others` are the other calls of all processes. -/
inductive Move (s : Shared Host) (others : List (Lease Host)) (p : Lease Host) :
    Shared Host → Lease Host → Prop
  | request (hp : p.phase = .requested)
      (h : p.kind = .mutation → processCutoverIsFenced s p.host = false) :
    Move s others p s { p with phase := .connecting }
  /-- A mutation is fenced, a barrier nested, or no connection is free in time. -/
  | giveUp (hp : p.phase = .requested ∨ p.phase = .connecting) :
    Move s others p s { p with phase := .ended }
  | connect (hp : p.phase = .connecting) :
    Move s others p s { p with phase := .acquiring false }
  | grant (hp : p.phase = .acquiring false)
      (h : ∀ q ∈ others, ({ p with held := true } : Lease Host).Compatible q) :
    Move s others p s { p with phase := .acquiring true, held := true }
  /-- The lock is granted to a call that no longer waits for it. -/
  | grantLate (fenced : Bool) (hp : p.phase = .cleaning fenced)
      (h : ∀ q ∈ others, ({ p with held := true } : Lease Host).Compatible q) :
    Move s others p s { p with held := true }
  | enter (hp : p.phase = .acquiring true) (hk : p.kind = .mutation)
      (h : processCutoverIsFenced s p.host = false) :
    Move s others p s { p with phase := .active 0 }
  /-- The check is repeated once the lock is there. -/
  | reject (hp : p.phase = .acquiring true) (hk : p.kind = .mutation)
      (h : processCutoverIsFenced s p.host = true) :
    Move s others p s { p with phase := .releasing false }
  | lockMigration (hp : p.phase = .acquiring true) (hk : p.kind ≠ .mutation) :
    Move s others p s { p with phase := .lockingMigration false }
  | grantMigration (hp : p.phase = .lockingMigration false) (hk : p.kind ≠ .mutation)
      (h : ∀ q ∈ others, q.migration = false) :
    Move s others p s { p with phase := .lockingMigration true, migration := true }
  | grantMigrationLate (fenced : Bool) (hp : p.phase = .cleaning fenced) (hk : p.kind ≠ .mutation)
      (h : ∀ q ∈ others, q.migration = false) :
    Move s others p s { p with migration := true }
  | enterExclusive (hp : p.phase = .lockingMigration true) (hk : p.kind = .exclusive) :
    Move s others p s { p with phase := .active 0 }
  | verify (hp : p.phase = .lockingMigration true) (hk : p.kind = .retained) :
    Move s others p s { p with phase := .verifying false }
  /-- `verify_held` finds the lock with the original backend. -/
  | verified (hp : p.phase = .verifying false) (hheld : p.held = true) :
    Move s others p s { p with phase := .verifying true }
  | retain (hp : p.phase = .verifying true) (hk : p.kind = .retained) :
    Move s others p (activateProcessCutoverFence s p.host) { p with phase := .active 0 }
  /-- A retained barrier that could not be verified is closed. -/
  | abandon (verified : Bool) (hp : p.phase = .verifying verified) :
    Move s others p s { p with phase := .leavingMigration false }
  /-- A context that joins the lease of its task. -/
  | nest (nested : ℕ) (hp : p.phase = .active nested) (hk : p.kind = .mutation)
      (h : processCutoverIsFenced s p.host = false) :
    Move s others p s { p with phase := .active (nested + 1) }
  | unnest (nested : ℕ) (hp : p.phase = .active (nested + 1)) (hk : p.kind = .mutation) :
    Move s others p s { p with phase := .active nested }
  | leave (hp : p.phase = .active 0) (hk : p.kind = .mutation) :
    Move s others p s { p with phase := .releasing false }
  | leaveExclusive (hp : p.phase = .active 0) (hk : p.kind = .exclusive) :
    Move s others p s { p with phase := .leavingMigration false }
  /-- `close` of a retained barrier. -/
  | close (hp : p.phase = .active 0) (hk : p.kind = .retained) :
    Move s others p s { p with phase := .leavingMigration true }
  | unlockMigration (fenced : Bool) (hp : p.phase = .leavingMigration fenced) :
    Move s others p s { p with migration := false }
  | leaveMigration (fenced : Bool) (hp : p.phase = .leavingMigration fenced)
      (h : p.migration = false) :
    Move s others p s { p with phase := .releasing fenced }
  | unlock (fenced : Bool) (hp : p.phase = .releasing fenced) :
    Move s others p s { p with held := false }
  | released (fenced : Bool) (hp : p.phase = .releasing fenced) (h : p.held = false) :
    Move s others p s { p with phase := .closing fenced }
  | fail (phase : Phase) (hp : p.phase.failed = some phase) :
    Move s others p s { p with phase := phase }
  /-- `_cleanup_connection` ends the session. -/
  | cleanup (fenced : Bool) (hp : p.phase = .cleaning fenced) :
    Move s others p s { p with phase := .closing fenced, held := false, migration := false }
  /-- The connection is closed, unless it is borrowed. -/
  | finish (fenced : Bool) (hp : p.phase = .closing fenced) :
    Move s others p (if fenced then releaseProcessCutoverFence s p.host else s)
      { p with phase := .ended }
  /-- PostgreSQL ends the session, or a cancelled statement does. -/
  | lose (h : p.held = true ∨ p.migration = true) :
    Move s others p { s with lost := true } { p with held := false, migration := false }

/-- A call is made. -/
def start (p : Lease Host) : Prop :=
  p.phase = .requested ∧ p.held = false ∧ p.migration = false

/-- A call takes its next step. -/
def move (P : Pool (Shared Host) (Lease Host)) (i : ℕ) (p : Lease Host) (s : Shared Host)
    (p' : Lease Host) : Prop :=
  Move P.shared (P.procs.eraseIdx i) p s p'

/-! ## Locks -/

/-- The call knows that its session has been granted the lock, and has not begun to release it. -/
def Phase.Locked : Phase → Prop
  | .acquiring granted => granted = true
  | .lockingMigration _ | .verifying _ | .active _ | .leavingMigration _ => True
  | _ => False

/-- The session cannot hold the lock. -/
def Phase.Free : Phase → Prop
  | .requested | .connecting | .closing _ | .ended => True
  | _ => False

/-- The session can hold the migration lock. -/
def Phase.Migrating : Phase → Prop
  | .lockingMigration _ | .verifying _ | .active _ | .leavingMigration _ | .cleaning _ => True
  | _ => False

/-- The locks of a session fit the phase of its call. -/
structure Lease.Sound (lost : Bool) (p : Lease Host) : Prop where
  held : lost = false → p.phase.Locked → p.held = true
  free : p.phase.Free → p.held = false
  migration : p.migration = true → p.kind ≠ .mutation ∧ p.phase.Migrating

omit [DecidableEq Host] in
theorem Lease.Sound.lose {lost : Bool} (h : p.Sound lost) : p.Sound true where
  held := nofun
  free := h.free
  migration := h.migration

omit [DecidableEq Host] in
/-- A step that leaves the locks as they are. -/
theorem Lease.Sound.goto {lost : Bool} (h : p.Sound lost) {phase : Phase}
    (hlocked : phase.Locked → p.phase.Locked) (hfree : phase.Free → p.held = false)
    (hmigration : p.kind ≠ .mutation → p.phase.Migrating → p.migration = true → phase.Migrating) :
    ({ p with phase := phase } : Lease Host).Sound lost where
  held hlost hphase := h.held hlost (hlocked hphase)
  free := hfree
  migration hm := ⟨(h.migration hm).1, hmigration (h.migration hm).1 (h.migration hm).2 hm⟩

/-! ## One step -/

section Step

variable {s s' : Shared Host} {others : List (Lease Host)} {p p' : Lease Host}

/-- A loss is not forgotten. -/
theorem Move.lost (h : Move s others p s' p') : s'.lost = s.lost ∨ s'.lost = true := by
  cases h with
  | lose => exact .inr rfl
  | finish fenced => cases fenced <;> exact .inl rfl
  | _ => exact .inl rfl

theorem Move.sound (h : Move s others p s' p') (hp : p.Sound s.lost) : p'.Sound s'.lost := by
  cases h with
  | request hphase | connect hphase =>
    refine hp.goto (fun h => ?_) (fun _ => hp.free (hphase ▸ trivial)) (fun _ h => ?_)
    · cases h
    · rw [hphase] at h
      cases h
  | giveUp hphase =>
    have hfree : p.phase.Free := by rcases hphase with h | h <;> exact h ▸ trivial
    refine hp.goto (fun h => h.elim) (fun _ => hp.free hfree) (fun _ h => ?_)
    rcases hphase with h' | h' <;> exact absurd h (h' ▸ id)
  | grant hphase hcompatible =>
    exact ⟨fun _ _ => rfl, nofun, fun h => absurd (hp.migration h).2 (hphase ▸ id)⟩
  | grantLate fenced hphase hcompatible =>
    exact ⟨fun _ _ => rfl, fun h => absurd h (by rw [hphase]; exact id), hp.migration⟩
  | enter hphase hk =>
    refine hp.goto (fun _ => hphase ▸ rfl) nofun (fun hk' => absurd hk hk')
  | reject hphase hk => exact hp.goto nofun nofun (fun hk' => absurd hk hk')
  | lockMigration hphase hk | enterExclusive hphase hk | verify hphase hk =>
    exact hp.goto (fun _ => hphase ▸ by trivial) nofun (fun _ _ _ => trivial)
  | grantMigration hphase hk =>
    exact ⟨fun hlost _ => hp.held hlost (hphase ▸ trivial), nofun, fun _ => ⟨hk, trivial⟩⟩
  | grantMigrationLate fenced hphase hk =>
    exact ⟨hp.held, hp.free, fun _ => ⟨hk, hphase ▸ trivial⟩⟩
  | verified hphase | abandon _ hphase | retain hphase | nest _ hphase | unnest _ hphase
  | leaveExclusive hphase | close hphase =>
    exact hp.goto (fun _ => hphase ▸ trivial) nofun (fun _ _ _ => trivial)
  | leave hphase hk => exact hp.goto nofun nofun (fun hk' => absurd hk hk')
  | unlockMigration fenced hphase => exact ⟨hp.held, hp.free, nofun⟩
  | leaveMigration fenced hphase hm =>
    exact hp.goto nofun nofun (fun _ _ h => absurd h (by rw [hm]; decide))
  | unlock fenced hphase =>
    exact ⟨fun _ h => absurd h (by rw [hphase]; exact id), fun _ => rfl, hp.migration⟩
  | released fenced hphase hheld =>
    exact hp.goto nofun (fun _ => hheld) (fun _ h => absurd h (by rw [hphase]; exact id))
  | fail phase hphase =>
    obtain ⟨fenced, rfl⟩ := Phase.eq_cleaning_of_failed hphase
    exact hp.goto nofun nofun (fun _ _ _ => trivial)
  | cleanup fenced hphase => exact ⟨nofun, fun _ => rfl, nofun⟩
  | finish fenced hphase =>
    have hended : Lease.Sound s.lost { p with phase := .ended } :=
      hp.goto nofun (fun _ => hp.free (hphase ▸ trivial))
        (fun _ h => absurd h (by rw [hphase]; exact id))
    cases fenced <;> exact hended
  | lose => exact ⟨nofun, fun _ => rfl, nofun⟩

/-- What is granted is compatible with what the others hold. -/
theorem Move.compatible (h : Move s others p s' p') {q : Lease Host} (hq : q ∈ others)
    (hcompatible : p.Compatible q) : p'.Compatible q := by
  cases h with
  | grant _ h | grantLate _ _ h => exact h q hq
  | unlock | cleanup | lose => exact nofun
  | _ => exact hcompatible

/-- A context is admitted only where there is no fence. -/
theorem Move.admits (h : Move s others p s' p') (hcontexts : p.contexts < p'.contexts) :
    processCutoverIsFenced s p.host = false := by
  cases h with
  | enter _ _ h | nest _ _ _ h => exact h
  | grantLate | grantMigrationLate | unlockMigration | unlock | lose =>
    exact absurd hcontexts (Nat.lt_irrefl _)
  | unnest nested hphase hk =>
    simp only [Lease.contexts, hphase, hk] at hcontexts
    omega
  | enterExclusive _ hk | retain _ hk => simp [Lease.contexts, hk] at hcontexts
  | fail phase hphase =>
    obtain ⟨fenced, rfl⟩ := Phase.eq_cleaning_of_failed hphase
    simp [Lease.contexts] at hcontexts
  | _ => simp [Lease.contexts] at hcontexts

/-- The fence of a process is raised and lowered with the barriers that are retained there. -/
theorem Move.fence (h : Move s others p s' p')
    (hlive : p.live = true → 0 < s.cutoverFenceCount p.host) (host : Host) :
    s'.cutoverFenceCount host + (p.fences host).toNat =
      s.cutoverFenceCount host + (p'.fences host).toNat := by
  unfold Lease.fences
  cases h with
  | retain hphase hk =>
    have hp : p.live = false := by simp [Lease.live, hphase]
    by_cases hhost : p.host = host
    · subst hhost
      simp [activateProcessCutoverFence, Lease.live, hphase, hk]
    · simp [activateProcessCutoverFence, hhost, Function.update_of_ne (Ne.symm hhost)]
  | finish fenced hphase =>
    have hfenced : p.live = fenced := by simp [Lease.live, hphase]
    cases fenced with
    | false => simp [Lease.live, hphase]
    | true =>
      have hpos := hlive hfenced
      by_cases hhost : p.host = host
      · subst hhost
        simp [releaseProcessCutoverFence, Lease.live, hphase]
        omega
      · simp [releaseProcessCutoverFence, hhost, Function.update_of_ne (Ne.symm hhost)]
  | giveUp hphase => rcases hphase with hphase | hphase <;> simp [Lease.live, hphase]
  | fail phase hphase =>
    have hkept : Lease.live { p with phase := phase } = p.live := by
      unfold Phase.failed at hphase
      split at hphase <;> cases hphase <;> simp_all [Lease.live]
    rw [hkept]
  | grantLate | grantMigrationLate | unlockMigration | unlock | lose => rfl
  | _ => simp [Lease.live, *]

end Step

/-! ## Runs -/

variable {P Q : Pool (Shared Host) (Lease Host)}

/-- What holds in every state of a run. -/
structure Guarded (P : Pool (Shared Host) (Lease Host)) : Prop where
  sound : ∀ p ∈ P.procs, p.Sound P.shared.lost
  compatible : P.procs.Pairwise Lease.Compatible
  fence : ∀ host, P.shared.cutoverFenceCount host = P.procs.countP (Lease.fences host)

/-- A retained barrier keeps the fence of its process up. -/
theorem Guarded.fence_pos (hP : Guarded P) (hp : p ∈ P.procs) (hlive : p.live = true) :
    0 < P.shared.cutoverFenceCount p.host := by
  rw [hP.fence, List.countP_pos_iff]
  exact ⟨p, hp, by simp [Lease.fences, hlive]⟩

theorem Guarded.step (hP : Guarded P) (h : Pool.Step start move P Q) : Guarded Q := by
  cases h with
  | @arrive p hstart =>
    obtain ⟨hphase, hheld, hmigration⟩ := hstart
    refine ⟨fun q hq => ?_, ?_, fun host => ?_⟩
    · rcases List.mem_append.1 hq with hq | hq
      · exact hP.sound q hq
      · rw [List.mem_singleton.1 hq]
        refine ⟨fun _ h => ?_, fun _ => hheld, fun h => ?_⟩
        · rw [hphase] at h
          cases h
        · rw [hmigration] at h
          cases h
    · refine List.pairwise_append.2 ⟨hP.compatible, List.pairwise_singleton _ _, ?_⟩
      intro q _ r hr _ hheld'
      rw [List.mem_singleton.1 hr, hheld] at hheld'
      cases hheld'
    · have hfences : p.fences host = false := by simp [Lease.fences, Lease.live, hphase]
      simp [hP.fence host, hfences]
  | @move i p p' s' hp hmove =>
    obtain ⟨hsound, hothers⟩ := (Pool.forall_procs hp).1 hP.sound
    obtain ⟨hcompatible, hpairwise⟩ :=
      (Pool.pairwise_procs Lease.Compatible.symm hp).1 hP.compatible
    refine ⟨(Pool.forall_set p' hp).2 ⟨hmove.sound hsound, fun q hq => ?_⟩,
      (Pool.pairwise_set Lease.Compatible.symm p' hp).2
        ⟨fun q hq => hmove.compatible hq (hcompatible q hq), hpairwise⟩, fun host => ?_⟩
    · rcases hmove.lost with hlost | hlost
      · rw [hlost]
        exact hothers q hq
      · rw [hlost]
        exact (hothers q hq).lose
    · have hstep := hmove.fence (hP.fence_pos (List.mem_of_getElem? hp)) host
      have hcount := hP.fence host
      rw [(Pool.procs_perm hp).countP_eq, List.countP_cons] at hcount
      rw [(Pool.set_perm p' hp).countP_eq, List.countP_cons]
      cases hpf : p.fences host <;> cases hpf' : p'.fences host <;>
        simp [hpf, hpf'] at hstep hcount ⊢ <;> omega

theorem Guarded.run (h : Pool.Run start move ⟨{}, []⟩ P) : Guarded P :=
  h.invariant Guarded.step ⟨fun _ h => absurd h List.not_mem_nil, .nil, fun _ => rfl⟩

omit [DecidableEq Host] in
/-- An open context of a mutation holds the lock while no session has been lost. -/
theorem Lease.Sound.held_of_contexts (h : p.Sound false) (hcontexts : 0 < p.contexts) :
    p.kind = .mutation ∧ p.held = true := by
  unfold Lease.contexts at hcontexts
  split at hcontexts
  · rename_i nested hkind hphase
    exact ⟨hkind, h.held rfl (hphase ▸ trivial)⟩
  · cases hcontexts

omit [DecidableEq Host] in
theorem Lease.Sound.held_of_excludes (h : p.Sound false) (hp : p.Excludes) : p.held = true := by
  obtain ⟨-, hphase⟩ := hp
  refine h.held rfl ?_
  split at hphase
  all_goals first
    | exact hphase.elim
    | (rename_i heq; rw [heq]; trivial)

/-- After every run, no mutation is active together with an exclusive lease unless a session was
lost; no step admits a context of a mutation in a process with a retained barrier; the fence of a
process counts its retained barriers; and no call that has ended holds a lock. -/
theorem mutual_exclusion (h : Pool.Run start move ⟨{}, []⟩ P) :
    (P.shared.lost = false → ∀ p ∈ P.procs, ∀ q ∈ P.procs, 0 < p.contexts → ¬q.Excludes) ∧
    (∀ i p s' p', P.procs[i]? = some p → move P i p s' p' → p.contexts < p'.contexts →
      ∀ q ∈ P.procs, q.host = p.host → q.live = false) ∧
    (∀ host, P.shared.cutoverFenceCount host = P.procs.countP (Lease.fences host)) ∧
    (∀ p ∈ P.procs, p.phase = .ended → p.held = false ∧ p.migration = false) := by
  have hP := Guarded.run h
  refine ⟨fun hlost p hp q hq hcontexts hexcludes => ?_, ?_, hP.fence, fun p hp hphase => ?_⟩
  · obtain ⟨hkind, hheld⟩ := (hlost ▸ hP.sound p hp).held_of_contexts hcontexts
    have hheld' := (hlost ▸ hP.sound q hq).held_of_excludes hexcludes
    have hne : p ≠ q := by
      rintro rfl
      exact hexcludes.1 hkind
    have : Std.Symm (@Lease.Compatible Host) := ⟨fun _ _ h => h.symm⟩
    exact hexcludes.1 (hP.compatible.forall hp hq hne hheld hheld').2
  · intro i p s' p' hp hmove hcontexts q hq hhost
    have hfence := hmove.admits hcontexts
    by_contra hlive
    have := hP.fence_pos hq (by simpa using hlive)
    rw [hhost] at this
    simp [processCutoverIsFenced] at hfence
    omega
  · have hsound := hP.sound p hp
    refine ⟨hsound.free (hphase ▸ trivial), ?_⟩
    by_contra hm
    have := (hsound.migration (by simpa using hm)).2
    rw [hphase] at this
    exact this

/-- The session of a retained barrier is lost while a mutation waits for the lock. -/
theorem queued_mutation_rejected :
    ∃ P : Pool (Shared ℕ) (Lease ℕ),
      P.procs.map Lease.phase = [.active 0, .releasing false] ∧ P.shared.lost = true ∧
      (P.shared.lost = false → ∀ p ∈ P.procs, ∀ q ∈ P.procs, 0 < p.contexts → ¬q.Excludes) ∧
      (∀ i p s' p', P.procs[i]? = some p → move P i p s' p' → p.contexts < p'.contexts →
        ∀ q ∈ P.procs, q.host = p.host → q.live = false) ∧
      (∀ host, P.shared.cutoverFenceCount host = P.procs.countP (Lease.fences host)) ∧
      (∀ p ∈ P.procs, p.phase = .ended → p.held = false ∧ p.migration = false) := by
  let cutover : Lease ℕ := { host := 0, kind := .retained }
  let writer : Lease ℕ := { host := 0, kind := .mutation }
  have hqueued : Pool.Run start move ⟨{}, []⟩
      ⟨{}, [cutover, { writer with phase := .acquiring false }]⟩ :=
    .tail (.tail (.tail (.tail .refl (.arrive (p := cutover) ⟨rfl, rfl, rfl⟩))
      (.arrive (p := writer) ⟨rfl, rfl, rfl⟩))
      (.move (i := 1) rfl (.request rfl fun _ => rfl))) (.move (i := 1) rfl (.connect rfl))
  have hretained : Pool.Run start move
      ⟨{}, [cutover, { writer with phase := .acquiring false }]⟩
      ⟨activateProcessCutoverFence {} 0,
        [{ cutover with phase := .active 0, held := true, migration := true },
          { writer with phase := .acquiring false }]⟩ := by
    refine .tail (.tail (.tail (.tail (.tail (.tail (.tail (.tail .refl
      (.move (i := 0) rfl (.request rfl nofun))) (.move (i := 0) rfl (.connect rfl)))
      (.move (i := 0) rfl (.grant rfl ?_))) (.move (i := 0) rfl (.lockMigration rfl nofun)))
      (.move (i := 0) rfl (.grantMigration rfl nofun ?_))) (.move (i := 0) rfl (.verify rfl rfl)))
      (.move (i := 0) rfl (.verified rfl rfl))) (.move (i := 0) rfl (.retain rfl rfl))
    all_goals simp [Lease.Compatible, writer]
  have hlost : Pool.Run start move
      ⟨activateProcessCutoverFence {} 0,
        [{ cutover with phase := .active 0, held := true, migration := true },
          { writer with phase := .acquiring false }]⟩
      ⟨{ activateProcessCutoverFence {} 0 with lost := true },
        [{ cutover with phase := .active 0 },
          { writer with phase := .releasing false, held := true }]⟩ := by
    refine .tail (.tail (.tail .refl (.move (i := 0) rfl (.lose (.inl rfl))))
      (.move (i := 1) rfl (.grant rfl ?_))) (.move (i := 1) rfl (.reject rfl rfl rfl))
    simp [Lease.Compatible, cutover]
  exact ⟨_, rfl, rfl, mutual_exclusion ((hqueued.trans hretained).trans hlost)⟩

end WriteBarrier

end PPBase
