import Mathlib.Data.List.Pairwise
import PPBase.Interleaving
import PPBase.StorageRuntime

/-!
# Updates of the settings

Any number of `PATCH /api/settings` requests take turns. Each reads the settings row, commits the
merged value and switches the storage to it under the exclusive write barrier, and proves before
and after the switch that its session still holds the barrier. Whatever fails once the commit has
been sent is followed by a reconciliation, which reads the row again under a fresh barrier.

Every `await` may fail or be cancelled, a session may end at any time, and a commit that is under
way is then applied or not. `settings_agree` : after every run, the row is the merge of the bodies
that were committed, in their order, and unless a reconciliation has failed or a request is still
running, the live configuration is the one that the row and the settings of the process ask for, if
and only if the storage was not switched or the row is `Chosen`.
-/

namespace PPBase

namespace SettingsRuns

open StorageRuntime

/-- The `_params` row of the settings, whose value may be null. -/
abbrev SettingsRow := Option (Option (Dict Text Value))

/-! ## Requests -/

/-- What a transaction writes : a merged value, or the defaults where the row is missing. -/
inductive Transaction
  | patch (value : Dict Text Value)
  | create

def Transaction.write (row : SettingsRow) : Transaction → SettingsRow
  | .patch value => some (some value)
  | .create => some (row.getD (some defaultSettings))

/-- The server's side of a session. -/
structure Session where
  locked : Bool := false
  pending : Option Transaction := none

/-- Where a request, or the reconciliation that follows it, is. The value is the one that is to be
committed and applied; `started` says that the commit has been sent. -/
inductive Phase
  | acquiring (granted : Bool)
  | locked
  | loaded (current : Dict Text Value)
  | committing (value : Dict Text Value) (acknowledged : Bool)
  | committed (value : Dict Text Value)
  | asserted (value : Dict Text Value)
  | applied (value : Dict Text Value)
  | verified
  | failing (started : Bool)
  | returned
  | raised

/-- `commit_started` -/
def Phase.started : Phase → Bool
  | .committing _ _ | .committed _ | .asserted _ | .applied _ | .verified => true
  | _ => false

/-- The request awaits something, and has not failed. -/
def Phase.Awaiting : Phase → Prop
  | .failing _ | .returned | .raised => False
  | _ => True

/-- The server's answer to a commit reaches the request if it still waits for it. -/
def Phase.acknowledge : Phase → Phase
  | .committing value _ => .committing value true
  | phase => phase

/-- A request with the server's side of its session. -/
structure Request where
  body : Dict Text Value
  recovering : Bool := false
  phase : Phase := .acquiring false
  session : Session := {}

/-- `merged`, or the durable value that a reconciliation has read. -/
def Request.value (p : Request) (current : Dict Text Value) : Dict Text Value :=
  if p.recovering then current else deepMerge current p.body

def Request.transaction (p : Request) (current : Dict Text Value) : Transaction :=
  if p.recovering then .create else .patch (deepMerge current p.body)

/-- The request is neither returned nor raised. -/
def Request.Running (p : Request) : Prop :=
  match p.phase with
  | .returned | .raised => False
  | _ => True

/-- The row, the live storage, whether it was switched since the process was started, the committed
requests with their bodies, and whether a reconciliation has failed. -/
structure Shared where
  row : SettingsRow
  runtime : StorageRuntime.Runtime
  switched : Bool := false
  committed : List (ℕ × Dict Text Value) := []
  failed : Bool := false

def Shared.commit (s : Shared) (i : ℕ) (body : Dict Text Value) (t : Transaction) : Shared :=
  { s with
    row := t.write s.row
    committed :=
      match t with
      | .patch _ => s.committed ++ [(i, body)]
      | .create => s.committed }

/-! ## Steps -/

-- Python's `str` of a value that is no string.
variable (str : Value → Text)

/-- One step of request `i`, where `others` are the other requests. -/
inductive Move (s : Shared) (i : ℕ) (others : List Request) (p : Request) : Shared → Request → Prop
  | grant (hp : p.phase = .acquiring false) (hfree : p.session.locked = false)
      (h : ∀ q ∈ others, q.session.locked = false) :
    Move s i others p s
      { p with phase := .acquiring true, session := { p.session with locked := true } }
  /-- The barrier is granted to a session that is being given up. -/
  | grantLate (started : Bool) (hp : p.phase = .failing started) (hfree : p.session.locked = false)
      (h : ∀ q ∈ others, q.session.locked = false) :
    Move s i others p s { p with session := { p.session with locked := true } }
  | acquired (hp : p.phase = .acquiring true) : Move s i others p s { p with phase := .locked }
  | read (hp : p.phase = .locked) (h : p.session.locked = true) :
    Move s i others p s { p with phase := .loaded (currentSettings s.row) }
  /-- The commit is sent, on a session that may be gone. -/
  | send (current : Dict Text Value) (hp : p.phase = .loaded current) :
    Move s i others p s
      { p with
        phase := .committing (p.value current) false
        session :=
          { p.session with
            pending := if p.session.locked then some (p.transaction current) else none } }
  | commit (t : Transaction) (h : p.session.pending = some t) :
    Move s i others p (s.commit i p.body t)
      { p with phase := p.phase.acknowledge, session := { p.session with pending := none } }
  /-- The server refuses the commit. -/
  | refuse (t : Transaction) (h : p.session.pending = some t) :
    Move s i others p s { p with session := { p.session with pending := none } }
  /-- The session ends, and its transaction is rolled back. -/
  | lose (h : p.session.locked = true) : Move s i others p s { p with session := {} }
  /-- The session ends with its commit, whose acknowledgement is lost. -/
  | loseCommitted (t : Transaction) (h : p.session.pending = some t) :
    Move s i others p (s.commit i p.body t) { p with session := {} }
  | acknowledged (value : Dict Text Value) (hp : p.phase = .committing value true) :
    Move s i others p s { p with phase := .committed value }
  /-- `assert_write_barrier_held` before the switch. -/
  | assertHeld (value : Dict Text Value) (hp : p.phase = .committed value)
      (h : p.session.locked = true) :
    Move s i others p s { p with phase := .asserted value }
  | apply (value : Dict Text Value) (hp : p.phase = .asserted value) :
    Move s i others p
      { s with runtime := applyRuntimeSettingsToApp str s.runtime value, switched := true }
      { p with phase := .applied value }
  /-- `assert_write_barrier_held` after the switch. -/
  | verify (value : Dict Text Value) (hp : p.phase = .applied value)
      (h : p.session.locked = true) :
    Move s i others p s { p with phase := .verified }
  | release (hp : p.phase = .verified ∨ ∃ started, p.phase = .failing started)
      (h : p.session.pending = none) :
    Move s i others p s { p with session := {} }
  | finish (hp : p.phase = .verified) (h : p.session.locked = false) :
    Move s i others p s { p with phase := if p.recovering then .raised else .returned }
  /-- Something is raised, by an `await` or by the checks of the body before the barrier. -/
  | fail (hp : p.phase.Awaiting) :
    Move s i others p s { p with phase := .failing p.phase.started }
  | reraise (hp : p.phase = .failing false) (h : p.recovering = false) :
    Move s i others p s { p with phase := .raised }
  | reconcile (hp : p.phase = .failing true) (h : p.recovering = false)
      (hended : p.session.locked = false) :
    Move s i others p s { body := p.body, recovering := true }
  | reconciliationFails (started : Bool) (hp : p.phase = .failing started)
      (h : started = true ∨ p.recovering = true) :
    Move s i others p { s with failed := true } { p with phase := .raised }

/-- A request arrives. -/
def start (p : Request) : Prop := ∃ body, p = { body }

/-- Where a process starts : the storage is configured from the row. -/
def initial (row : SettingsRow) (settings : Settings) : Pool Shared Request :=
  ⟨{ row, runtime := ⟨settings, storageOverridesFromSettingsPayload str (row.bind id)⟩ }, []⟩

/-- Nothing was switched or committed yet, or the row has been applied. -/
def Agrees (start s : Shared) : Prop :=
  s.switched = false ∧ s.runtime = start.runtime ∧ s.row = start.row ∨
    s.switched = true ∧ Applied str s.runtime s.row

/-- A request takes its next step. -/
def move (P : Pool Shared Request) (i : ℕ) (p : Request) (s : Shared) (p' : Request) : Prop :=
  Move str P.shared i (P.procs.eraseIdx i) p s p'

/-! ## One request -/

/-- The request has yet to put the live storage right. -/
def Request.dirty (p : Request) : Bool :=
  match p.phase with
  | .committing _ _ | .committed _ | .asserted _ | .applied _ => true
  | .acquiring _ | .locked | .loaded _ => p.recovering
  | .failing started => started || p.recovering
  | .verified | .returned | .raised => false

/-- The value that is known to be durable. -/
def Phase.durable : Phase → Option (Dict Text Value)
  | .committing value true | .committed value | .asserted value | .applied value => some value
  | _ => none

/-- No commit has been sent. -/
def Phase.early : Phase → Bool
  | .acquiring _ | .locked | .loaded _ => true
  | _ => false

/-- The request commits no body any more. -/
def Request.Spent (p : Request) : Prop :=
  p.recovering = true ∨
    p.phase.early = false ∧ ∀ value, p.session.pending ≠ some (.patch value)

/-- The request has seen its commit succeed. -/
def Request.Succeeded (p : Request) : Prop :=
  match p.phase with
  | .committing _ true | .committed _ | .asserted _ | .applied _ | .verified => p.recovering = false
  | .returned => True
  | _ => False

/-- What a request knows of the row while its session holds the barrier. -/
structure Request.Sound (s : Shared) (p : Request) : Prop where
  locked : ∀ t, p.session.pending = some t → p.session.locked = true
  sent : ∀ t, p.session.pending = some t → (∃ value, p.phase = .committing value false) ∨
    (∃ started, p.phase = .failing started ∧ p.dirty = true) ∨
      p.phase = .raised ∧ s.failed = true
  patch : ∀ value, p.session.pending = some (.patch value) →
    p.recovering = false ∧ value = deepMerge (currentSettings s.row) p.body
  create : p.session.pending = some .create → p.recovering = true
  loaded : p.session.locked = true → ∀ current, p.phase = .loaded current →
    current = currentSettings s.row
  pending : ∀ t value, p.session.pending = some t → p.phase = .committing value false →
    currentSettings (t.write s.row) = value
  durable : p.session.locked = true → ∀ value, p.phase.durable = some value →
    currentSettings s.row = value

section Step

variable {s s' : Shared} {i : ℕ} {others : List Request} {p p' : Request}

/-- A request whose session has no commit under way. -/
theorem Request.Sound.idle (hnone : p.session.pending = none)
    (hloaded : p.session.locked = true → ∀ current, p.phase = .loaded current →
      current = currentSettings s.row)
    (hdurable : p.session.locked = true → ∀ value, p.phase.durable = some value →
      currentSettings s.row = value) : p.Sound s where
  locked t h := by rw [hnone] at h; cases h
  sent t h := by rw [hnone] at h; cases h
  patch value h := by rw [hnone] at h; cases h
  create h := by rw [hnone] at h; cases h
  loaded := hloaded
  pending t value h := by rw [hnone] at h; cases h
  durable := hdurable

theorem Request.Sound.unlocked (h : p.Sound s) (hlocked : p.session.locked = false) :
    p.session.pending = none := by
  cases hpending : p.session.pending with
  | none => rfl
  | some t =>
    rw [h.locked t hpending] at hlocked
    cases hlocked

/-- A request that does not hold the barrier knows nothing of the row. -/
theorem Request.Sound.of_unlocked (hnone : p.session.pending = none)
    (hlocked : p.session.locked = false) : p.Sound s :=
  .idle hnone (fun h => by rw [hlocked] at h; cases h) (fun h => by rw [hlocked] at h; cases h)

theorem Request.Sound.congr (h : p.Sound s) (hrow : s'.row = s.row)
    (hfailed : s.failed = true → s'.failed = true) : p.Sound s' where
  locked := h.locked
  sent t ht := (h.sent t ht).imp_right (Or.imp_right (And.imp_right hfailed))
  patch := hrow ▸ h.patch
  create := h.create
  loaded := hrow ▸ h.loaded
  pending := hrow ▸ h.pending
  durable := hrow ▸ h.durable

/-- A commit is under way only where a request waits for it or has given it up. -/
theorem Request.Sound.pending_eq_none (h : p.Sound s)
    (hcommitting : ∀ value, p.phase ≠ .committing value false)
    (hfailing : ∀ started, p.phase ≠ .failing started) (hraised : p.phase ≠ .raised) :
    p.session.pending = none := by
  cases hpending : p.session.pending with
  | none => rfl
  | some t =>
    rcases h.sent t hpending with ⟨value, hphase⟩ | ⟨started, hphase, -⟩ | ⟨hphase, -⟩
    · exact absurd hphase (hcommitting value)
    · exact absurd hphase (hfailing started)
    · exact absurd hphase hraised

/-- What the commit of a request leaves in the row. -/
theorem Request.currentSettings_write (p : Request) (row : SettingsRow) :
    currentSettings ((p.transaction (currentSettings row)).write row) =
      p.value (currentSettings row) := by
  unfold Request.transaction Request.value
  cases p.recovering with
  | false => exact currentSettings_deepMerge row p.body
  | true =>
    cases row with
    | none => rfl
    | some value => rfl

theorem Move.sound (h : Move str s i others p s' p') (hp : p.Sound s) : p'.Sound s' := by
  have hidle : ∀ {phase : Phase}, p.phase = phase → (∀ value, phase ≠ .committing value false) →
      (∀ started, phase ≠ .failing started) → phase ≠ .raised → p.session.pending = none := by
    rintro _ rfl
    exact hp.pending_eq_none
  cases h with
  | grant hphase =>
    exact .idle (hidle hphase nofun nofun nofun) nofun nofun
  | grantLate started hphase hfree =>
    refine .idle (hp.unlocked hfree) (fun _ current h => ?_) (fun _ value h => ?_)
    · rw [hphase] at h
      cases h
    · rw [hphase] at h
      cases h
  | acquired hphase => exact .idle (hidle hphase nofun nofun nofun) nofun nofun
  | read hphase hlocked =>
    refine .idle (hidle hphase nofun nofun nofun) (fun _ current h => ?_) nofun
    exact (Phase.loaded.inj h).symm
  | send current hphase =>
    cases hlocked : p.session.locked with
    | false => exact .of_unlocked (by simp) hlocked
    | true =>
      obtain rfl := hp.loaded hlocked current hphase
      refine ⟨fun _ _ => hlocked, fun _ _ => .inl ⟨_, rfl⟩, fun value h => ?_, fun h => ?_, nofun,
        fun t value ht h => ?_, nofun⟩
      · have h := Option.some.inj h
        unfold Request.transaction at h
        split_ifs at h with hrecovering
        exact ⟨Bool.eq_false_iff.2 hrecovering, (Transaction.patch.inj h).symm⟩
      · have h := Option.some.inj h
        unfold Request.transaction at h
        split_ifs at h with hrecovering
        exact hrecovering
      · obtain rfl := Option.some.inj ht
        obtain rfl := (Phase.committing.inj h).1
        exact p.currentSettings_write s.row
  | commit t hpending =>
    refine .idle rfl (fun _ current h => ?_) (fun hlocked value h => ?_)
    · rcases hp.sent t hpending with ⟨value, hphase⟩ | ⟨started, hphase, -⟩ | ⟨hphase, -⟩ <;>
        simp [hphase, Phase.acknowledge] at h
    · rcases hp.sent t hpending with ⟨value', hphase⟩ | ⟨started, hphase, -⟩ | ⟨hphase, -⟩
      · rw [hphase] at h
        obtain rfl := Option.some.inj h
        exact hp.pending t value' hpending hphase
      · simp [hphase, Phase.acknowledge, Phase.durable] at h
      · simp [hphase, Phase.acknowledge, Phase.durable] at h
  | refuse t hpending => exact .idle rfl hp.loaded hp.durable
  | lose | loseCommitted | release | reconcile => exact .of_unlocked rfl rfl
  | acknowledged value hphase =>
    refine .idle (hidle hphase nofun nofun nofun) nofun (fun hlocked value' h => ?_)
    exact hp.durable hlocked value' (hphase ▸ h)
  | assertHeld value hphase hlocked =>
    refine .idle (hidle hphase nofun nofun nofun) nofun (fun _ value' h => ?_)
    exact hp.durable hlocked value' (hphase ▸ h)
  | apply value hphase =>
    refine .idle (hidle hphase nofun nofun nofun) nofun (fun hlocked value' h => ?_)
    exact hp.durable hlocked value' (hphase ▸ h)
  | verify value hphase => exact .idle (hidle hphase nofun nofun nofun) nofun nofun
  | finish hphase hlocked => exact .of_unlocked (hidle hphase nofun nofun nofun) hlocked
  | fail hawaiting =>
    refine ⟨hp.locked, fun t ht => ?_, hp.patch, hp.create, nofun, nofun, nofun⟩
    rcases hp.sent t ht with ⟨value, hphase⟩ | ⟨started, hphase, -⟩ | ⟨hphase, -⟩
    · exact .inr (.inl ⟨_, rfl, by simp [Request.dirty, hphase, Phase.started]⟩)
    · rw [hphase] at hawaiting
      exact hawaiting.elim
    · rw [hphase] at hawaiting
      exact hawaiting.elim
  | reraise hphase hrecovering =>
    refine .idle ?_ nofun nofun
    cases hpending : p.session.pending with
    | none => rfl
    | some t =>
      rcases hp.sent t hpending with ⟨value, h⟩ | ⟨started, h, hdirty⟩ | ⟨h, -⟩
      · simp [hphase] at h
      · simp [Request.dirty, hphase, hrecovering] at hdirty
      · simp [hphase] at h
  | reconciliationFails started hphase =>
    exact ⟨hp.locked, fun _ _ => .inr (.inr ⟨rfl, rfl⟩), hp.patch, hp.create, nofun, nofun, nofun⟩

/-- Only a session with the barrier changes the row. -/
theorem Move.row (h : Move str s i others p s' p') (hp : p.Sound s) :
    s'.row = s.row ∨ p.session.locked = true := by
  cases h with
  | commit t hpending | loseCommitted t hpending => exact .inr (hp.locked t hpending)
  | _ => exact .inl rfl

/-- A failed reconciliation is not forgotten. -/
theorem Move.failed (h : Move str s i others p s' p') (hs : s.failed = true) :
    s'.failed = true := by
  cases h with
  | reconciliationFails => rfl
  | _ => exact hs

theorem Move.unfailed (h : Move str s i others p s' p') (hs' : s'.failed = false) :
    s.failed = false :=
  Bool.eq_false_iff.2 fun hs => absurd (h.failed str hs) (by rw [hs']; exact Bool.false_ne_true)

/-- The barrier is granted only when nobody holds it. -/
theorem Move.exclusive (h : Move str s i others p s' p') {q : Request} (hq : q ∈ others)
    (hexclusive : ¬(p.session.locked = true ∧ q.session.locked = true)) :
    ¬(p'.session.locked = true ∧ q.session.locked = true) := by
  cases h with
  | grant _ _ h | grantLate _ _ _ h =>
    rw [h q hq]
    exact fun hboth => nomatch hboth.2
  | lose | loseCommitted | release | reconcile => exact fun hboth => nomatch hboth.1
  | _ => exact hexclusive

theorem Move.body (h : Move str s i others p s' p') : p'.body = p.body := by
  cases h <;> rfl

/-- A commit merges the body of its request into the row, once. -/
theorem Move.commits (h : Move str s i others p s' p') (hp : p.Sound s) :
    s'.committed = s.committed ∧ currentSettings s'.row = currentSettings s.row ∨
      s'.committed = s.committed ++ [(i, p.body)] ∧
        currentSettings s'.row = deepMerge (currentSettings s.row) p.body ∧
          ¬p.Spent ∧ p'.Spent := by
  have hcommit : ∀ t, p.session.pending = some t →
      (s.commit i p.body t).committed = s.committed ∧
          currentSettings (s.commit i p.body t).row = currentSettings s.row ∨
        (s.commit i p.body t).committed = s.committed ++ [(i, p.body)] ∧
          currentSettings (s.commit i p.body t).row =
            deepMerge (currentSettings s.row) p.body ∧ ¬p.Spent := by
    intro t hpending
    cases t with
    | create =>
      refine .inl ⟨rfl, ?_⟩
      show currentSettings (some (s.row.getD (some defaultSettings))) = _
      cases s.row with
      | none => rfl
      | some value => rfl
    | patch value =>
      obtain ⟨hrecovering, rfl⟩ := hp.patch value hpending
      refine .inr ⟨rfl, currentSettings_deepMerge s.row p.body, ?_⟩
      rintro (h | ⟨-, h⟩)
      · rw [hrecovering] at h
        cases h
      · exact h _ hpending
  have hlate : ∀ t, p.session.pending = some t → p.phase.early = false := by
    intro t hpending
    rcases hp.sent t hpending with ⟨value, h⟩ | ⟨started, h, -⟩ | ⟨h, -⟩ <;> rw [h] <;> rfl
  cases h with
  | commit t hpending =>
    refine (hcommit t hpending).imp_right fun ⟨h₁, h₂, h₃⟩ => ⟨h₁, h₂, h₃, .inr ⟨?_, nofun⟩⟩
    have := hlate t hpending
    cases hphase : p.phase <;> simp_all [Phase.acknowledge, Phase.early]
  | loseCommitted t hpending =>
    exact (hcommit t hpending).imp_right fun ⟨h₁, h₂, h₃⟩ =>
      ⟨h₁, h₂, h₃, .inr ⟨hlate t hpending, nofun⟩⟩
  | _ => exact .inl ⟨rfl, rfl⟩

theorem Move.spent (h : Move str s i others p s' p') (hp : p.Spent) : p'.Spent := by
  rcases hp with hrecovering | ⟨hearly, hpending⟩
  · cases h with
    | reconcile => exact .inl rfl
    | _ => exact .inl hrecovering
  · cases h with
    | grant hphase | acquired hphase | read hphase | send _ hphase =>
      rw [hphase] at hearly
      cases hearly
    | commit t _ =>
      refine .inr ⟨?_, nofun⟩
      cases hphase : p.phase <;> simp_all [Phase.acknowledge, Phase.early]
    | refuse | lose | loseCommitted | release => exact .inr ⟨hearly, nofun⟩
    | finish => exact .inr ⟨by dsimp only; split <;> rfl, hpending⟩
    | reconcile => exact .inl rfl
    | grantLate => exact .inr ⟨hearly, hpending⟩
    | _ => exact .inr ⟨rfl, hpending⟩

/-- A request that sees its commit succeed has committed. -/
theorem Move.succeeded (h : Move str s i others p s' p') (hp : p.Sound s)
    (hsucceeded : p'.Succeeded) :
    p.Succeeded ∨ s'.committed = s.committed ++ [(i, p.body)] := by
  cases h with
  | commit t hpending =>
    cases t with
    | create =>
      have hrecovering := hp.create hpending
      rcases hp.sent _ hpending with ⟨value, h⟩ | ⟨started, h, -⟩ | ⟨h, -⟩ <;>
        simp [Request.Succeeded, h, Phase.acknowledge, hrecovering] at hsucceeded
    | patch value => exact .inr rfl
  | acknowledged _ hphase | assertHeld _ hphase | apply _ hphase | verify _ hphase =>
    refine .inl ?_
    unfold Request.Succeeded
    rw [hphase]
    exact hsucceeded
  | finish hphase =>
    refine .inl ?_
    unfold Request.Succeeded
    rw [hphase]
    show p.recovering = false
    cases hrecovering : p.recovering with
    | false => rfl
    | true => simp [Request.Succeeded, hrecovering] at hsucceeded
  | grantLate | refuse | lose | loseCommitted | release => exact .inl hsucceeded
  | _ => exact hsucceeded.elim

/-- What changes the row or the live storage is put right later. -/
theorem Move.writes (h : Move str s i others p s' p') (hp : p.Sound s) :
    (s'.row = s.row ∧ s'.runtime = s.runtime ∧ s'.switched = s.switched) ∨ p'.dirty = true ∨
      s'.failed = true := by
  cases h with
  | commit t hpending =>
    rcases hp.sent t hpending with ⟨value, h⟩ | ⟨started, h, hdirty⟩ | ⟨h, hfailed⟩
    · exact .inr (.inl (by simp [Request.dirty, h, Phase.acknowledge]))
    · refine .inr (.inl ?_)
      simp only [Request.dirty, h, Phase.acknowledge] at hdirty ⊢
      exact hdirty
    · exact .inr (.inr hfailed)
  | loseCommitted t hpending =>
    rcases hp.sent t hpending with ⟨value, h⟩ | ⟨started, h, hdirty⟩ | ⟨h, hfailed⟩
    · exact .inr (.inl (by simp [Request.dirty, h]))
    · exact .inr (.inl hdirty)
    · exact .inr (.inr hfailed)
  | apply => exact .inr (.inl rfl)
  | _ => exact .inl ⟨rfl, rfl, rfl⟩

/-- A switch keeps the directory of the data. -/
theorem Move.dataDir (h : Move str s i others p s' p') :
    s'.runtime.settings.dataDir = s.runtime.settings.dataDir := by
  cases h <;> rfl

/-- Nobody is done with the live storage before the barrier is proved to be held after the
switch. -/
theorem Move.clean (h : Move str s i others p s' p') (hdirty : p.dirty = true) :
    p'.dirty = true ∨ s'.failed = true ∨
      (∃ value, p.phase = .applied value) ∧ p.session.locked = true := by
  cases h with
  | verify value hphase hlocked => exact .inr (.inr ⟨⟨value, hphase⟩, hlocked⟩)
  | reconciliationFails => exact .inr (.inl rfl)
  | finish hphase | reraise hphase hrecovering => simp_all [Request.dirty]
  | fail hawaiting =>
    refine .inl ?_
    cases hphase : p.phase <;> simp_all [Request.dirty, Phase.started, Phase.Awaiting]
  | commit t hpending =>
    refine .inl ?_
    cases hphase : p.phase <;> simp_all [Request.dirty, Phase.acknowledge]
  | grantLate | refuse | lose | loseCommitted | release => exact .inl hdirty
  | reconcile => exact .inl rfl
  | _ => simp_all [Request.dirty]

/-- After a switch below the barrier, the row has been applied. -/
theorem Move.applied (h : Move str s i others p s' p') (hp : p.Sound s) {value : Dict Text Value}
    (hphase' : p'.phase = .applied value) (hlocked' : p'.session.locked = true) :
    s'.switched = true ∧ Applied str s'.runtime s'.row := by
  cases h with
  | apply value' hphase =>
    obtain rfl := Phase.applied.inj hphase'
    have hrow := hp.durable hlocked' value' (by rw [hphase]; rfl)
    refine ⟨rfl, ?_⟩
    show Applied str (applyRuntimeSettingsToApp str s.runtime value') s.row
    rw [← hrow]
    exact applied_apply str s.runtime s.row
  | grantLate _ hphase => simp [hphase] at hphase'
  | commit t hpending | refuse t hpending =>
    rcases hp.sent t hpending with ⟨value, h⟩ | ⟨started, h, -⟩ | ⟨h, -⟩ <;>
      simp [h, Phase.acknowledge] at hphase'
  | lose | loseCommitted | release => cases hlocked'
  | finish => dsimp only at hphase'; split at hphase' <;> cases hphase'
  | _ => cases hphase'

end Step

/-! ## Runs -/

variable {P Q : Pool Shared Request} {s₀ : Shared}

/-- What holds in every state of a run. -/
structure Settled (s₀ : Shared) (P : Pool Shared Request) : Prop where
  sound : ∀ p ∈ P.procs, p.Sound P.shared
  exclusive : P.procs.Pairwise fun p q => ¬(p.session.locked = true ∧ q.session.locked = true)
  merged : currentSettings P.shared.row =
    (P.shared.committed.map Prod.snd).foldl deepMerge (currentSettings s₀.row)
  dataDir : P.shared.runtime.settings.dataDir = s₀.runtime.settings.dataDir
  once : (P.shared.committed.map Prod.fst).Nodup
  spent : ∀ c ∈ P.shared.committed, ∃ p, P.procs[c.1]? = some p ∧ p.body = c.2 ∧ p.Spent
  succeeded : ∀ i p, P.procs[i]? = some p → p.Succeeded → (i, p.body) ∈ P.shared.committed
  agrees : P.shared.failed = false →
    Agrees str s₀ P.shared ∨ ∃ q ∈ P.procs, q.dirty = true
  applied : P.shared.failed = false → ∀ (i : ℕ) (p : Request) value, P.procs[i]? = some p →
    p.session.locked = true → p.phase = .applied value →
      Agrees str s₀ P.shared ∨
        ∃ (j : ℕ) (q : Request), j ≠ i ∧ P.procs[j]? = some q ∧ q.dirty = true

section Moves

variable {s' : Shared} {i : ℕ} {p p' : Request}

/-- One request at a time holds the barrier. -/
theorem Settled.unlocked (hP : Settled str s₀ P) (hp : P.procs[i]? = some p)
    (hlocked : p.session.locked = true) {j : ℕ} {q : Request} (hji : j ≠ i)
    (hq : P.procs[j]? = some q) : q.session.locked = false := by
  have hothers := ((Pool.pairwise_procs (fun h hboth => h hboth.symm) hp).1 hP.exclusive).1 q
    (List.mem_eraseIdx_iff_getElem?.2 ⟨j, hji, hq⟩)
  by_contra hq'
  exact hothers ⟨hlocked, by simpa using hq'⟩

/-- A dirty request other than the one that moves stays dirty, and so does that one, or it has
proved the switch below the barrier. -/
theorem dirty_kept (hp : P.procs[i]? = some p)
    (hmove : move str P i p s' p') (hfailed : s'.failed = false) {j : ℕ} {q : Request}
    (hq : P.procs[j]? = some q) (hdirty : q.dirty = true) :
    (∃ q', (P.procs.set i p')[j]? = some q' ∧ q'.dirty = true) ∨
      j = i ∧ (∃ value, p.phase = .applied value) ∧ p.session.locked = true := by
  have hlength := (List.getElem?_eq_some_iff.1 hp).1
  by_cases hji : j = i
  · subst hji
    obtain rfl := Option.some.inj (hp.symm.trans hq)
    rcases hmove.clean str hdirty with h | h | h
    · exact .inl ⟨p', by simp [hlength], h⟩
    · rw [hfailed] at h
      cases h
    · exact .inr ⟨rfl, h⟩
  · exact .inl ⟨q, by rw [List.getElem?_set_ne (Ne.symm hji), hq], hdirty⟩

theorem Settled.agrees_move (hP : Settled str s₀ P) (hp : P.procs[i]? = some p)
    (hmove : move str P i p s' p') (hfailed : s'.failed = false) :
    Agrees str s₀ s' ∨ ∃ q ∈ P.procs.set i p', q.dirty = true := by
  have hlength := (List.getElem?_eq_some_iff.1 hp).1
  have hfailed₀ := hmove.unfailed str hfailed
  rcases hmove.writes str (hP.sound p (List.mem_of_getElem? hp)) with
    ⟨hrow, hruntime, hswitched⟩ | hdirty | h
  · rw [Agrees, hrow, hruntime, hswitched]
    rcases hP.agrees hfailed₀ with hagrees | ⟨q, hq, hdirty⟩
    · exact .inl hagrees
    · obtain ⟨j, hj⟩ := List.mem_iff_getElem?.1 hq
      rcases dirty_kept str hp hmove hfailed hj hdirty with
        ⟨q', hq', hdirty'⟩ | ⟨-, ⟨value, hphase⟩, hlocked⟩
      · exact .inr ⟨q', List.mem_of_getElem? hq', hdirty'⟩
      · rcases hP.applied hfailed₀ i p value hp hlocked hphase with
          hagrees | ⟨k, r, hki, hk, hdirty'⟩
        · exact .inl hagrees
        · refine .inr ⟨r, List.mem_of_getElem? (i := k) ?_, hdirty'⟩
          rw [List.getElem?_set_ne (Ne.symm hki), hk]
  · exact .inr ⟨p', List.mem_of_getElem? (i := i) (by simp [hlength]), hdirty⟩
  · rw [hfailed] at h
    cases h

theorem Settled.applied_move (hP : Settled str s₀ P) (hp : P.procs[i]? = some p)
    (hmove : move str P i p s' p') (hfailed : s'.failed = false) {k : ℕ} {r : Request}
    {value : Dict Text Value} (hr : (P.procs.set i p')[k]? = some r)
    (hlocked : r.session.locked = true) (hphase : r.phase = .applied value) :
    Agrees str s₀ s' ∨
      ∃ (j : ℕ) (q : Request), j ≠ k ∧ (P.procs.set i p')[j]? = some q ∧ q.dirty = true := by
  have hlength := (List.getElem?_eq_some_iff.1 hp).1
  have hsound := hP.sound p (List.mem_of_getElem? hp)
  rcases Pool.of_getElem?_set hr with ⟨rfl, rfl⟩ | ⟨hik, hr⟩
  · exact .inl (.inr (hmove.applied str hsound hphase hlocked))
  · have hunlocked := hP.unlocked str hr hlocked hik hp
    have hfailed₀ := hmove.unfailed str hfailed
    rcases hmove.writes str hsound with ⟨hrow, hruntime, hswitched⟩ | hdirty | h
    · rw [Agrees, hrow, hruntime, hswitched]
      rcases hP.applied hfailed₀ k r value hr hlocked hphase with
        hagrees | ⟨j, q, hjk, hq, hdirty⟩
      · exact .inl hagrees
      · rcases dirty_kept str hp hmove hfailed hq hdirty with
          ⟨q', hq', hdirty'⟩ | ⟨-, -, hlocked'⟩
        · exact .inr ⟨j, q', hjk, hq', hdirty'⟩
        · rw [hunlocked] at hlocked'
          cases hlocked'
    · exact .inr ⟨i, p', hik, by simp [hlength], hdirty⟩
    · rw [hfailed] at h
      cases h

theorem Settled.sound_move (hP : Settled str s₀ P) (hp : P.procs[i]? = some p)
    (hmove : move str P i p s' p') : ∀ q ∈ P.procs.set i p', q.Sound s' := by
  have hsound := hP.sound p (List.mem_of_getElem? hp)
  refine (Pool.forall_set p' hp).2 ⟨hmove.sound str hsound, fun q hq => ?_⟩
  obtain ⟨j, hji, hj⟩ := List.mem_eraseIdx_iff_getElem?.1 hq
  have hq := hP.sound q (List.mem_of_getElem? hj)
  rcases hmove.row str hsound with hrow | hlocked
  · exact hq.congr hrow (hmove.failed str)
  · have hunlocked := hP.unlocked str hp hlocked hji hj
    exact .of_unlocked (hq.unlocked hunlocked) hunlocked

theorem Settled.spent_move (hP : Settled str s₀ P) (hp : P.procs[i]? = some p)
    (hmove : move str P i p s' p') :
    (s'.committed.map Prod.fst).Nodup ∧
      ∀ c ∈ s'.committed, ∃ q, (P.procs.set i p')[c.1]? = some q ∧ q.body = c.2 ∧ q.Spent := by
  have hlength := (List.getElem?_eq_some_iff.1 hp).1
  have hold : ∀ c ∈ P.shared.committed,
      ∃ q, (P.procs.set i p')[c.1]? = some q ∧ q.body = c.2 ∧ q.Spent := by
    intro c hc
    obtain ⟨q, hq, hbody, hspent⟩ := hP.spent c hc
    by_cases hci : c.1 = i
    · rw [hci, hp] at hq
      obtain rfl := Option.some.inj hq
      exact ⟨p', by simp [hci, hlength], (hmove.body str).trans hbody, hmove.spent str hspent⟩
    · exact ⟨q, by rw [List.getElem?_set_ne (Ne.symm hci), hq], hbody, hspent⟩
  rcases hmove.commits str (hP.sound p (List.mem_of_getElem? hp)) with
    ⟨hsame, -⟩ | ⟨hnew, -, hunspent, hspent⟩
  · rw [hsame]
    exact ⟨hP.once, hold⟩
  · rw [hnew]
    refine ⟨?_, fun c hc => ?_⟩
    · rw [List.map_append, List.map_singleton, List.nodup_append]
      refine ⟨hP.once, List.nodup_singleton i, fun k hk l hl hkl => hunspent ?_⟩
      obtain ⟨c, hc, rfl⟩ := List.mem_map.1 hk
      obtain rfl := List.mem_singleton.1 hl
      obtain ⟨q, hq, -, hq'⟩ := hP.spent c hc
      rw [hkl, hp] at hq
      exact Option.some.inj hq ▸ hq'
    · rcases List.mem_append.1 hc with hc | hc
      · exact hold c hc
      · obtain rfl := List.mem_singleton.1 hc
        exact ⟨p', by simp [hlength], hmove.body str, hspent⟩

theorem Settled.succeeded_move (hP : Settled str s₀ P) (hp : P.procs[i]? = some p)
    (hmove : move str P i p s' p') (k : ℕ) (r : Request)
    (hr : (P.procs.set i p')[k]? = some r) (hsucceeded : r.Succeeded) :
    (k, r.body) ∈ s'.committed := by
  have hsound := hP.sound p (List.mem_of_getElem? hp)
  have hkept : ∀ c ∈ P.shared.committed, c ∈ s'.committed := by
    rcases hmove.commits str hsound with ⟨h, -⟩ | ⟨h, -⟩
    · rw [h]
      exact fun c hc => hc
    · rw [h]
      exact fun c hc => List.mem_append_left _ hc
  rcases Pool.of_getElem?_set hr with ⟨rfl, rfl⟩ | ⟨-, hr⟩
  · rw [hmove.body str]
    rcases hmove.succeeded str hsound hsucceeded with h | h
    · exact hkept _ (hP.succeeded i p hp h)
    · rw [h]
      exact List.mem_append_right _ (List.mem_singleton_self _)
  · exact hkept _ (hP.succeeded k r hr hsucceeded)

theorem Settled.merged_move (hP : Settled str s₀ P) (hp : P.procs[i]? = some p)
    (hmove : move str P i p s' p') :
    currentSettings s'.row =
      (s'.committed.map Prod.snd).foldl deepMerge (currentSettings s₀.row) := by
  rcases hmove.commits str (hP.sound p (List.mem_of_getElem? hp)) with
    ⟨hsame, hrow⟩ | ⟨hnew, hrow, -⟩
  · rw [hsame, hrow, hP.merged]
  · rw [hnew, hrow, hP.merged, List.map_append, List.foldl_append]
    rfl

end Moves

theorem Settled.step (hP : Settled str s₀ P) (h : Pool.Step start (move str) P Q) :
    Settled str s₀ Q := by
  cases h with
  | @arrive p hstart =>
    obtain ⟨body, rfl⟩ := hstart
    have hlook : ∀ {i : ℕ} {q : Request}, P.procs[i]? = some q →
        (P.procs ++ [({ body } : Request)])[i]? = some q := by
      intro i q hq
      rw [List.getElem?_append_left (List.getElem?_eq_some_iff.1 hq).1, hq]
    refine ⟨fun q hq => ?_, ?_, hP.merged, hP.dataDir, hP.once, fun c hc => ?_, fun i q hq h => ?_,
      fun hfailed => ?_, fun hfailed i q value hq hlocked hphase => ?_⟩
    · rcases List.mem_append.1 hq with hq | hq
      · exact hP.sound q hq
      · rw [List.mem_singleton.1 hq]
        exact .of_unlocked rfl rfl
    · refine List.pairwise_append.2 ⟨hP.exclusive, List.pairwise_singleton _ _, ?_⟩
      intro q _ r hr hboth
      rw [List.mem_singleton.1 hr] at hboth
      cases hboth.2
    · obtain ⟨q, hq, hrest⟩ := hP.spent c hc
      exact ⟨q, hlook hq, hrest⟩
    · rcases Pool.mem_of_getElem?_append hq with hq | rfl
      · exact hP.succeeded i q hq h
      · exact h.elim
    · exact (hP.agrees hfailed).imp_right fun ⟨q, hq, hdirty⟩ =>
        ⟨q, List.mem_append_left _ hq, hdirty⟩
    · rcases Pool.mem_of_getElem?_append hq with hq | rfl
      · exact (hP.applied hfailed i q value hq hlocked hphase).imp_right
          fun ⟨j, r, hji, hr, hdirty⟩ => ⟨j, r, hji, hlook hr, hdirty⟩
      · cases hlocked
  | @move i p p' s' hp hmove =>
    obtain ⟨honce, hspent⟩ := hP.spent_move str hp hmove
    refine ⟨hP.sound_move str hp hmove, ?_, hP.merged_move str hp hmove,
      (hmove.dataDir str).trans hP.dataDir, honce, hspent,
      hP.succeeded_move str hp hmove, hP.agrees_move str hp hmove,
      fun hfailed k r value => hP.applied_move str hp hmove hfailed⟩
    obtain ⟨hothers, hrest⟩ :=
      (Pool.pairwise_procs (fun h hboth => h hboth.symm) hp).1 hP.exclusive
    exact (Pool.pairwise_set (fun h hboth => h hboth.symm) p' hp).2
      ⟨fun q hq => hmove.exclusive str hq (hothers q hq), hrest⟩

/-- After every run, unless a request is running or a reconciliation has failed, the live
configuration is that of the row and of the settings the process was started with, if and only if
the storage was not switched or the row makes the choice; the row is the merge of the bodies of the
committed requests in the order of their commits; and each request commits at most once, and has
committed if it returned. -/
theorem settings_agree {row : SettingsRow} {settings : StorageRuntime.Settings}
    (h : Pool.Run start (move str) (initial str row settings) P) :
    (P.shared.failed = false → (∀ p ∈ P.procs, ¬p.Running) →
      (resolveStorageConfig P.shared.runtime =
          resolveStorageConfigFromSettingsPayload str settings (P.shared.row.bind id) ↔
        (P.shared.switched = true → Chosen str settings (P.shared.row.bind id)))) ∧
    currentSettings P.shared.row =
      (P.shared.committed.map Prod.snd).foldl deepMerge (currentSettings row) ∧
    (P.shared.committed.map Prod.fst).Nodup ∧
    (∀ c ∈ P.shared.committed, ∃ p, P.procs[c.1]? = some p ∧ p.body = c.2) ∧
    (∀ (i : ℕ) p, P.procs[i]? = some p → p.phase = .returned →
      (i, p.body) ∈ P.shared.committed) := by
  have hnone : ∀ (i : ℕ) p, (initial str row settings).procs[i]? ≠ some p := fun i p => by
    simp [initial]
  have hinitial : Settled str (initial str row settings).shared (initial str row settings) :=
    ⟨fun _ h => absurd h List.not_mem_nil, .nil, rfl, rfl, .nil,
      fun _ h => absurd h List.not_mem_nil, fun i p h => absurd h (hnone i p),
      fun _ => .inl (.inl ⟨rfl, rfl, rfl⟩), fun _ i p _ h => absurd h (hnone i p)⟩
  have hP := h.invariant (Settled.step str) hinitial
  refine ⟨fun hfailed hrest => ?_, hP.merged, hP.once, fun c hc => ?_, fun i p hp hphase => ?_⟩
  · have hagrees := (hP.agrees hfailed).resolve_right (by
      rintro ⟨q, hq, hdirty⟩
      have := hrest q hq
      cases hphase : q.phase <;> simp_all [Request.Running, Request.dirty])
    rcases hagrees with ⟨hswitched, hruntime, hrow⟩ | ⟨hswitched, happlied⟩
    · rw [hruntime, hrow]
      exact iff_of_true rfl fun h => by rw [hswitched] at h; cases h
    · have hdata : P.shared.runtime.settings.dataDir = settings.dataDir := hP.dataDir
      rw [applied_eq_iff str happlied hdata]
      exact ⟨fun h _ => h, fun h => h hswitched⟩
  · obtain ⟨p, hp, hbody, -⟩ := hP.spent c hc
    exact ⟨p, hp, hbody⟩
  · refine hP.succeeded i p hp ?_
    unfold Request.Succeeded
    rw [hphase]
    trivial

/-- Where nobody else holds the barrier, a request or a reconciliation can go through. -/
theorem runs_through {body : Dict Text Value} {recovering : Bool} {i : ℕ}
    (hp : P.procs[i]? = some { body, recovering })
    (hfree : ∀ q ∈ P.procs.eraseIdx i, q.session.locked = false) :
    let p : Request := { body, recovering }
    let current := currentSettings P.shared.row
    Pool.Run start (move str) P
      ⟨{ P.shared.commit i body (p.transaction current) with
          runtime := applyRuntimeSettingsToApp str P.shared.runtime (p.value current)
          switched := true },
        P.procs.set i { p with phase := if recovering then .raised else .returned }⟩ := by
  intro p current
  have hlength := (List.getElem?_eq_some_iff.1 hp).1
  have hstep {s s' : Shared} {q q' : Request}
      (h : Move str s i (P.procs.eraseIdx i) q s' q') :
      Pool.Step start (move str) ⟨s, P.procs.set i q⟩ ⟨s', P.procs.set i q'⟩ := by
    have hmove : move str ⟨s, P.procs.set i q⟩ i q s' q' := by
      rw [move, List.eraseIdx_set_eq]
      exact h
    have hset : Pool.Step start (move str) ⟨s, P.procs.set i q⟩
        ⟨s', (P.procs.set i q).set i q'⟩ := .move (by simp [hlength]) hmove
    rw [List.set_set] at hset
    exact hset
  let t := p.transaction current
  let value := p.value current
  let holding (phase : Phase) : Request := { p with phase, session := { locked := true } }
  let s : Shared := P.shared.commit i body t
  let s' : Shared :=
    { s with runtime := applyRuntimeSettingsToApp str P.shared.runtime value, switched := true }
  let at' (s : Shared) (q : Request) : Pool Shared Request := ⟨s, P.procs.set i q⟩
  have h₀ : Pool.Step start (move str) P (at' P.shared (holding (.acquiring true))) :=
    .move hp (.grant rfl rfl hfree)
  have h₁ : Pool.Step start (move str) _ (at' P.shared (holding .locked)) :=
    hstep (q := holding (.acquiring true)) (.acquired rfl)
  have h₂ : Pool.Step start (move str) _ (at' P.shared (holding (.loaded current))) :=
    hstep (q := holding .locked) (.read rfl rfl)
  have h₃ : Pool.Step start (move str) _ (at' P.shared
      { holding (.committing value false) with session := ⟨true, some t⟩ }) :=
    hstep (q := holding (.loaded current)) (.send current rfl)
  have h₄ : Pool.Step start (move str) _ (at' s (holding (.committing value true))) :=
    hstep (q := { holding (.committing value false) with session := ⟨true, some t⟩ })
      (.commit t rfl)
  have h₅ : Pool.Step start (move str) _ (at' s (holding (.committed value))) :=
    hstep (q := holding (.committing value true)) (.acknowledged value rfl)
  have h₆ : Pool.Step start (move str) _ (at' s (holding (.asserted value))) :=
    hstep (q := holding (.committed value)) (.assertHeld value rfl rfl)
  have h₇ : Pool.Step start (move str) _ (at' s' (holding (.applied value))) :=
    hstep (q := holding (.asserted value)) (.apply value rfl)
  have h₈ : Pool.Step start (move str) _ (at' s' (holding .verified)) :=
    hstep (q := holding (.applied value)) (.verify value rfl rfl)
  have h₉ : Pool.Step start (move str) _ (at' s' { p with phase := .verified }) :=
    hstep (q := holding .verified) (.release (.inl rfl) rfl)
  have hend : Pool.Step start (move str) _
      (at' s' { p with phase := if recovering then .raised else .returned }) :=
    hstep (q := { p with phase := .verified }) (.finish rfl rfl)
  exact ((((((((((Relation.ReflTransGen.single h₀).tail h₁).tail h₂).tail h₃).tail h₄).tail
    h₅).tail h₆).tail h₇).tail h₈).tail h₉).tail hend

/-- A request whose acknowledgement is lost is followed by another one before it reconciles. -/
theorem reconciled_after_another :
    ∃ P : Pool Shared Request, P.shared.committed.map Prod.fst = [0, 1] ∧
      (P.shared.failed = false → (∀ p ∈ P.procs, ¬p.Running) →
        (resolveStorageConfig P.shared.runtime =
            resolveStorageConfigFromSettingsPayload (fun _ => []) {} (P.shared.row.bind id) ↔
          (P.shared.switched = true → Chosen (fun _ => []) {} (P.shared.row.bind id)))) ∧
      currentSettings P.shared.row =
        (P.shared.committed.map Prod.snd).foldl deepMerge (currentSettings none) ∧
      (P.shared.committed.map Prod.fst).Nodup ∧
      (∀ c ∈ P.shared.committed, ∃ p, P.procs[c.1]? = some p ∧ p.body = c.2) ∧
      (∀ (i : ℕ) p, P.procs[i]? = some p → p.phase = .returned →
        (i, p.body) ∈ P.shared.committed) := by
  let str : Value → Text := fun _ => []
  let bucket : Dict Text Value := [("s3", .obj [("bucket", .text "files")])]
  let name : Dict Text Value := [("meta", .obj [("appName", .text "Files")])]
  let first := deepMerge (currentSettings none) bucket
  let s₀ : Shared := (initial str none {}).shared
  let s₁ := s₀.commit 0 bucket (.patch first)
  let second := deepMerge (currentSettings s₁.row) name
  let s₂ : Shared :=
    { s₁.commit 1 name (.patch second) with
      runtime := applyRuntimeSettingsToApp str s₀.runtime second
      switched := true }
  have hnobody : ∀ q ∈ ([] : List Request), q.session.locked = false := fun _ h =>
    absurd h List.not_mem_nil
  have hlost : Pool.Run start (move str) (initial str none {})
      ⟨s₁, [{ body := bucket, phase := .failing true }]⟩ := by
    refine .tail (.tail (.tail (.tail (.tail (.tail (.tail .refl (.arrive ⟨bucket, rfl⟩))
      (.move (i := 0) rfl (.grant rfl rfl hnobody))) (.move (i := 0) rfl (.acquired rfl)))
      (.move (i := 0) rfl (.read rfl rfl))) (.move (i := 0) rfl (.send _ rfl)))
      (.move (i := 0) rfl (.loseCommitted _ rfl))) (.move (i := 0) rfl (.fail trivial))
  have hother : Pool.Run start (move str) ⟨s₁, [{ body := bucket, phase := .failing true }]⟩
      ⟨s₂, [{ body := bucket, phase := .failing true },
        { body := name, phase := .returned }]⟩ := by
    have hfree := @runs_through str
      ⟨s₁, [{ body := bucket, phase := .failing true }, { body := name }]⟩ name false 1 rfl
      (by simp)
    exact (Relation.ReflTransGen.single (.arrive ⟨name, rfl⟩)).trans hfree
  have hreconciled : Pool.Run start (move str)
      ⟨s₂, [{ body := bucket, phase := .failing true }, { body := name, phase := .returned }]⟩
      ⟨{ s₂ with runtime := applyRuntimeSettingsToApp str s₂.runtime (currentSettings s₂.row) },
        [{ body := bucket, recovering := true, phase := .raised },
          { body := name, phase := .returned }]⟩ := by
    have hfree := @runs_through str
      ⟨s₂, [{ body := bucket, recovering := true }, { body := name, phase := .returned }]⟩ bucket
      true 0 rfl (by simp)
    exact (Relation.ReflTransGen.single (.move (i := 0) rfl (.reconcile rfl rfl rfl))).trans hfree
  exact ⟨_, rfl, settings_agree str ((hlost.trans hother).trans hreconciled)⟩

/-- The row leaves the choice open, and the process was started with an S3 storage. An update that
changes nothing makes the live storage a local one. -/
theorem switched_to_local :
    let row : SettingsRow := some (some ([("s3", .null)] : Dict Text Value))
    let settings : StorageRuntime.Settings :=
      { storageBackend := "s3", s3Bucket := "files", s3AccessKey := "key", s3SecretKey := "secret" }
    ∃ P : Pool Shared Request,
      Pool.Run start (move fun _ => []) (initial (fun _ => []) row settings) P ∧
        P.shared.failed = false ∧ (∀ p ∈ P.procs, ¬p.Running) ∧ P.shared.row = row ∧
        (resolveStorageConfig P.shared.runtime).backend = "local" ∧
        (resolveStorageConfigFromSettingsPayload (fun _ => []) settings
          (P.shared.row.bind id)).backend = "s3" := by
  intro row settings
  let str : Value → Text := fun _ => []
  let s₀ : Shared := (initial str row settings).shared
  let merged := deepMerge (currentSettings row) []
  have hnobody : ∀ q ∈ ([] : List Request), q.session.locked = false := fun _ h =>
    absurd h List.not_mem_nil
  have hrun : Pool.Run start (move str) ⟨s₀, []⟩
      ⟨{ s₀.commit 0 [] (.patch merged) with
          runtime := applyRuntimeSettingsToApp str s₀.runtime merged, switched := true },
        [{ body := [], phase := .returned }]⟩ := by
    have hfree := @runs_through str ⟨s₀, [{ body := [] }]⟩ [] false 0 rfl hnobody
    exact (Relation.ReflTransGen.single (.arrive ⟨[], rfl⟩)).trans hfree
  refine ⟨_, hrun, rfl, fun p hp => ?_, rfl, by decide, by decide⟩
  rw [List.mem_singleton.1 hp]
  exact id

end SettingsRuns

end PPBase
