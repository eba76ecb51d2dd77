import Mathlib.Data.Char
import Mathlib.Data.List.Lex
import PPBase.Interleaving
import PPBase.Text

/-!
# Batches of migrations

Any number of runners apply and revert migrations of one database, each file in a transaction of
its own, under a lock that a runner's session holds until it releases it or is lost. The history row
of a file is written in the transaction of its migration, so a commit makes both durable or neither.

`commit_migration_transaction` decides what has become of a commit that raised : it rolls the
session back, reads the history again, and lets the batch go on, raises the error of the commit, or
one that says that the outcome is not known or the lock is gone. Only an `Exception` of that
rollback is caught, so that a cancellation there leaves the call with the history unread.
`exactly_once` : in every run the commits that are `Classified` are the ones without such a
cancellation; the rows are the files whose effects are durable, and no file is applied twice unless
it is reverted in between.
-/

namespace PPBase

namespace MigrationRuns

/-! ## The database -/

inductive Direction
  | up | down
  deriving DecidableEq

/-- A row of `_migrations`; the file is its key. -/
structure MigrationRecord where
  file : Text
  applied : ℕ
  deriving DecidableEq

/-- What is durable, and the runner whose session holds the lock. -/
structure Database where
  history : List MigrationRecord := []
  effects : List (Direction × Text) := []
  holder : Option ℕ := none

/-- The files that have a row. -/
def Database.files (db : Database) : List Text := db.history.map MigrationRecord.file

/-- The effects of a migration and its row become durable. -/
def Database.commit (db : Database) (direction : Direction) (file : Text) (now : ℕ) : Database where
  history :=
    match direction with
    | .up => db.history ++ [⟨file, now⟩]
    | .down => db.history.filter fun r => r.file ≠ file
  effects := db.effects ++ [(direction, file)]
  holder := db.holder

/-- `get_pending_migrations`, for the files of the directory. -/
def getPendingMigrations (db : Database) (allFiles : List Text) : List Text :=
  allFiles.filter fun f => f ∉ db.files

/-- The files that `revert_on_connection` selects, the latest first. -/
def latestMigrations (db : Database) (count : ℕ) : List Text :=
  ((db.history.mergeSort fun a b => b.applied < a.applied ∨
    a.applied = b.applied ∧ b.file ≤ a.file).take count).map MigrationRecord.file

/-! ## Commits -/

/-- How `commit_migration_transaction` ends. -/
inductive Result
  | returned
  | commitError
  | migrationCommitOutcomeError
  /-- A `CancelledError` of the rollback, which is no `Exception`. -/
  | cancelled
  deriving DecidableEq

/-- `commit_migration_transaction` after a commit that raised and the rollback. An exception of the
rollback is logged; `isApplied` is what the history says on the file, if it can be read. -/
def reconcile (lockConnectionWasInvalidated : Bool) (isApplied : Option Bool)
    (invalidated expectedApplied : Bool) : Result :=
  match isApplied with
  | none => .migrationCommitOutcomeError
  | some isApplied =>
    if isApplied ≠ expectedApplied then .commitError
    else if lockConnectionWasInvalidated || invalidated then .migrationCommitOutcomeError
    else .returned

theorem reconcile_returned {lost invalidated expected : Bool} {isApplied : Option Bool}
    (h : reconcile lost isApplied invalidated expected = .returned) :
    isApplied = some expected ∧ lost = false := by
  cases isApplied with
  | none => cases h
  | some a =>
    unfold reconcile at h
    dsimp only at h
    split_ifs at h with ha hl
    rw [Bool.or_eq_true, not_or] at hl
    exact ⟨congrArg some (not_not.1 ha), Bool.eq_false_iff.2 hl.1⟩

theorem reconcile_commitError {lost invalidated expected : Bool} {isApplied : Option Bool}
    (h : reconcile lost isApplied invalidated expected = .commitError) :
    ∃ a, isApplied = some a ∧ a ≠ expected := by
  cases isApplied with
  | none => cases h
  | some a =>
    unfold reconcile at h
    dsimp only at h
    split_ifs at h with ha
    exact ⟨a, rfl, ha⟩

/-! ## Runners -/

/-- `run_migrations_up` with the files of the directory, or `run_migrations_down` with a count. -/
inductive Task
  | up (allFiles : List Text)
  | down (count : ℕ)

def Task.direction : Task → Direction
  | .up _ => .up
  | .down _ => .down

/-- The files of a task. -/
def Task.select (db : Database) : Task → List Text
  | .up allFiles => getPendingMigrations db allFiles
  | .down count => latestMigrations db count

/-- Where a runner is. `failed` is after a commit that raised, `closing` before the lock is
released. -/
inductive Runner
  | waiting (task : Task)
  | locked (task : Task)
  | batch (direction : Direction) (todo : List Text)
  | flushed (direction : Direction) (file : Text) (todo : List Text)
  | failed (direction : Direction) (file : Text) (todo : List Text) (lost : Bool)
  | closing
  | ended

/-- The runner's session has to hold the lock. -/
def Runner.Holds : Runner → Prop
  | .locked _ | .batch _ _ | .flushed _ _ _ | .failed _ _ _ false => True
  | _ => False

/-- The runner holds the lock, and is not at a commit. -/
def Runner.Between : Runner → Prop
  | .locked _ | .batch _ _ => True
  | _ => False

/-- A commit that has ended. -/
structure Ended where
  direction : Direction
  file : Text
  result : Result

/-- The next step of runner `i`, and whether its task is cancelled there in the rollback after a
commit that raised; with the commit the step ends. -/
inductive Move (db : Database) (i : ℕ) :
    Bool → Runner → Database → Runner → Option Ended → Prop
  /-- `pg_try_advisory_lock` -/
  | acquire (task : Task) (hfree : db.holder = none) :
    Move db i false (.waiting task) { db with holder := some i } (.locked task) none
  /-- The lock times out, or something else is raised before it is there. -/
  | giveUp (task : Task) : Move db i false (.waiting task) db .ended none
  | select (task : Task) :
    Move db i false (.locked task) db (.batch task.direction (task.select db)) none
  /-- `apply_migration` or `revert_migration` with the flush of the row, whose key is unique. -/
  | flush (direction : Direction) (file : Text) (todo : List Text)
      (hkey : direction = .up → file ∉ db.files) :
    Move db i false (.batch direction (file :: todo)) db (.flushed direction file todo) none
  /-- Something is raised outside of a commit : the transaction is rolled back. -/
  | fail {p : Runner} (hp : p.Between) : Move db i false p db .closing none
  /-- The connection is lost outside of a commit, which releases the lock. -/
  | lose {p : Runner} (hp : p.Between) : Move db i false p { db with holder := none } .closing none
  | commit (direction : Direction) (file : Text) (todo : List Text) (now : ℕ) :
    Move db i false (.flushed direction file todo) (db.commit direction file now) (.batch direction todo)
      (some ⟨direction, file, .returned⟩)
  /-- The commit raises, applied or not, and the connection may be lost with it. -/
  | commitFails (direction : Direction) (file : Text) (todo : List Text) (now : ℕ)
      (applied lost : Bool) :
    Move db i false (.flushed direction file todo)
      { (if applied then db.commit direction file now else db) with
        holder := if lost then none else db.holder }
      (.failed direction file todo lost) none
  | resume (direction : Direction) (file : Text) (todo : List Text)
      (lost readable invalidated : Bool)
      (h : reconcile lost (if readable then some (decide (file ∈ db.files)) else none)
        invalidated (direction = .up) = .returned) :
    Move db i false (.failed direction file todo lost) db (.batch direction todo)
      (some ⟨direction, file, .returned⟩)
  | stop (direction : Direction) (file : Text) (todo : List Text) (lost readable invalidated : Bool)
      (h : reconcile lost (if readable then some (decide (file ∈ db.files)) else none)
        invalidated (direction = .up) ≠ .returned) :
    Move db i false (.failed direction file todo lost) db .closing
      (some ⟨direction, file, reconcile lost
        (if readable then some (decide (file ∈ db.files)) else none) invalidated (direction = .up)⟩)
  /-- The history is not read : only an `Exception` of the rollback is caught. -/
  | cancel (direction : Direction) (file : Text) (todo : List Text) (lost : Bool) :
    Move db i true (.failed direction file todo lost) db .closing
      (some ⟨direction, file, .cancelled⟩)
  | finish (direction : Direction) : Move db i false (.batch direction []) db .closing none
  /-- The lock is released, or its session closed. -/
  | release : Move db i false .closing
      { db with holder := if db.holder = some i then none else db.holder } .ended none

/-- A runner is started. -/
def start (p : Runner) : Prop := ∃ task, p = .waiting task

/-- What a runner does to the database. -/
def move (P : Pool Database Runner) (i : ℕ) (p : Runner) (db : Database) (p' : Runner) : Prop :=
  ∃ b e, Move P.shared i b p db p' e

/-! ## What is durable -/

/-- The last of the durable effects of a file is that of its `up`. -/
def Durable (effects : List (Direction × Text)) (file : Text) : Prop :=
  (effects.filter fun e => e.2 = file).getLast? = some (.up, file)

/-- No file is applied twice, unless it is reverted in between. -/
def AppliedOnce (effects : List (Direction × Text)) : Prop :=
  ∀ before between after file,
    effects = before ++ (.up, file) :: between ++ (.up, file) :: after → (.down, file) ∈ between

variable {direction : Direction} {file : Text}

theorem durable_append {effects : List (Direction × Text)} {f : Text} :
    Durable (effects ++ [(direction, file)]) f ↔
      if file = f then direction = .up else Durable effects f := by
  unfold Durable
  rw [List.filter_append]
  by_cases hf : file = f
  · subst hf
    simp
  · simp [hf]

/-- A file that is applied and not reverted is durable. -/
theorem durable_of_applied {before between : List (Direction × Text)} (h : (.down, file) ∉ between) :
    Durable (before ++ (.up, file) :: between) file := by
  induction between using List.reverseRecOn with
  | nil => rw [durable_append, if_pos rfl]
  | append_singleton between e ih =>
    obtain ⟨direction, g⟩ := e
    rw [List.mem_append, not_or, List.mem_singleton] at h
    have : before ++ (.up, file) :: (between ++ [(direction, g)]) =
        (before ++ (.up, file) :: between) ++ [(direction, g)] := by simp
    rw [this, durable_append]
    split
    · subst g
      cases direction with
      | up => rfl
      | down => exact absurd rfl h.2
    · exact ih h.1

theorem AppliedOnce.append {effects : List (Direction × Text)} (h : AppliedOnce effects)
    (hnew : direction = .up → ¬Durable effects file) :
    AppliedOnce (effects ++ [(direction, file)]) := by
  intro before between after f heq
  rcases List.eq_nil_or_concat after with rfl | ⟨after', e, rfl⟩
  · obtain ⟨heffects, hlast⟩ := List.append_inj' heq rfl
    cases hlast
    by_contra hmem
    exact hnew rfl (heffects ▸ durable_of_applied hmem)
  · refine h before between after' f ?_
    have : effects ++ [(direction, file)] =
        (before ++ (.up, f) :: between ++ (.up, f) :: after') ++ [e] := by
      rw [heq]
      simp
    exact (List.append_inj' this rfl).1

/-- The rows and the durable effects fit. -/
structure Database.Consistent (db : Database) : Prop where
  rows : ∀ f, f ∈ db.files ↔ Durable db.effects f
  once : AppliedOnce db.effects

theorem mem_files_commit {db : Database} {now : ℕ} {f : Text} :
    f ∈ (db.commit direction file now).files ↔
      if file = f then direction = .up else f ∈ db.files := by
  cases direction with
  | up =>
    simp only [Database.files, Database.commit, List.map_append, List.mem_append, List.map_cons,
      List.map_nil, List.mem_singleton]
    split
    · subst f
      simp
    · rename_i hf
      exact or_iff_left (Ne.symm hf)
  | down =>
    simp only [Database.files, Database.commit, List.mem_map, List.mem_filter, decide_eq_true_eq]
    split
    · subst f
      refine iff_of_false ?_ (by simp)
      rintro ⟨r, ⟨-, hr⟩, hrf⟩
      exact hr hrf
    · rename_i hf
      constructor
      · rintro ⟨r, ⟨hr, -⟩, rfl⟩
        exact ⟨r, hr, rfl⟩
      · rintro ⟨r, hr, rfl⟩
        exact ⟨r, ⟨hr, Ne.symm hf⟩, rfl⟩

/-- A commit keeps rows and effects together, where the file has no row if it is applied. -/
theorem Database.Consistent.commit {db : Database} (h : db.Consistent)
    (hkey : direction = .up → file ∉ db.files) (now : ℕ) :
    (db.commit direction file now).Consistent where
  rows f := by
    show _ ↔ Durable (db.effects ++ [(direction, file)]) f
    rw [mem_files_commit, durable_append]
    split
    · exact Iff.rfl
    · exact h.rows f
  once := h.once.append fun hup hdurable => hkey hup ((h.rows file).2 hdurable)

/-! ## Steps -/

section Steps

variable {db db' : Database} {i : ℕ} {b : Bool} {p p' : Runner} {e : Option Ended}

/-- Only the holder of the lock changes what is durable. -/
theorem Move.frame (h : Move db i b p db' p' e) :
    p.Holds ∨ db'.history = db.history ∧ db'.effects = db.effects := by
  cases h with
  | flush | commit | commitFails | finish | select => exact .inl trivial
  | fail hp => exact .inr ⟨rfl, rfl⟩
  | lose hp => exact .inr ⟨rfl, rfl⟩
  | _ => exact .inr ⟨rfl, rfl⟩

theorem Runner.Between.holds (h : p.Between) : p.Holds := by
  cases p <;> trivial

/-- The lock goes from nobody to a runner, and back. -/
theorem Move.holder (h : Move db i b p db' p' e) (hp : p.Holds → db.holder = some i) :
    (p'.Holds → db'.holder = some i) ∧ ∀ j, j ≠ i → db.holder = some j → db'.holder = some j := by
  cases h with
  | acquire task hfree => exact ⟨fun _ => rfl, fun j _ hj => by rw [hfree] at hj; cases hj⟩
  | giveUp | cancel => exact ⟨fun h => h.elim, fun _ _ hj => hj⟩
  | fail hb => exact ⟨fun h => h.elim, fun _ _ hj => hj⟩
  | lose hb =>
    refine ⟨fun h => h.elim, fun j hji hj => ?_⟩
    rw [hp hb.holds] at hj
    exact absurd (Option.some.inj hj).symm hji
  | commitFails direction file todo now applied lost =>
    have hi := hp trivial
    have hdb : (if applied then db.commit direction file now else db).holder = db.holder := by
      split <;> rfl
    cases lost with
    | true =>
      refine ⟨fun h => h.elim, fun j hji hj => ?_⟩
      rw [hi] at hj
      exact absurd (Option.some.inj hj).symm hji
    | false => exact ⟨fun _ => hi, fun _ _ hj => hj⟩
  | resume direction file todo lost readable invalidated hr =>
    -- A lost connection never lets the batch go on.
    obtain ⟨-, rfl⟩ := reconcile_returned hr
    exact ⟨fun _ => hp trivial, fun _ _ hj => hj⟩
  | stop | finish => exact ⟨fun h => h.elim, fun _ _ hj => hj⟩
  | release =>
    refine ⟨fun h => h.elim, fun j hji hj => ?_⟩
    dsimp only
    rw [if_neg, hj]
    rw [hj]
    exact fun h => hji (Option.some.inj h)
  | select | flush | commit => exact ⟨fun _ => hp trivial, fun _ _ hj => hj⟩

theorem eq_of_read {readable applied : Bool} {file : Text} {direction : Direction}
    (h : (if readable then some (decide (file ∈ db.files)) else none) = some applied)
    (hfile : file ∈ db.files ↔ direction = .up) : applied = decide (direction = .up) := by
  cases readable with
  | true =>
    rw [← Option.some.inj h]
    exact decide_eq_decide.2 hfile
  | false => cases h

theorem mem_files_of_read {readable : Bool} {file : Text} {direction : Direction}
    (h : (if readable then some (decide (file ∈ db.files)) else none) =
      some (decide (direction = .up))) : file ∈ db.files ↔ direction = .up := by
  cases readable with
  | true => exact decide_eq_decide.1 (Option.some.inj h)
  | false => cases h

/-- A commit is classified where its call returns only if the history is as expected, raises the
error of the commit only if it is not, and else raises `MigrationCommitOutcomeError`. -/
structure Classified (db : Database) (c : Ended) : Prop where
  returned : c.result = .returned → (c.file ∈ db.files ↔ c.direction = .up)
  commitError : c.result = .commitError → ¬(c.file ∈ db.files ↔ c.direction = .up)
  outcome : c.result = .returned ∨ c.result = .commitError ∨
    c.result = .migrationCommitOutcomeError

theorem reconcile_outcome (lost invalidated expected : Bool) (isApplied : Option Bool) :
    reconcile lost isApplied invalidated expected = .returned ∨
      reconcile lost isApplied invalidated expected = .commitError ∨
      reconcile lost isApplied invalidated expected = .migrationCommitOutcomeError := by
  unfold reconcile
  cases isApplied with
  | none => exact .inr (.inr rfl)
  | some a =>
    dsimp only
    split_ifs
    · exact .inr (.inl rfl)
    · exact .inr (.inr rfl)
    · exact .inl rfl

/-- How a commit ended fits what is durable then, but for a cancellation in the rollback. -/
theorem Move.classified_iff {c : Ended} (h : Move db i b p db' p' (some c)) :
    Classified db' c ↔ b = false := by
  cases h with
  | commit direction file todo now =>
    refine iff_of_true ⟨fun _ => ?_, nofun, .inl rfl⟩ rfl
    rw [mem_files_commit, if_pos rfl]
  | resume direction file todo lost readable invalidated hr =>
    refine iff_of_true ⟨fun _ => ?_, nofun, .inl rfl⟩ rfl
    obtain ⟨hread, -⟩ := reconcile_returned hr
    exact mem_files_of_read hread
  | stop direction file todo lost readable invalidated hr =>
    refine iff_of_true ⟨fun h => absurd h hr, fun h => ?_, reconcile_outcome ..⟩ rfl
    obtain ⟨a, hread, ha⟩ := reconcile_commitError h
    intro hfile
    exact ha (eq_of_read hread hfile)
  | cancel direction file todo lost =>
    refine iff_of_false ?_ (by decide)
    rintro ⟨-, -, h⟩
    simp at h

/-! ## Runs -/

/-- What holds in every state of a run. -/
structure Sound (P : Pool Database Runner) : Prop where
  consistent : P.shared.Consistent
  holder : ∀ i p, P.procs[i]? = some p → p.Holds → P.shared.holder = some i
  flushed : ∀ file todo, .flushed .up file todo ∈ P.procs → file ∉ P.shared.files

/-- What a step leaves durable is consistent. -/
theorem Move.consistent (h : Move db i b p db' p' e) (hdb : db.Consistent)
    (hflushed : ∀ file todo, p = .flushed .up file todo → file ∉ db.files) : db'.Consistent := by
  cases h with
  | commit direction file todo now =>
    exact hdb.commit (fun hup => hflushed file todo (congrArg (Runner.flushed · file todo) hup)) now
  | commitFails direction file todo now applied lost =>
    cases applied with
    | true =>
      have := hdb.commit
        (fun hup => hflushed file todo (congrArg (Runner.flushed · file todo) hup)) now
      exact ⟨this.rows, this.once⟩
    | false => exact ⟨hdb.rows, hdb.once⟩
  | _ => exact ⟨hdb.rows, hdb.once⟩

theorem Sound.step {P Q : Pool Database Runner} (hP : Sound P) (h : Pool.Step start move P Q) :
    Sound Q := by
  cases h with
  | @arrive p hstart =>
    obtain ⟨task, rfl⟩ := hstart
    refine ⟨hP.consistent, fun i q hq hholds => ?_, fun file todo hmem => ?_⟩
    · rcases Pool.mem_of_getElem?_append hq with hq | rfl
      · exact hP.holder i q hq hholds
      · exact hholds.elim
    · rcases List.mem_append.1 hmem with hmem | hmem
      · exact hP.flushed file todo hmem
      · cases List.mem_singleton.1 hmem
  | @move i p p' db hp hmove =>
    obtain ⟨b, e, hmove⟩ := hmove
    have hholder := hmove.holder (hP.holder i p hp)
    have hkept (j : ℕ) (q : Runner) : j ≠ i → P.procs[j]? = some q → q.Holds →
        db.files = P.shared.files := by
      intro hji hq hholds
      rcases hmove.frame with hpi | ⟨hhistory, -⟩
      · have := (hP.holder j q hq hholds).symm.trans (hP.holder i p hp hpi)
        exact absurd (Option.some.inj this) hji
      · rw [Database.files, hhistory, Database.files]
    refine ⟨?_, fun j q hq hholds => ?_, fun file todo hmem => ?_⟩
    · refine hmove.consistent hP.consistent fun file todo heq => ?_
      exact hP.flushed file todo (heq ▸ List.mem_of_getElem? hp)
    · rcases Pool.of_getElem?_set hq with ⟨rfl, rfl⟩ | ⟨hij, hq⟩
      · exact hholder.1 hholds
      · exact hholder.2 j (Ne.symm hij) (hP.holder j q hq hholds)
    · obtain ⟨j, hj⟩ := List.mem_iff_getElem?.1 hmem
      rcases Pool.of_getElem?_set hj with ⟨rfl, heq⟩ | ⟨hij, hj⟩
      · subst heq
        cases hmove with
        | flush _ _ _ hkey => exact hkey rfl
      · rw [hkept j _ (Ne.symm hij) hj trivial]
        exact hP.flushed file todo (List.mem_of_getElem? hj)

/-- In every run, a commit that ends is classified if and only if its task is not cancelled in the
rollback after it raised; the rows are the files whose effects are durable, and none has been
applied twice without a revert in between. -/
theorem exactly_once {P : Pool Database Runner} (h : Pool.Run start move ⟨{}, []⟩ P) :
    (∀ i b p db p' c, P.procs[i]? = some p → Move P.shared i b p db p' (some c) →
      (Classified db c ↔ b = false)) ∧
    (∀ f, f ∈ P.shared.files ↔ Durable P.shared.effects f) ∧ AppliedOnce P.shared.effects := by
  have hempty : Sound ⟨{}, []⟩ := by
    refine ⟨⟨fun f => ?_, fun before between after f heq => ?_⟩, fun i p hp => ?_, fun _ _ h => ?_⟩
    · simp [Database.files, Durable]
    · simp at heq
    · simp at hp
    · cases h
  have hsound := h.invariant Sound.step hempty
  exact ⟨fun _ _ _ _ _ _ _ hmove => hmove.classified_iff, hsound.consistent.rows, hsound.consistent.once⟩

/-- The database once the commit of one migration is applied and its connection lost. -/
def oneApplied : Database := ⟨[⟨"1_posts.py", 7⟩], [(.up, "1_posts.py")], none⟩

theorem acknowledgement_lost :
    Pool.Run start move ⟨{}, []⟩ ⟨oneApplied, [.failed .up "1_posts.py" [] true]⟩ := by
  let task : Task := .up ["1_posts.py"]
  refine .tail (.tail (.tail (.tail (.tail .refl (.arrive ⟨task, rfl⟩))
    (.move (i := 0) rfl ⟨_, none, .acquire task rfl⟩))
    (.move (i := 0) rfl ⟨_, none, .select task⟩))
    (.move (i := 0) rfl ⟨_, none, .flush .up "1_posts.py" [] fun _ => by simp [Database.files]⟩))
    (.move (i := 0) rfl ⟨_, none, .commitFails .up "1_posts.py" [] 7 true true⟩)

/-- A commit is applied but its acknowledgement lost, and the batch is repeated. -/
theorem repeated_after_lost_acknowledgement :
    ∃ P : Pool Database Runner, P.shared.effects = [(Direction.up, "1_posts.py".toList)] ∧
      (∀ i b p db p' c, P.procs[i]? = some p → Move P.shared i b p db p' (some c) →
        (Classified db c ↔ b = false)) ∧
      (∀ f, f ∈ P.shared.files ↔ Durable P.shared.effects f) ∧ AppliedOnce P.shared.effects := by
  let task : Task := .up ["1_posts.py"]
  have hfirst : Pool.Run start move ⟨{}, []⟩ ⟨oneApplied, [.ended]⟩ :=
    .tail (.tail acknowledgement_lost
      (.move (i := 0) rfl ⟨_, _, .stop .up "1_posts.py" [] true true false (by decide)⟩))
      (.move (i := 0) rfl ⟨_, none, .release⟩)
  have hsecond : Pool.Run start move ⟨oneApplied, [.ended]⟩
      ⟨{ oneApplied with holder := some 1 }, [.ended, .batch .up []]⟩ :=
    .tail (.tail (.tail .refl (.arrive ⟨task, rfl⟩))
      (.move (i := 1) rfl ⟨_, none, .acquire task rfl⟩))
      (.move (i := 1) rfl ⟨_, none, .select task⟩)
  exact ⟨_, rfl, exactly_once (hfirst.trans hsecond)⟩

/-- The commit is applied, its acknowledgement lost, and the task cancelled in the rollback : the
call raises the `CancelledError`, though the migration is durable. -/
theorem cancelled_in_rollback :
    ∃ (P : Pool Database Runner) (p : Runner) (c : Ended), Pool.Run start move ⟨{}, []⟩ P ∧
      P.procs[0]? = some p ∧ Move P.shared 0 true p P.shared .closing (some c) ∧
      c.file ∈ P.shared.files ∧ c.direction = .up ∧ c.result = .cancelled ∧
      ¬Classified P.shared c := by
  refine ⟨⟨oneApplied, [.failed .up "1_posts.py" [] true]⟩, _, _, acknowledgement_lost, rfl,
    .cancel .up "1_posts.py" [] true, List.mem_singleton_self _, rfl, rfl, ?_⟩
  rintro ⟨-, -, h⟩
  simp at h

end Steps

end MigrationRuns

end PPBase
