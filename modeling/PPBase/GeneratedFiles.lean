import Mathlib.Data.List.Nodup
import PPBase.Interleaving
import PPBase.Text

/-!
# Generated migration files

Collection mutations, imports and snapshots generate migration files and record them as applied,
in a transaction that a file system has no part in. They hold the lock of the migration runners
until the transaction ends, or, for a snapshot, until its session is closed. `Move` says what a
producer or a runner does next, with the `Event` of the step. A process that has lost its
connection holds no lock any more, and learns of it from the next statement, which fails.

`agree_of_guarded` : in every run whose steps are all `Guarded`, no file is deleted whose row is
or becomes durable, a producer that has returned has left its files and their rows, and one whose
transaction is known to be rolled back has left no file that no runner applied. `Guarded` rules
out that a cancellation escapes from the handler of a failed commit into the cleanup of an import
or a snapshot, that the lock is lost or taken before a cleanup is done, that a rollback before a
cleanup raises, and that a name is given twice.
`cancelled_import_deletes` : an import whose commit is applied, but not acknowledged, and which is
cancelled while it closes its session.
-/

namespace PPBase

namespace GeneratedFiles

/-! ## Producers and runners -/

inductive Producer
  /-- `create_collection`, `update_collection` and `delete_collection` -/
  | mutation
  /-- `import_collections` -/
  | bulkImport
  /-- `create_migration_snapshot` -/
  | snapshot
  deriving DecidableEq

/-- The directory, the files that have a row, and who holds the lock. `applied`, `generated` and
`deleted` say what has happened : the files that have had a durable row, the names that were given
to a producer, and the files that producers have deleted. -/
structure World where
  directory : List Text
  history : List Text
  holder : Option ℕ := none
  applied : List Text := history
  generated : List (ℕ × Text) := []
  deleted : List Text := []

namespace World

variable (W : World)

/-- The lock is released, if it is still there. -/
def release (i : ℕ) : World := { W with holder := if W.holder = some i then none else W.holder }

/-- `Path(path).unlink(missing_ok=True)`, for each of some files. -/
def delete (files : List Text) : World :=
  { W with
    directory := W.directory.filter (· ∉ files)
    deleted := W.deleted ++ files.filter (· ∈ W.directory) }

/-- The rows of some files become durable. -/
def commit (files : List Text) : World :=
  { W with history := W.history ++ files, applied := W.applied ++ files }

/-- A producer has written a file. -/
def generate (i : ℕ) (file : Text) : World :=
  { W with directory := file :: W.directory, generated := (i, file) :: W.generated }

end World

/-- How a producer ends. `rolledBack` says that its transaction is known not to be committed. -/
inductive Outcome
  | returned
  | raised (rolledBack : Bool)
  deriving DecidableEq

/-- Where a process is, with the files that it would clean up. -/
inductive Process
  | waiting (k : Producer)
  | working (k : Producer) (files : List Text)
  | recording (k : Producer) (files : List Text) (file : Text)
  | rollingBack (k : Producer) (files : List Text)
  /-- The commit has raised; a snapshot knows whether its connection was lost. -/
  | doubtful (k : Producer) (files : List Text) (lost : Bool)
  | checking (file : Text) (lost : Bool)
  | fencing (k : Producer) (files : List Text)
  | fenced (k : Producer) (files : List Text)
  | cleaning (k : Producer) (files : List Text) (rolledBack : Bool)
  /-- A cleanup without the lock. -/
  | unfenced (files : List Text) (rolledBack : Bool)
  /-- The lock is about to be released; an import cleans up again after it. -/
  | leaving (o : Outcome) (again : List Text)
  | ended (o : Outcome)
  | runner
  | listing
  | batch (todo : List Text)
  | loaded (file : Text) (todo : List Text)

/-- What is particular about a step. -/
inductive Event
  | plain
  | acquire
  | generate (file : Text)
  /-- The connection is lost, and the lock with it. -/
  | lose
  /-- A rollback or a close raises what its handler does not catch. -/
  | escape

/-- A runner at work. -/
def Process.Running : Process → Prop
  | .runner | .listing | .batch _ | .loaded _ _ => True
  | _ => False

/-- The next step of process `i`. -/
inductive Move (W : World) (i : ℕ) : Process → Event → World → Process → Prop
  /-- `_lock_migration_producer` and `migration_lock` -/
  | acquire (k : Producer) (hfree : W.holder = none) :
    Move W i (.waiting k) .acquire { W with holder := some i } (.working k [])
  | giveUp (k : Producer) : Move W i (.waiting k) .plain W (.ended (.raised true))
  /-- `generate_…_migration`, which never writes over a file. -/
  | generate (k : Producer) (files : List Text) (file : Text)
      (hk : k = .bulkImport ∨ files = []) (hfile : file ∉ W.directory) :
    Move W i (.working k files) (.generate file) (W.generate i file) (.recording k files file)
  /-- `_record_migration`, whose key is the file. -/
  | record (k : Producer) (files : List Text) (file : Text) (hlock : W.holder = some i)
      (hkey : file ∉ W.history) :
    Move W i (.recording k files file) .plain W (.working k (files ++ [file]))
  /-- The handler of `_maybe_generate_migration`. -/
  | recordFails (k : Producer) (files : List Text) (file : Text) (hk : k ≠ .snapshot) :
    Move W i (.recording k files file) .plain (W.delete [file]) (.rollingBack k files)
  | snapshotFails (files : List Text) (file : Text) :
    Move W i (.recording .snapshot files file) .plain W (.rollingBack .snapshot [file])
  /-- Something else is raised before the commit. -/
  | workFails (k : Producer) (files : List Text) (hk : k = .bulkImport ∨ files = []) :
    Move W i (.working k files) .plain W (.rollingBack k files)
  /-- The handler of `_generate_migration_or_rollback`, or the end of the request. -/
  | rollback (files : List Text) :
    Move W i (.rollingBack .mutation files) .plain (W.release i) (.ended (.raised true))
  /-- The rollback of an import releases the lock. -/
  | rollbackImport (files : List Text) :
    Move W i (.rollingBack .bulkImport files) .plain (W.release i) (.unfenced files true)
  | rollbackSnapshot (files : List Text) :
    Move W i (.rollingBack .snapshot files) .plain W (.cleaning .snapshot files true)
  | rollbackEscapes (k : Producer) (files : List Text) :
    Move W i (.rollingBack k files) .escape (W.release i) (.ended (.raised true))
  | commit (k : Producer) (files : List Text) (hk : k ≠ .snapshot) (hlock : W.holder = some i) :
    Move W i (.working k files) .plain ((W.commit files).release i) (.ended .returned)
  | commitSnapshot (files : List Text) (hlock : W.holder = some i) :
    Move W i (.working .snapshot files) .plain (W.commit files) (.leaving .returned [])
  /-- The commit raises, applied or not. The lock goes with the transaction, which is still there
  only if it was not applied. -/
  | commitFails (k : Producer) (files : List Text) (keeps : Bool) (hk : k ≠ .snapshot) :
    Move W i (.working k files) .plain (if keeps then W else W.release i) (.doubtful k files false)
  | commitUnacknowledged (k : Producer) (files : List Text) (hk : k ≠ .snapshot)
      (hlock : W.holder = some i) :
    Move W i (.working k files) .plain ((W.commit files).release i) (.doubtful k files false)
  | snapshotCommitFails (files : List Text) (applied lost : Bool) (hlock : W.holder = some i) :
    Move W i (.working .snapshot files) (if lost then .lose else .plain)
      (if lost then (if applied then W.commit files else W).release i
        else if applied then W.commit files else W)
      (.doubtful .snapshot files lost)
  /-- The rollback and the close in `_commit_with_generated_migrations` -/
  | close (k : Producer) (files : List Text) (lost : Bool) (hk : k ≠ .snapshot)
      (hfiles : files ≠ []) :
    Move W i (.doubtful k files lost) .plain (W.release i) (.fencing k files)
  | closeEmpty (k : Producer) (lost : Bool) (hk : k ≠ .snapshot) :
    Move W i (.doubtful k [] lost) .plain (W.release i) (.ended (.raised false))
  /-- The rollback in `commit_migration_transaction` -/
  | recheck (file : Text) (lost : Bool) :
    Move W i (.doubtful .snapshot [file] lost) .plain W (.checking file lost)
  | closeEscapes (files : List Text) (lost : Bool) :
    Move W i (.doubtful .mutation files lost) .escape (W.release i) (.ended (.raised false))
  /-- The handler of `import_collections` cleans up, unless its own rollback raises too. -/
  | importEscapes (files : List Text) (lost : Bool) :
    Move W i (.doubtful .bulkImport files lost) .escape (W.release i) (.unfenced files false)
  | importEscapesTwice (files : List Text) (lost : Bool) :
    Move W i (.doubtful .bulkImport files lost) .escape (W.release i) (.ended (.raised false))
  /-- The last handler of `create_migration_snapshot` cleans up. -/
  | snapshotEscapes (files : List Text) (lost : Bool) :
    Move W i (.doubtful .snapshot files lost) .escape W (.cleaning .snapshot files false)
  /-- `_reconcile_generated_migrations` -/
  | fence (k : Producer) (files : List Text) (hfree : W.holder = none) :
    Move W i (.fencing k files) .acquire { W with holder := some i } (.fenced k files)
  | fenceFails (k : Producer) (files : List Text) :
    Move W i (.fencing k files) .plain W (.ended (.raised false))
  | confirm (k : Producer) (files : List Text) (hlock : W.holder = some i)
      (hall : ∀ f ∈ files, f ∈ W.history) :
    Move W i (.fenced k files) .plain W (.leaving .returned [])
  | refute (k : Producer) (files : List Text) (hlock : W.holder = some i)
      (hnone : ∀ f ∈ files, f ∉ W.history) :
    Move W i (.fenced k files) .plain W (.cleaning k files true)
  /-- The history cannot be read, or has a part of the files. -/
  | preserve (k : Producer) (files : List Text) :
    Move W i (.fenced k files) .plain W (.leaving (.raised false) [])
  /-- The verification of `commit_migration_transaction` -/
  | confirmSnapshot (file : Text) (lost : Bool) (hfile : file ∈ W.history) :
    Move W i (.checking file lost) .plain W
      (.leaving (if lost then .raised false else .returned) [])
  | refuteSnapshot (file : Text) (lost : Bool) (hfile : file ∉ W.history) :
    Move W i (.checking file lost) .plain W (.cleaning .snapshot [file] true)
  | preserveSnapshot (file : Text) (lost : Bool) :
    Move W i (.checking file lost) .plain W (.leaving (.raised false) [])
  /-- `_cleanup_generated_migrations` under the lock -/
  | clean (k : Producer) (files : List Text) (rolledBack : Bool) :
    Move W i (.cleaning k files rolledBack) .plain (W.delete files)
      (.leaving (.raised rolledBack) (if k = .bulkImport then files else []))
  | cleanUnfenced (files : List Text) (rolledBack : Bool) :
    Move W i (.unfenced files rolledBack) .plain (W.delete files) (.ended (.raised rolledBack))
  | leave (o : Outcome) : Move W i (.leaving o []) .plain (W.release i) (.ended o)
  | leaveAgain (o : Outcome) (again : List Text) (hagain : again ≠ []) :
    Move W i (.leaving o again) .plain (W.release i) (.unfenced again true)
  /-- The end of the verifier or of the session raises. -/
  | leaveFails (o : Outcome) (again : List Text) :
    Move W i (.leaving o again) .plain (W.release i)
      (.ended (if o = .returned then .raised false else o))
  | lose (p : Process) : Move W i p .lose (W.release i) p
  /-- `run_migrations_up` and `run_migrations_down` -/
  | runnerAcquire (hfree : W.holder = none) :
    Move W i .runner .acquire { W with holder := some i } .listing
  /-- `get_pending_migrations` -/
  | list : Move W i .listing .plain W (.batch (W.directory.filter (· ∉ W.history)))
  /-- `_load_migration_module` -/
  | load (file : Text) (todo : List Text) (hfile : file ∈ W.directory) :
    Move W i (.batch (file :: todo)) .plain W (.loaded file todo)
  | apply (file : Text) (todo : List Text) (hlock : W.holder = some i) (hkey : file ∉ W.history) :
    Move W i (.loaded file todo) .plain (W.commit [file]) (.batch todo)
  | revert (file : Text) (hlock : W.holder = some i) :
    Move W i .listing .plain { W with history := W.history.filter (· ≠ file) } .listing
  | stop {p : Process} (hp : p.Running) :
    Move W i p .plain (W.release i) (.ended (.raised false))

/-- A producer or a runner is started. -/
def start (p : Process) : Prop := (∃ k, p = .waiting k) ∨ p = .runner

/-- What a process does. -/
def move (P : Pool World Process) (i : ℕ) (p : Process) (W : World) (p' : Process) : Prop :=
  ∃ e, Move P.shared i p e W p'

/-! ## The condition -/

/-- The process needs its connection to clean up what it has generated. -/
def Process.Pending : Process → Prop
  | .rollingBack _ files => files ≠ []
  | .working .. | .recording .. | .cleaning .. | .checking .. => True
  | .doubtful k _ _ => k = .snapshot
  | _ => False

/-- The files that a process may delete without the lock. -/
def Process.exposed : Process → List Text
  | .unfenced files _ => files
  | _ => []

/-- A name is new, the lock is not taken before an import without it has cleaned up, a connection
is not lost where a cleanup needs its lock, and no exception gets past a handler on the way to a
cleanup, or instead of one. -/
def Guarded (P : Pool World Process) (p : Process) : Event → Prop
  | .plain => True
  | .acquire => ∀ q ∈ P.procs, ∀ f ∈ q.exposed, f ∉ P.shared.directory
  | .generate file => (∀ j, (j, file) ∉ P.shared.generated) ∧ file ∉ P.shared.applied
  | .lose => ¬p.Pending
  | .escape =>
    match p with
    | .doubtful k files _ => k = .mutation ∨ files = []
    | .rollingBack _ files => files = []
    | _ => True

/-- A step that is guarded. -/
def guardedMove (P : Pool World Process) (i : ℕ) (p : Process) (W : World) (p' : Process) : Prop :=
  ∃ e, Move P.shared i p e W p' ∧ Guarded P p e

/-- Files and history agree. -/
structure Agreement (P : Pool World Process) : Prop where
  /-- No file was deleted that has a row. -/
  deleted : ∀ f ∈ P.shared.deleted, f ∉ P.shared.history
  /-- What a producer has generated that returned is there, and its row has become durable. -/
  returned : ∀ i f, P.procs[i]? = some (.ended .returned) → (i, f) ∈ P.shared.generated →
    f ∈ P.shared.directory ∧ f ∈ P.shared.applied
  /-- What a producer has generated that is known to be rolled back is gone, unless a runner has
  applied it. -/
  rolledBack : ∀ i f, P.procs[i]? = some (.ended (.raised true)) → (i, f) ∈ P.shared.generated →
    f ∉ P.shared.applied → f ∉ P.shared.directory

/-! ## What holds in a run -/

section

variable {W W' : World} {i j : ℕ} {p : Process}

/-- The lock is held, the files exist, and none has had a row. -/
def World.Open (W : World) (i : ℕ) (files : List Text) : Prop :=
  W.holder = some i ∧ ∀ f ∈ files, f ∈ W.directory ∧ f ∉ W.applied

/-- What the outcome of process `i` promises. -/
def World.Kept (W : World) (i : ℕ) : Outcome → Prop
  | .returned => ∀ f, (i, f) ∈ W.generated → f ∈ W.directory ∧ f ∈ W.applied
  | .raised true => ∀ f, (i, f) ∈ W.generated → f ∈ W.directory → f ∈ W.applied
  | .raised false => True

/-- Process `i` has generated these files. -/
def World.Owns (W : World) (i : ℕ) (files : List Text) : Prop :=
  ∀ f, (i, f) ∈ W.generated ↔ f ∈ files

/-- What the state of process `i` says about the files that it has generated. -/
def Fits (W : World) (i : ℕ) : Process → Prop
  | .waiting _ | .runner | .listing | .batch _ => W.Owns i []
  | .loaded file _ => W.Owns i [] ∧ (W.holder = some i → file ∈ W.directory)
  | .working _ files => W.Owns i files ∧ W.Open i files
  | .recording k files file => W.Owns i (files ++ [file]) ∧ W.Open i (files ++ [file]) ∧
    (k = .bulkImport ∨ files = [])
  | .rollingBack k files => (∀ f ∈ files, (i, f) ∈ W.generated) ∧
    (∀ f, (i, f) ∈ W.generated → f ∉ files → f ∉ W.directory) ∧
    (∀ f ∈ files, f ∈ W.directory → f ∉ W.applied ∧ W.holder = some i) ∧
    (k = .mutation → files = [])
  | .doubtful k files lost => W.Owns i files ∧ (∀ f ∈ files, f ∈ W.directory) ∧
    (k = .snapshot → lost = false ∧ W.holder = some i)
  | .checking file lost => W.Owns i [file] ∧ file ∈ W.directory ∧ lost = false ∧
    W.holder = some i
  | .fencing _ files | .fenced _ files => W.Owns i files ∧ ∀ f ∈ files, f ∈ W.directory
  | .cleaning _ files _ => (∀ f ∈ files, (i, f) ∈ W.generated) ∧
    (∀ f, (i, f) ∈ W.generated → f ∉ files → f ∉ W.directory) ∧
    ∀ f ∈ files, f ∈ W.directory → f ∉ W.history ∧ W.holder = some i
  | .unfenced files _ => (∀ f ∈ files, (i, f) ∈ W.generated) ∧
    (∀ f, (i, f) ∈ W.generated → f ∉ files → f ∉ W.directory) ∧
    ∀ f ∈ files, f ∈ W.directory → f ∉ W.applied ∧ W.holder = none
  | .leaving o again => W.Kept i o ∧ (∀ f ∈ again, (i, f) ∈ W.generated) ∧
    (again ≠ [] → ∀ f, (i, f) ∈ W.generated → f ∉ W.directory)
  | .ended o => W.Kept i o

/-- What holds of the shared state : names are given once, files with a row have been applied, and
a deleted file has neither a row nor comes back. -/
structure World.Sound (W : World) : Prop where
  nodup : (W.generated.map Prod.snd).Nodup
  applied : ∀ f ∈ W.history, f ∈ W.applied
  deleted : ∀ f ∈ W.deleted, f ∉ W.history ∧ f ∉ W.directory ∧ ∃ i, (i, f) ∈ W.generated

variable {f : Text} {files : List Text} {P : Pool World Process}

theorem World.Sound.unique (h : W.Sound) (hi : (i, f) ∈ W.generated) (hj : (j, f) ∈ W.generated) :
    i = j :=
  congrArg Prod.fst (List.inj_on_of_nodup_map h.nodup hi hj rfl)

/-- What the step of another process leaves alone. -/
structure Frame (W W' : World) (i : ℕ) (p : Process) : Prop where
  generated : ∀ f, (i, f) ∈ W'.generated ↔ (i, f) ∈ W.generated
  directory : ∀ f, (i, f) ∈ W.generated → (f ∈ W'.directory ↔ f ∈ W.directory)
  applied : ∀ f ∈ W.applied, f ∈ W'.applied
  /-- A new row is that of a file that is there, and its process holds the lock. -/
  commits : ∀ f, (i, f) ∈ W.generated → f ∈ W'.applied ∧ f ∉ W.applied ∨
    f ∈ W'.history ∧ f ∉ W.history → f ∈ W.directory ∧ ∃ j, j ≠ i ∧ W.holder = some j
  holds : W.holder = some i → W'.holder = some i
  gains : W'.holder = some i → W.holder = some i ∧ ∀ f ∈ W.directory, f ∈ W'.directory
  free : (∃ f ∈ p.exposed, f ∈ W.directory) → W.holder = none → W'.holder = none

theorem Frame.not_applied (h : Frame W W' i p) (hf : (i, f) ∈ W.generated)
    (happlied : f ∉ W.applied) (hholder : f ∈ W.directory → W.holder = some i ∨ W.holder = none) :
    f ∉ W'.applied := by
  intro hnew
  obtain ⟨hdir, j, hj, hheld⟩ := h.commits f hf (Or.inl ⟨hnew, happlied⟩)
  rcases hholder hdir with hi | hnone
  · rw [hi] at hheld
    exact hj (Option.some.inj hheld).symm
  · rw [hnone] at hheld
    cases hheld

theorem Frame.not_history (h : Frame W W' i p) (hf : (i, f) ∈ W.generated)
    (hhistory : f ∉ W.history) (hholder : W.holder = some i) : f ∉ W'.history := by
  intro hnew
  obtain ⟨-, j, hj, hheld⟩ := h.commits f hf (Or.inr ⟨hnew, hhistory⟩)
  rw [hholder] at hheld
  exact hj (Option.some.inj hheld).symm

theorem Frame.owns (h : Frame W W' i p) (hfiles : W.Owns i files) :
    W'.Owns i files := fun f => (h.generated f).trans (hfiles f)

theorem Frame.open (h : Frame W W' i p) (hmine : ∀ f ∈ files, (i, f) ∈ W.generated)
    (hfiles : W.Open i files) : W'.Open i files := by
  refine ⟨h.holds hfiles.1, fun f hf => ⟨(h.directory f (hmine f hf)).2 (hfiles.2 f hf).1, ?_⟩⟩
  exact h.not_applied (hmine f hf) (hfiles.2 f hf).2 fun _ => Or.inl hfiles.1

theorem Frame.kept (h : Frame W W' i p) {o : Outcome} (ho : W.Kept i o) : W'.Kept i o := by
  cases o with
  | returned =>
    intro f hf
    rw [h.generated] at hf
    exact ⟨(h.directory f hf).2 (ho f hf).1, h.applied f (ho f hf).2⟩
  | raised rolledBack =>
    cases rolledBack with
    | true =>
      intro f hf hdir
      rw [h.generated] at hf
      exact h.applied f (ho f hf ((h.directory f hf).1 hdir))
    | false => trivial

/-- The step of another process keeps what fits a process. -/
theorem Fits.frame (hp : Fits W i p) (h : Frame W W' i p) : Fits W' i p := by
  have hmine : ∀ f, (i, f) ∈ W.generated → (i, f) ∈ W'.generated := fun f => (h.generated f).2
  have hgone : ∀ {files : List Text}, (∀ f, (i, f) ∈ W.generated → f ∉ files → f ∉ W.directory) →
      ∀ f, (i, f) ∈ W'.generated → f ∉ files → f ∉ W'.directory := by
    intro files hfiles f hf hnot hdir
    rw [h.generated] at hf
    exact hfiles f hf hnot ((h.directory f hf).1 hdir)
  have hthere : ∀ {files : List Text}, W.Owns i files → (∀ f ∈ files, f ∈ W.directory) →
      ∀ f ∈ files, f ∈ W'.directory := fun howns hfiles f hf =>
    (h.directory f ((howns f).2 hf)).2 (hfiles f hf)
  cases p with
  | waiting k => exact h.owns hp
  | runner => exact h.owns hp
  | listing => exact h.owns hp
  | batch todo => exact h.owns hp
  | loaded file todo =>
    refine ⟨h.owns hp.1, fun hheld => ?_⟩
    obtain ⟨hheld', hdir⟩ := h.gains hheld
    exact hdir file (hp.2 hheld')
  | working k files => exact ⟨h.owns hp.1, h.open (fun f hf => (hp.1 f).2 hf) hp.2⟩
  | recording k files file =>
    exact ⟨h.owns hp.1, h.open (fun f hf => (hp.1 f).2 hf) hp.2.1, hp.2.2⟩
  | rollingBack k files =>
    obtain ⟨hfiles, hrest, hopen, hmutation⟩ := hp
    refine ⟨fun f hf => hmine f (hfiles f hf), hgone hrest, fun f hf hdir => ?_, hmutation⟩
    obtain ⟨happlied, hheld⟩ := hopen f hf ((h.directory f (hfiles f hf)).1 hdir)
    exact ⟨h.not_applied (hfiles f hf) happlied fun _ => Or.inl hheld, h.holds hheld⟩
  | doubtful k files lost =>
    refine ⟨h.owns hp.1, hthere hp.1 hp.2.1, fun hk => ?_⟩
    exact ⟨(hp.2.2 hk).1, h.holds (hp.2.2 hk).2⟩
  | checking file lost =>
    obtain ⟨howns, hdir, hlost, hheld⟩ := hp
    refine ⟨h.owns howns, ?_, hlost, h.holds hheld⟩
    exact (h.directory file ((howns file).2 (List.mem_singleton_self file))).2 hdir
  | fencing k files => exact ⟨h.owns hp.1, hthere hp.1 hp.2⟩
  | fenced k files => exact ⟨h.owns hp.1, hthere hp.1 hp.2⟩
  | cleaning k files rolledBack =>
    obtain ⟨hfiles, hrest, hclean⟩ := hp
    refine ⟨fun f hf => hmine f (hfiles f hf), hgone hrest, fun f hf hdir => ?_⟩
    obtain ⟨hhistory, hheld⟩ := hclean f hf ((h.directory f (hfiles f hf)).1 hdir)
    exact ⟨h.not_history (hfiles f hf) hhistory hheld, h.holds hheld⟩
  | unfenced files rolledBack =>
    obtain ⟨hfiles, hrest, hclean⟩ := hp
    refine ⟨fun f hf => hmine f (hfiles f hf), hgone hrest, fun f hf hdir => ?_⟩
    have hdir' := (h.directory f (hfiles f hf)).1 hdir
    obtain ⟨happlied, hheld⟩ := hclean f hf hdir'
    exact ⟨h.not_applied (hfiles f hf) happlied fun _ => Or.inr hheld,
      h.free ⟨f, hf, hdir'⟩ hheld⟩
  | leaving o again =>
    obtain ⟨ho, hagain, hrest⟩ := hp
    refine ⟨h.kept ho, fun f hf => hmine f (hagain f hf), fun hne f hf hdir => ?_⟩
    rw [h.generated] at hf
    exact hrest hne f hf ((h.directory f hf).1 hdir)
  | ended o => exact h.kept hp

/-! ## What the steps of one process leave alone -/

theorem Frame.refl (W : World) (i : ℕ) (p : Process) : Frame W W i p where
  generated _ := Iff.rfl
  directory _ _ := Iff.rfl
  applied _ h := h
  commits _ _ h := by rcases h with h | h <;> exact absurd h.1 h.2
  holds h := h
  gains h := ⟨h, fun _ hf => hf⟩
  free _ h := h

theorem Frame.acquire (hfree : W.holder = none) (hij : j ≠ i)
    (hp : ∀ f ∈ p.exposed, f ∉ W.directory) : Frame W { W with holder := some j } i p where
  generated _ := Iff.rfl
  directory _ _ := Iff.rfl
  applied _ h := h
  commits _ _ h := by rcases h with h | h <;> exact absurd h.1 h.2
  holds h := by
    rw [hfree] at h
    cases h
  gains h := absurd (Option.some.inj h) hij
  free := fun ⟨f, hf, hdir⟩ _ => absurd hdir (hp f hf)

theorem Frame.release (h : Frame W W' i p) (hij : j ≠ i) : Frame W (W'.release j) i p where
  generated := h.generated
  directory := h.directory
  applied := h.applied
  commits := h.commits
  holds hheld := by
    show (if W'.holder = some j then none else W'.holder) = some i
    rw [h.holds hheld, if_neg fun heq => hij (Option.some.inj heq).symm]
  gains hheld := by
    have hheld' : (if W'.holder = some j then none else W'.holder) = some i := hheld
    split_ifs at hheld'
    exact h.gains hheld'
  free hexposed hnone := by
    show (if W'.holder = some j then none else W'.holder) = none
    rw [h.free hexposed hnone, ite_self]

theorem Frame.generate {file : Text} (hnew : ∀ k, (k, file) ∉ W.generated) (hij : j ≠ i) :
    Frame W (W.generate j file) i p where
  generated f := by
    refine ⟨fun h => (List.mem_cons.1 h).resolve_left fun heq => ?_, List.mem_cons_of_mem _⟩
    exact hij (congrArg Prod.fst heq).symm
  directory f hf := by
    refine ⟨fun h => (List.mem_cons.1 h).resolve_left fun heq => ?_, List.mem_cons_of_mem _⟩
    exact hnew i (heq ▸ hf)
  applied _ h := h
  commits _ _ h := by rcases h with h | h <;> exact absurd h.1 h.2
  holds h := h
  gains h := ⟨h, fun _ hf => List.mem_cons_of_mem _ hf⟩
  free _ h := h

theorem World.mem_delete : f ∈ (W.delete files).directory ↔ f ∈ W.directory ∧ f ∉ files := by
  simp [World.delete]

theorem Frame.delete (hW : W.Sound) (hfiles : ∀ f ∈ files, (j, f) ∈ W.generated)
    (hheld : ∀ f ∈ files, f ∈ W.directory → W.holder = some j ∨ W.holder = none) (hij : j ≠ i) :
    Frame W (W.delete files) i p where
  generated _ := Iff.rfl
  directory f hf := by
    rw [World.mem_delete]
    exact and_iff_left fun hmem => hij (hW.unique (hfiles f hmem) hf)
  applied _ h := h
  commits _ _ h := by rcases h with h | h <;> exact absurd h.1 h.2
  holds h := h
  gains h := by
    have hi : W.holder = some i := h
    refine ⟨hi, fun f hf => World.mem_delete.2 ⟨hf, fun hmem => ?_⟩⟩
    rcases hheld f hmem hf with hj | hnone
    · exact hij (Option.some.inj (hj.symm.trans hi))
    · exact nomatch hnone.symm.trans hi
  free _ h := h

theorem Frame.commit (hfiles : ∀ f ∈ files, f ∈ W.directory) (hheld : W.holder = some j)
    (hij : j ≠ i) : Frame W (W.commit files) i p where
  generated _ := Iff.rfl
  directory _ _ := Iff.rfl
  applied _ h := List.mem_append_left _ h
  commits f _ h := by
    have hmem : f ∈ files := by
      rcases h with ⟨h, hnot⟩ | ⟨h, hnot⟩ <;> exact (List.mem_append.1 h).resolve_left hnot
    exact ⟨hfiles f hmem, j, hij, hheld⟩
  holds h := h
  gains h := ⟨h, fun _ hf => hf⟩
  free _ h := h

theorem Frame.revert (W : World) (file : Text) (i : ℕ) (p : Process) :
    Frame W { W with history := W.history.filter (· ≠ file) } i p where
  generated _ := Iff.rfl
  directory _ _ := Iff.rfl
  applied _ h := h
  commits _ _ h := by
    rcases h with h | h
    · exact absurd h.1 h.2
    · exact absurd (List.mem_filter.1 h.1).1 h.2
  holds h := h
  gains h := ⟨h, fun _ hf => hf⟩
  free _ h := h

namespace World.Sound

theorem release (hW : W.Sound) (i : ℕ) : (W.release i).Sound := ⟨hW.nodup, hW.applied, hW.deleted⟩

theorem acquire (hW : W.Sound) (i : ℕ) : World.Sound { W with holder := some i } :=
  ⟨hW.nodup, hW.applied, hW.deleted⟩

theorem generate (hW : W.Sound) {file : Text} (hnew : ∀ k, (k, file) ∉ W.generated) (i : ℕ) :
    (W.generate i file).Sound where
  nodup := by
    refine List.nodup_cons.2 ⟨fun hmem => ?_, hW.nodup⟩
    obtain ⟨⟨k, f⟩, hk, rfl⟩ := List.mem_map.1 hmem
    exact hnew k hk
  applied := hW.applied
  deleted f hf := by
    obtain ⟨hhistory, hdir, k, hk⟩ := hW.deleted f hf
    refine ⟨hhistory, fun hmem => ?_, k, List.mem_cons_of_mem _ hk⟩
    rcases List.mem_cons.1 hmem with rfl | hmem
    · exact hnew k hk
    · exact hdir hmem

theorem delete (hW : W.Sound) {files : List Text} (hfiles : ∀ f ∈ files, (i, f) ∈ W.generated)
    (hclean : ∀ f ∈ files, f ∈ W.directory → f ∉ W.history) : (W.delete files).Sound where
  nodup := hW.nodup
  applied := hW.applied
  deleted f hf := by
    rcases List.mem_append.1 hf with hf | hf
    · obtain ⟨hhistory, hdir, hgen⟩ := hW.deleted f hf
      exact ⟨hhistory, fun hmem => hdir (World.mem_delete.1 hmem).1, hgen⟩
    · obtain ⟨hmem, hdir⟩ := List.mem_filter.1 hf
      have hdir' : f ∈ W.directory := of_decide_eq_true hdir
      exact ⟨hclean f hmem hdir', fun h => (World.mem_delete.1 h).2 hmem, i, hfiles f hmem⟩

theorem commit (hW : W.Sound) {files : List Text} (hfiles : ∀ f ∈ files, f ∈ W.directory) :
    (W.commit files).Sound where
  nodup := hW.nodup
  applied f hf := by
    rcases List.mem_append.1 hf with hf | hf
    · exact List.mem_append_left _ (hW.applied f hf)
    · exact List.mem_append_right _ hf
  deleted f hf := by
    obtain ⟨hhistory, hdir, hgen⟩ := hW.deleted f hf
    refine ⟨fun hmem => ?_, hdir, hgen⟩
    rcases List.mem_append.1 hmem with hmem | hmem
    · exact hhistory hmem
    · exact hdir (hfiles f hmem)

theorem revert (hW : W.Sound) (file : Text) :
    World.Sound { W with history := W.history.filter (· ≠ file) } where
  nodup := hW.nodup
  applied f hf := hW.applied f (List.mem_filter.1 hf).1
  deleted f hf := by
    obtain ⟨hhistory, hrest⟩ := hW.deleted f hf
    exact ⟨fun hmem => hhistory (List.mem_filter.1 hmem).1, hrest⟩

end World.Sound

/-! ## Steps -/

theorem holder_release_ne : (W.release i).holder ≠ some i := by
  intro h
  have h' : (if W.holder = some i then none else W.holder) = some i := h
  split_ifs at h' with hi
  exact hi h'

theorem holder_release (h : W.holder = some i) : (W.release i).holder = none := if_pos h

/-- A guarded step keeps the shared state sound, and fits the process that takes it. -/
theorem Move.sound {e : Event} {p' : Process} (h : Move P.shared i p e W' p')
    (hguard : Guarded P p e) (hW : P.shared.Sound) (hp : Fits P.shared i p) :
    W'.Sound ∧ Fits W' i p' := by
  cases h with
  | acquire k hfree =>
    exact ⟨hW.acquire i, hp, rfl, fun f hf => absurd hf List.not_mem_nil⟩
  | giveUp k => exact ⟨hW, fun f hf => absurd ((hp f).1 hf) List.not_mem_nil⟩
  | generate k files file hk hfile =>
    obtain ⟨howns, hheld, hopen⟩ := hp
    refine ⟨hW.generate hguard.1 i, fun f => ?_, ⟨hheld, fun f hf => ?_⟩, hk⟩
    · show (i, f) ∈ (i, file) :: P.shared.generated ↔ f ∈ files ++ [file]
      rw [List.mem_cons, howns, List.mem_append, List.mem_singleton, or_comm, Prod.mk.injEq,
        and_iff_right rfl]
    · rcases List.mem_append.1 hf with hf | hf
      · exact ⟨List.mem_cons_of_mem _ (hopen f hf).1, (hopen f hf).2⟩
      · obtain rfl := List.mem_singleton.1 hf
        exact ⟨List.mem_cons_self, hguard.2⟩
  | record k files file hlock hkey => exact ⟨hW, hp.1, hp.2.1⟩
  | recordFails k files file hk =>
    obtain ⟨howns, ⟨hheld, hopen⟩, hfiles⟩ := hp
    have hmine : ∀ f ∈ [file], (i, f) ∈ P.shared.generated := fun f hf =>
      (howns f).2 (List.mem_append_right _ hf)
    refine ⟨hW.delete hmine fun f hf _ hmem => ?_, fun f hf => ?_, fun f hf hnot hdir => ?_,
      fun f hf hdir => ?_, fun hmutation => ?_⟩
    · exact (hopen f (List.mem_append_right _ hf)).2 (hW.applied f hmem)
    · exact (howns f).2 (List.mem_append_left _ hf)
    · have hmem := (howns f).1 hf
      rw [List.mem_append, or_iff_right hnot] at hmem
      exact (World.mem_delete.1 hdir).2 hmem
    · exact ⟨(hopen f (List.mem_append_left _ hf)).2, hheld⟩
    · rcases hfiles with rfl | hnil
      · cases hmutation
      · exact hnil
  | snapshotFails files file =>
    obtain ⟨howns, ⟨hheld, hopen⟩, hfiles⟩ := hp
    obtain rfl := hfiles.resolve_left nofun
    refine ⟨hW, fun f hf => (howns f).2 hf, fun f hf hnot => absurd ((howns f).1 hf) hnot,
      fun f hf _ => ⟨(hopen f hf).2, hheld⟩, nofun⟩
  | workFails k files hk =>
    obtain ⟨howns, hheld, hopen⟩ := hp
    refine ⟨hW, fun f hf => (howns f).2 hf, fun f hf hnot => absurd ((howns f).1 hf) hnot,
      fun f hf _ => ⟨(hopen f hf).2, hheld⟩, fun hmutation => ?_⟩
    rcases hk with rfl | hnil
    · cases hmutation
    · exact hnil
  | rollback files =>
    obtain ⟨-, hrest, -, hmutation⟩ := hp
    refine ⟨hW.release i, fun f hf hdir => absurd hdir (hrest f hf ?_)⟩
    rw [hmutation rfl]
    exact List.not_mem_nil
  | rollbackImport files =>
    obtain ⟨hfiles, hrest, hopen, -⟩ := hp
    refine ⟨hW.release i, hfiles, hrest, fun f hf hdir => ⟨(hopen f hf hdir).1, ?_⟩⟩
    exact holder_release (hopen f hf hdir).2
  | rollbackSnapshot files =>
    obtain ⟨hfiles, hrest, hopen, -⟩ := hp
    refine ⟨hW, hfiles, hrest, fun f hf hdir => ⟨fun hmem => ?_, (hopen f hf hdir).2⟩⟩
    exact (hopen f hf hdir).1 (hW.applied f hmem)
  | rollbackEscapes k files =>
    obtain ⟨-, hrest, -, -⟩ := hp
    have hnil : files = [] := hguard
    refine ⟨hW.release i, fun f hf hdir => absurd hdir (hrest f hf ?_)⟩
    rw [hnil]
    exact List.not_mem_nil
  | commit k files hk hlock =>
    obtain ⟨howns, -, hopen⟩ := hp
    refine ⟨(hW.commit fun f hf => (hopen f hf).1).release i, fun f hf => ?_⟩
    have hmem := (howns f).1 hf
    exact ⟨(hopen f hmem).1, List.mem_append_right _ hmem⟩
  | commitSnapshot files hlock =>
    obtain ⟨howns, -, hopen⟩ := hp
    refine ⟨hW.commit fun f hf => (hopen f hf).1, fun f hf => ?_, nofun, nofun⟩
    have hmem := (howns f).1 hf
    exact ⟨(hopen f hmem).1, List.mem_append_right _ hmem⟩
  | commitFails k files keeps hk =>
    obtain ⟨howns, -, hopen⟩ := hp
    cases keeps with
    | true => exact ⟨hW, howns, fun f hf => (hopen f hf).1, fun heq => absurd heq hk⟩
    | false => exact ⟨hW.release i, howns, fun f hf => (hopen f hf).1, fun heq => absurd heq hk⟩
  | commitUnacknowledged k files hk hlock =>
    obtain ⟨howns, -, hopen⟩ := hp
    have hdir : ∀ f ∈ files, f ∈ P.shared.directory := fun f hf => (hopen f hf).1
    exact ⟨(hW.commit hdir).release i, howns, hdir, fun heq => absurd heq hk⟩
  | snapshotCommitFails files applied lost hlock =>
    obtain ⟨howns, -, hopen⟩ := hp
    have hdir : ∀ f ∈ files, f ∈ P.shared.directory := fun f hf => (hopen f hf).1
    cases lost with
    | true => exact absurd trivial hguard
    | false =>
      cases applied with
      | true => exact ⟨hW.commit hdir, howns, hdir, fun _ => ⟨rfl, hlock⟩⟩
      | false => exact ⟨hW, howns, hdir, fun _ => ⟨rfl, hlock⟩⟩
  | close k files lost hk hfiles => exact ⟨hW.release i, hp.1, hp.2.1⟩
  | closeEmpty k lost hk => exact ⟨hW.release i, trivial⟩
  | recheck file lost =>
    obtain ⟨howns, hdir, hlock⟩ := hp
    exact ⟨hW, howns, hdir file (List.mem_singleton_self file), hlock rfl⟩
  | closeEscapes files lost => exact ⟨hW.release i, trivial⟩
  | importEscapes files lost =>
    obtain rfl : files = [] := hguard.resolve_left nofun
    refine ⟨hW.release i, nofun, fun f hf => ?_, nofun⟩
    exact absurd ((hp.1 f).1 hf) List.not_mem_nil
  | importEscapesTwice files lost => exact ⟨hW.release i, trivial⟩
  | snapshotEscapes files lost =>
    obtain rfl : files = [] := hguard.resolve_left nofun
    refine ⟨hW, nofun, fun f hf => ?_, nofun⟩
    exact absurd ((hp.1 f).1 hf) List.not_mem_nil
  | fence k files hfree => exact ⟨hW.acquire i, hp⟩
  | fenceFails k files => exact ⟨hW, trivial⟩
  | confirm k files hlock hall =>
    refine ⟨hW, fun f hf => ?_, nofun, nofun⟩
    have hmem := (hp.1 f).1 hf
    exact ⟨hp.2 f hmem, hW.applied f (hall f hmem)⟩
  | refute k files hlock hnone =>
    refine ⟨hW, fun f hf => (hp.1 f).2 hf, fun f hf hnot => absurd ((hp.1 f).1 hf) hnot, ?_⟩
    exact fun f hf _ => ⟨hnone f hf, hlock⟩
  | preserve k files => exact ⟨hW, trivial, nofun, nofun⟩
  | confirmSnapshot file lost hfile =>
    obtain ⟨howns, hdir, rfl, -⟩ := hp
    refine ⟨hW, fun f hf => ?_, nofun, nofun⟩
    obtain rfl := List.mem_singleton.1 ((howns f).1 hf)
    exact ⟨hdir, hW.applied f hfile⟩
  | refuteSnapshot file lost hfile =>
    obtain ⟨howns, -, -, hheld⟩ := hp
    refine ⟨hW, fun f hf => (howns f).2 hf, fun f hf hnot => absurd ((howns f).1 hf) hnot, ?_⟩
    intro f hf _
    obtain rfl := List.mem_singleton.1 hf
    exact ⟨hfile, hheld⟩
  | preserveSnapshot file lost => exact ⟨hW, trivial, nofun, nofun⟩
  | clean k files rolledBack =>
    obtain ⟨hfiles, hrest, hclean⟩ := hp
    have hgone : ∀ f, (i, f) ∈ P.shared.generated → f ∉ (P.shared.delete files).directory := by
      intro f hf hdir
      obtain ⟨hdir, hnot⟩ := World.mem_delete.1 hdir
      exact hrest f hf hnot hdir
    refine ⟨hW.delete hfiles fun f hf hdir => (hclean f hf hdir).1, ?_, fun f hf => ?_,
      fun _ => hgone⟩
    · cases rolledBack with
      | true => exact fun f hf hdir => absurd hdir (hgone f hf)
      | false => trivial
    · split_ifs at hf with hk
      · exact hfiles f hf
      · cases hf
  | cleanUnfenced files rolledBack =>
    obtain ⟨hfiles, hrest, hclean⟩ := hp
    refine ⟨hW.delete hfiles fun f hf hdir hmem => (hclean f hf hdir).1 (hW.applied f hmem), ?_⟩
    cases rolledBack with
    | true =>
      intro f hf hdir
      obtain ⟨hdir, hnot⟩ := World.mem_delete.1 hdir
      exact absurd hdir (hrest f hf hnot)
    | false => trivial
  | leave o => exact ⟨hW.release i, hp.1⟩
  | leaveAgain o again hagain =>
    obtain ⟨-, hfiles, hrest⟩ := hp
    refine ⟨hW.release i, hfiles, fun f hf _ => hrest hagain f hf, fun f hf hdir => ?_⟩
    exact absurd hdir (hrest hagain f (hfiles f hf))
  | leaveFails o again =>
    refine ⟨hW.release i, ?_⟩
    split_ifs with ho
    · trivial
    · exact hp.1
  | lose =>
    refine ⟨hW.release i, ?_⟩
    cases p with
    | loaded file todo => exact ⟨hp.1, fun hheld => absurd hheld holder_release_ne⟩
    | working k files => exact absurd trivial hguard
    | recording k files file => exact absurd trivial hguard
    | cleaning k files rolledBack => exact absurd trivial hguard
    | checking file lost => exact absurd trivial hguard
    | rollingBack k files =>
      obtain rfl : files = [] := not_not.1 hguard
      exact ⟨hp.1, hp.2.1, nofun, hp.2.2.2⟩
    | doubtful k files lost => exact ⟨hp.1, hp.2.1, fun hk => absurd hk hguard⟩
    | unfenced files rolledBack =>
      refine ⟨hp.1, hp.2.1, fun f hf hdir => ⟨(hp.2.2 f hf hdir).1, ?_⟩⟩
      show (if P.shared.holder = some i then none else P.shared.holder) = none
      rw [(hp.2.2 f hf hdir).2, ite_self]
    | _ => exact hp
  | runnerAcquire hfree => exact ⟨hW.acquire i, hp⟩
  | list => exact ⟨hW, hp⟩
  | load file todo hfile => exact ⟨hW, hp, fun _ => hfile⟩
  | apply file todo hlock hkey =>
    refine ⟨hW.commit fun f hf => ?_, hp.1⟩
    obtain rfl := List.mem_singleton.1 hf
    exact hp.2 hlock
  | revert file hlock => exact ⟨hW.revert file, hp⟩
  | stop hp => exact ⟨hW.release i, trivial⟩

/-- A guarded step leaves the other processes alone. -/
theorem Move.frame {e : Event} {p' q : Process} (h : Move P.shared i p e W' p')
    (hguard : Guarded P p e) (hW : P.shared.Sound) (hp : Fits P.shared i p) (hij : i ≠ j)
    (hq : q ∈ P.procs) : Frame P.shared W' j q := by
  cases h with
  | acquire k hfree => exact .acquire hfree hij (hguard q hq)
  | generate k files file hk hfile => exact .generate hguard.1 hij
  | recordFails k files file hk =>
    refine .delete hW (fun f hf => (hp.1 f).2 (List.mem_append_right _ hf)) (fun f hf _ => ?_) hij
    exact Or.inl hp.2.1.1
  | commit k files hk hlock =>
    exact (Frame.commit (fun f hf => (hp.2.2 f hf).1) hlock hij).release hij
  | commitSnapshot files hlock => exact .commit (fun f hf => (hp.2.2 f hf).1) hlock hij
  | commitFails k files keeps hk =>
    cases keeps with
    | true => exact .refl _ _ _
    | false => exact (Frame.refl _ _ _).release hij
  | commitUnacknowledged k files hk hlock =>
    exact (Frame.commit (fun f hf => (hp.2.2 f hf).1) hlock hij).release hij
  | snapshotCommitFails files applied lost hlock =>
    have hcommit : Frame P.shared (if applied then P.shared.commit files else P.shared) j q := by
      split_ifs
      · exact .commit (fun f hf => (hp.2.2 f hf).1) hlock hij
      · exact .refl _ _ _
    cases lost with
    | true => exact hcommit.release hij
    | false => exact hcommit
  | fence k files hfree => exact .acquire hfree hij (hguard q hq)
  | clean k files rolledBack =>
    exact .delete hW hp.1 (fun f hf hdir => Or.inl (hp.2.2 f hf hdir).2) hij
  | cleanUnfenced files rolledBack =>
    exact .delete hW hp.1 (fun f hf hdir => Or.inr (hp.2.2 f hf hdir).2) hij
  | runnerAcquire hfree => exact .acquire hfree hij (hguard q hq)
  | apply file todo hlock hkey =>
    refine .commit (fun f hf => ?_) hlock hij
    obtain rfl := List.mem_singleton.1 hf
    exact hp.2 hlock
  | revert file hlock => exact .revert _ _ _ _
  | giveUp | record | snapshotFails | workFails | rollbackSnapshot | recheck | snapshotEscapes
  | fenceFails | confirm | refute | preserve | confirmSnapshot | refuteSnapshot | preserveSnapshot
  | list | load => exact .refl _ _ _
  | _ => exact (Frame.refl _ _ _).release hij

/-- Only the process that moves is given a name. -/
theorem Move.generated {e : Event} {p' : Process} (h : Move W i p e W' p') {k : ℕ}
    (hf : (k, f) ∈ W'.generated) : (k, f) ∈ W.generated ∨ k = i := by
  cases h with
  | generate _ _ file =>
    exact (List.mem_cons.1 hf).symm.imp id fun heq => congrArg Prod.fst heq
  | commitFails _ _ keeps => cases keeps <;> exact Or.inl hf
  | snapshotCommitFails _ applied lost => cases applied <;> cases lost <;> exact Or.inl hf
  | _ => exact Or.inl hf

/-! ## Runs -/

/-- What holds in every state of a guarded run. -/
structure Sound (P : Pool World Process) : Prop where
  world : P.shared.Sound
  bound : ∀ i f, (i, f) ∈ P.shared.generated → i < P.procs.length
  fits : ∀ i p, P.procs[i]? = some p → Fits P.shared i p

theorem Sound.step {Q : Pool World Process} (hP : Sound P) (h : Pool.Step start guardedMove P Q) :
    Sound Q := by
  cases h with
  | @arrive p hstart =>
    refine ⟨hP.world, fun i f hf => ?_, fun i q hq => ?_⟩
    · rw [List.length_append]
      exact Nat.lt_add_right _ (hP.bound i f hf)
    · rcases Pool.mem_of_getElem?_append hq with hold | rfl
      · exact hP.fits i q hold
      · by_cases hi : i < P.procs.length
        · rw [List.getElem?_append_left hi] at hq
          exact hP.fits i q hq
        · -- nobody has been given a name under the number of a process that arrives
          have howns : P.shared.Owns i [] := fun f =>
            ⟨fun hf => absurd (hP.bound i f hf) hi, fun hf => absurd hf List.not_mem_nil⟩
          rcases hstart with ⟨k, rfl⟩ | rfl
          · exact howns
          · exact howns
  | @move i p p' W' hp hmove =>
    obtain ⟨e, hmove, hguard⟩ := hmove
    have hi := hP.fits i p hp
    obtain ⟨hworld, hfits⟩ := hmove.sound hguard hP.world hi
    refine ⟨hworld, fun k f hf => ?_, fun k q hq => ?_⟩
    · rw [List.length_set]
      rcases hmove.generated hf with hf | rfl
      · exact hP.bound k f hf
      · exact (List.getElem?_eq_some_iff.1 hp).1
    · rcases Pool.of_getElem?_set hq with ⟨rfl, rfl⟩ | ⟨hik, hq⟩
      · exact hfits
      · exact (hP.fits k q hq).frame
          (hmove.frame hguard hP.world hi hik (List.mem_of_getElem? hq))

theorem Sound.agreement (hP : Sound P) : Agreement P where
  deleted f hf := (hP.world.deleted f hf).1
  returned i f hp hf := hP.fits i _ hp f hf
  rolledBack i f hp hf happlied hdir := happlied (hP.fits i _ hp f hf hdir)

/-- In every state of a run whose steps are guarded, files and history agree. -/
theorem agree_of_guarded {directory history : List Text}
    (h : Pool.Run start guardedMove ⟨{ directory, history }, []⟩ P) : Agreement P := by
  have hempty : Sound ⟨{ directory, history }, []⟩ :=
    ⟨⟨.nil, fun _ hf => hf, fun _ h => absurd h List.not_mem_nil⟩,
      fun _ _ h => absurd h List.not_mem_nil, fun i p h => absurd h (by simp)⟩
  exact (h.invariant Sound.step hempty).agreement

end

/-! ## An import that is cancelled -/

/-- A collection is created, and a runner finds nothing to do. -/
theorem mutation_agrees : ∃ P : Pool World Process,
    P.shared.directory = ["1_created_posts.py".toList] ∧ P.procs[0]? = some (.ended .returned) ∧
      Agreement P := by
  let file : Text := "1_created_posts.py"
  let W : World := ⟨[file], [file], none, [file], [(0, file)], []⟩
  have hrun : Pool.Run start guardedMove ⟨⟨[], [], none, [], [], []⟩, []⟩
      ⟨{ W with holder := some 1 }, [.ended .returned, .listing]⟩ := by
    refine .tail (.tail (.tail (.tail (.tail (.tail (.tail .refl (.arrive (.inl ⟨.mutation, rfl⟩)))
      (.move (i := 0) rfl ⟨_, .acquire .mutation rfl, ?_⟩))
      (.move (i := 0) rfl ⟨_, .generate .mutation [] file (.inr rfl) nofun, ?_⟩))
      (.move (i := 0) rfl ⟨_, .record .mutation [] file rfl nofun, trivial⟩))
      (.move (i := 0) rfl ⟨_, .commit .mutation [file] nofun rfl, trivial⟩))
      (.arrive (.inr rfl)))
      (.move (i := 1) rfl ⟨_, .runnerAcquire rfl, ?_⟩)
    · intro q hq f hf
      obtain rfl := List.mem_singleton.1 hq
      cases hf
    · exact ⟨nofun, nofun⟩
    · intro q hq f hf
      rcases List.mem_cons.1 hq with rfl | hq
      · cases hf
      · obtain rfl := List.mem_singleton.1 hq
        cases hf
  exact ⟨_, rfl, rfl, agree_of_guarded hrun⟩

/-- The commit of an import is applied, but not acknowledged, and the import is cancelled while it
closes its session : it deletes the file of a row that is durable. -/
theorem cancelled_import_deletes : ¬∀ P : Pool World Process,
    Pool.Run start move ⟨{ directory := [], history := [] }, []⟩ P → Agreement P := by
  intro h
  let file : Text := "1_created_posts.py"
  have hrun : Pool.Run start move ⟨{ directory := [], history := [] }, []⟩
      ⟨⟨[], [file], none, [file], [(0, file)], [file]⟩, [.ended (.raised false)]⟩ :=
    .tail (.tail (.tail (.tail (.tail (.tail (.tail .refl (.arrive (.inl ⟨.bulkImport, rfl⟩)))
      (.move (i := 0) rfl ⟨_, .acquire .bulkImport rfl⟩))
      (.move (i := 0) rfl ⟨_, .generate .bulkImport [] file (.inl rfl) nofun⟩))
      (.move (i := 0) rfl ⟨_, .record .bulkImport [] file rfl nofun⟩))
      (.move (i := 0) rfl ⟨_, .commitUnacknowledged .bulkImport [file] nofun rfl⟩))
      (.move (i := 0) rfl ⟨_, .importEscapes [file] false⟩))
      (.move (i := 0) rfl ⟨_, .cleanUnfenced [file] false⟩)
  exact (h _ hrun).deleted file List.mem_cons_self List.mem_cons_self

end GeneratedFiles

end PPBase
