import PPBase.Leases
import Mathlib.Logic.Relation

/-!
# Operations on the archives and their leases

Every operation of the backup service takes leases on two directories, `data_dir` for all that
changes archives and `data_dir/backups` for what uses one, and checks now and then that both are
still the directories at their paths. An operation is a list of instructions here (`Job.script`) :
wherever one fails, or the task is cancelled, its context managers release what it has. Tasks of any
number of processes take steps in any order, processes end, and the directories are replaced.
-/

namespace PPBase

namespace OperationLeases

open Leases

/-- The directories at `data_dir` and `data_dir/backups`, by their inodes. -/
structure Root where
  data : ℕ
  backups : ℕ
  deriving DecidableEq

/-- `_LockTarget` -/
inductive Target
  | data | backups
  deriving DecidableEq

inductive Dir
  | data (inode : ℕ)
  /-- A directory for backups is the child of one data directory only. -/
  | backups (root : Root)
  deriving DecidableEq

def Root.dir (r : Root) : Target → Dir
  | .data => .data r.data
  | .backups => .backups r

/-- A file in the directory for backups. -/
structure Entry (β : Type) where
  inode : ℕ
  content : β
  deriving DecidableEq

/-- What an operation answers when it has succeeded. -/
inductive Outcome (β : Type)
  /-- `upload_local_backup`, `create_local_backup` -/
  | stored (content : β)
  /-- `delete_local_backup` -/
  | deleted
  /-- `resolve_restore_reference` -/
  | resolved
  /-- `materialize_local_backup_zip` -/
  | served

inductive Instr (β : Type)
  /-- `_acquire`, up to its `verify_lease` -/
  | acquire (target : Target) (mode : Mode)
  /-- `_operation_commit_guard` -/
  | verify
  /-- `_resolve_backup_reference` -/
  | require
  /-- `_assert_backup_aliases_available` -/
  | refuse
  /-- `BackupArchiveStore.publish`, up to `os.link` -/
  | link (content : β)
  /-- The rest of `publish`. -/
  | publish
  /-- `BackupArchiveStore.delete` -/
  | unlink
  /-- `BackupArchiveStore.pin` -/
  | pin
  /-- The last guard, and the answer. -/
  | report (o : Outcome β)
  /-- `PinnedBackupZip.close`, without its callbacks -/
  | unpin
  /-- `BackupOperationLease.close`, of the lease that was taken last -/
  | release

/-- An operation for one key. -/
structure Task (κ β : Type) where
  process : ℕ
  root : Root
  key : κ
  rest : List (Instr β)
  /-- The leases, the last first. -/
  leases : List (Target × Mode) := []
  pinned : Option (Entry β) := none

/-- The archives of all directories. -/
structure Store (κ β : Type) where
  archives : Root → κ → Option (Entry β)
  /-- The next inode. -/
  next : ℕ
  /-- The inodes of the archives that were published. -/
  published : List ℕ

structure State (ι κ β : Type) extends Store κ β where
  /-- The directories that are at the paths. -/
  path : Root
  locks : Table ι Dir
  tasks : ι → Option (Task κ β)

variable {ι κ β : Type} [DecidableEq ι] [DecidableEq κ]

namespace Task

/-- The lease on `data_dir` that every change of the archives needs. -/
def Mutates (t : Task κ β) : Prop := (Target.data, Mode.exclusive) ∈ t.leases

/-- What is left to do when an instruction has failed : all is closed, the last first. -/
def unwind (t : Task κ β) : List (Instr β) :=
  (if t.pinned.isSome then [.unpin] else []) ++ t.leases.map fun _ => .release

end Task

namespace Store

def setEntry (s : Store κ β) (r : Root) (k : κ) (e : Option (Entry β)) : Store κ β :=
  { s with archives := Function.update s.archives r (Function.update (s.archives r) k e) }

/-- `os.link` of a new file. -/
def link (s : Store κ β) (r : Root) (k : κ) (content : β) : Store κ β :=
  { s.setEntry r k (some ⟨s.next, content⟩) with next := s.next + 1 }

def publish (s : Store κ β) (e : Entry β) : Store κ β := { s with published := e.inode :: s.published }

end Store

def State.setTask (s : State ι κ β) (i : ι) (t : Task κ β) : State ι κ β :=
  { s with tasks := Function.update s.tasks i (some t) }

/-- What an instruction does for the task `t`, or nothing if it raises. -/
def Instr.perform (s : State ι κ β) (i : ι) (t : Task κ β) :
    Instr β → Option (Task κ β × State ι κ β)
  | .acquire target mode => do
    let locks ← s.locks.acquire ⟨i, t.root.dir target, mode⟩
    some ({ t with leases := (target, mode) :: t.leases }, { s with locks := locks })
  | .verify | .report _ => if s.path = t.root then some (t, s) else none
  | .require => if (s.archives t.root t.key).isSome then some (t, s) else none
  | .refuse => if (s.archives t.root t.key).isSome then none else some (t, s)
  | .link content =>
    if (s.archives t.root t.key).isSome then none
    else some (t, { s with toStore := s.link t.root t.key content })
  | .publish => (s.archives t.root t.key).map fun e => (t, { s with toStore := s.publish e })
  | .unlink =>
    if (s.archives t.root t.key).isSome then
      some (t, { s with toStore := s.setEntry t.root t.key none })
    else none
  | .pin => (s.archives t.root t.key).map fun e => ({ t with pinned := some e }, s)
  | .unpin => some ({ t with pinned := none }, s)
  | .release =>
    match t.leases with
    | [] => none
    | (target, _) :: leases =>
      some ({ t with leases := leases }, { s with locks := s.locks.release i (t.root.dir target) })

/-- A task does its next instruction. -/
def State.turn (s : State ι κ β) (i : ι) : Option (State ι κ β) := do
  let t ← s.tasks i
  let x ← t.rest.head?
  let (t', s') ← x.perform s i t
  some (s'.setTask i { t' with rest := t.rest.tail })

/-- Nothing keeps what closes something from its end. -/
def Instr.Closes : Instr β → Prop
  | .unpin | .release => True
  | _ => False

/-- The operations of the service. -/
inductive Job (β : Type)
  /-- `named` : with a file name that was asked for -/
  | create (named : Bool) (content : β)
  | upload (content : β) | delete | download | restore
  /-- `backup_operation_available` -/
  | probe

def Job.script : Job β → List (Instr β)
  | .create named content =>
    [.acquire .data .exclusive, .verify, .verify] ++ (if named then [.refuse, .verify] else []) ++
      [.refuse, .verify, .verify, .verify, .link content, .publish, .report (.stored content), .release]
  | .upload content =>
    [.acquire .data .exclusive, .verify, .verify, .refuse, .link content, .publish,
      .report (.stored content), .release]
  | .delete =>
    [.acquire .data .exclusive, .verify, .require, .acquire .backups .exclusive, .verify, .verify,
      .unlink, .report .deleted, .release, .release]
  | .download => [.require, .acquire .backups .shared, .verify, .pin, .report .served, .unpin, .release]
  | .restore =>
    [.acquire .data .exclusive, .verify, .verify, .require, .report .resolved, .verify, .require,
      .acquire .backups .shared, .verify, .pin, .verify, .verify, .verify, .unpin, .verify, .release,
      .release]
  | .probe => [.acquire .data .exclusive, .verify, .release]

/-- A task begins, with the directories that it finds. -/
def State.start (s : State ι κ β) (i : ι) (process : ℕ) (root : Root) (key : κ) (job : Job β) :
    State ι κ β :=
  s.setTask i { process := process, root := root, key := key, rest := job.script }

/-- A step of some task, or of what is around the tasks. -/
inductive Step : State ι κ β → State ι κ β → Prop
  | start {s : State ι κ β} (i : ι) (process : ℕ) (root : Root) (key : κ) (job : Job β)
      (hi : s.tasks i = none) :
    Step s (s.start i process root key job)
  | run {s s' : State ι κ β} {i : ι} {t t' : Task κ β} {x : Instr β} {xs : List (Instr β)}
      (hi : s.tasks i = some t) (ht : t.rest = x :: xs) (hx : x.perform s i t = some (t', s')) :
    Step s (s'.setTask i { t' with rest := xs })
  /-- The instruction raises, or the task is cancelled there. -/
  | fail {s : State ι κ β} {i : ι} {t : Task κ β} {x : Instr β} {xs : List (Instr β)}
      (hi : s.tasks i = some t) (ht : t.rest = x :: xs) (hx : ¬x.Closes) :
    Step s (s.setTask i { t with rest := t.unwind })
  /-- What was linked is not published but removed. -/
  | rollback {s : State ι κ β} {i : ι} {t : Task κ β} {xs : List (Instr β)}
      (hi : s.tasks i = some t) (ht : t.rest = .publish :: xs) :
    Step s (State.setTask { s with toStore := s.setEntry t.root t.key none } i
      { t with rest := t.unwind })
  /-- A process ends, or goes on as another program. -/
  | exit {s : State ι κ β} (process : ℕ) :
    Step s { s with
      tasks := fun i => (s.tasks i).filter (·.process ≠ process)
      locks := s.locks.drop fun i => (s.tasks i).any (·.process = process) }
  /-- The directories at the paths are replaced. -/
  | replace {s : State ι κ β} (root : Root) : Step s { s with path := root }

/-- Before any task. All archives are published. -/
structure Initial (s : State ι κ β) : Prop where
  tasks : ∀ i, s.tasks i = none
  locks : s.locks = []
  published : ∀ r k e, s.archives r k = some e → e.inode ∈ s.published
  fresh : ∀ x ∈ s.published, x < s.next
  unique : ∀ {r k e r' k' e'}, s.archives r k = some e → s.archives r' k' = some e' →
    e.inode = e'.inode → r = r' ∧ k = k'

/-- Every order of steps. -/
def Reachable (s : State ι κ β) : Prop := ∃ s₀, Initial s₀ ∧ Relation.ReflTransGen Step s₀ s

end OperationLeases

end PPBase
