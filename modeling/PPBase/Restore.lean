import Mathlib.Logic.Function.Basic
import Mathlib.Logic.Relation

/-!
# The cutover of a destructive restore

A restore replaces the database in one transaction of the server, which also writes a marker,
and the storage and the secret by renames in the data directory. A journal says how far the
renames are. The service reads the marker to decide whether the files go back, and so does the
recovery at the next start. A crash is possible after every step.

The invariant `Durable` speaks of the durable state alone : an old database can be rolled back
to, a new one has its files in place, and without a journal nothing is left to do. Every
decision has to be made on a transaction that has ended; `Restore.Run` has no such condition,
`Restore.SettledRun` has.
-/

namespace PPBase

namespace Restore

/-- A copy of the storage or of the secret. A broken one has been removed in part. -/
inductive Copy
  | old | new | broken
  deriving DecidableEq

/-- The entries of one resource : the active one, the one named `-before-`, and the one in the
work directory. -/
structure Slot where
  active : Option Copy
  previous : Option Copy
  staged : Option Copy
  deriving DecidableEq

namespace Slot

/-- `rename(active, previous)`, where a missing entry is passed over. -/
def retire (s : Slot) : Slot :=
  match s.active with
  | some c => { s with active := none, previous := some c }
  | none => s

/-- `rename(staged, active)` -/
def install (s : Slot) : Slot := { s with active := s.staged, staged := none }

/-- `rename(previous, active)` -/
def bringBack (s : Slot) : Slot := { s with active := s.previous, previous := none }

def removeActive (s : Slot) : Slot := { s with active := none }

def removePrevious (s : Slot) : Slot := { s with previous := none }

def removeStaged (s : Slot) : Slot := { s with staged := none }

/-- `rmtree` has begun. -/
def breakActive (s : Slot) : Slot := { s with active := s.active.map fun _ => .broken }

def breakPrevious (s : Slot) : Slot := { s with previous := s.previous.map fun _ => .broken }

def breakStaged (s : Slot) : Slot := { s with staged := s.staged.map fun _ => .broken }

end Slot

inductive Resource
  | storage | secret
  deriving DecidableEq

/-- `_JOURNAL_STATUSES` -/
inductive Status
  | swapStarted | filesSwapped | databaseCommitted | finalizing
  deriving DecidableEq

inductive Version
  | old | new
  deriving DecidableEq

/-- The restore transaction on the server. A pending one may still commit. -/
inductive Transaction
  | idle | pending | committed | aborted
  deriving DecidableEq

/-- What survives a crash. -/
structure World where
  database : Version
  marker : Bool
  transaction : Transaction
  journal : Option Status
  slot : Resource → Slot

namespace World

def update (w : World) (r : Resource) (f : Slot → Slot) : World :=
  { w with slot := Function.update w.slot r (f (w.slot r)) }

def writeJournal (w : World) (status : Status) : World := { w with journal := some status }

/-- The transaction commits : the new database, with the marker in it. -/
def commit (w : World) : World :=
  { w with database := .new, marker := true, transaction := .committed }

end World

/-- Who runs the code that several functions share : the `except` clause of `swap_into_place`,
`rollback`, the recovery of a restore that was not committed, and of one that was. -/
inductive Caller
  | handler | rollback | recovery | finalize
  deriving DecidableEq

/-- The steps of `_rollback_with_fd` for one resource. -/
inductive Undo
  | check (r : Resource) | remove (r : Resource) | rename (r : Resource)
  deriving DecidableEq

/-- Where the process is. -/
inductive Pc
  -- `swap_into_place`
  | mkdir | checkSecret | writeStarted | retire (r : Resource) | install (r : Resource) | writeSwapped
  -- `_restore_local_backup_under_lease`
  | begin | transaction | readMarker | writeCommitted | reported
  -- `rollback` and what it shares with others
  | undo (caller : Caller) (u : Undo) | clear (caller : Caller) | cleanup (caller : Caller) | stopped
  -- `recover_interrupted_destructive_restore`
  | recover | writeFinalizing | clearMarker | drop (r : Resource) | recovered
  deriving DecidableEq

/-- The steps of `swap_into_place`. At `begin` its last write may still raise. -/
def Pc.swaps : Pc → Bool
  | .mkdir | .checkSecret | .writeStarted | .retire _ | .install _ | .writeSwapped | .begin => true
  | _ => false

def afterInstall : Resource → Pc
  | .storage => .retire .secret
  | .secret => .writeSwapped

/-- What follows when the entries of a resource are back. -/
def afterUndo (caller : Caller) : Resource → Pc
  | .storage => .undo caller (.check .secret)
  | .secret =>
    match caller with
    | .handler | .rollback => .clear caller
    | .recovery | .finalize => .cleanup caller

/-- What follows `journal.clear()`. An error of the swap is followed by `rollback`. -/
def afterClear : Caller → Pc
  | .handler => .undo .rollback (.check .storage)
  | .rollback => .cleanup .rollback
  | .recovery | .finalize => .recovered

def afterCleanup : Caller → Pc
  | .handler | .rollback => .stopped
  | .recovery => .clear .recovery
  | .finalize => .clear .finalize

def afterDrop : Resource → Pc
  | .storage => .drop .secret
  | .secret => .cleanup .finalize

structure State where
  pc : Pc
  world : World

/-- The steps that do not read the marker, of the process and of the server. -/
inductive Move : State → State → Prop
  | mkdir (w : World) : Move ⟨.mkdir, w⟩
      ⟨.checkSecret, w.update .storage fun s => { s with active := s.active.or (some .old) }⟩
  | checkSecret (w : World) (h : (w.slot .secret).active ≠ none) :
      Move ⟨.checkSecret, w⟩ ⟨.writeStarted, w⟩
  | writeStarted (w : World) :
      Move ⟨.writeStarted, w⟩ ⟨.retire .storage, w.writeJournal .swapStarted⟩
  | retire (w : World) (r : Resource) : Move ⟨.retire r, w⟩ ⟨.install r, w.update r Slot.retire⟩
  | install (w : World) (r : Resource) (h : (w.slot r).staged ≠ none) :
      Move ⟨.install r, w⟩ ⟨afterInstall r, w.update r Slot.install⟩
  | writeSwapped (w : World) : Move ⟨.writeSwapped, w⟩ ⟨.begin, w.writeJournal .filesSwapped⟩
  -- An exception in the swap, and a cancellation after it.
  | raise (w : World) (pc : Pc) (h : pc.swaps = true) :
      Move ⟨pc, w⟩ ⟨.undo .handler (.check .storage), w⟩
  | cancel (w : World) : Move ⟨.begin, w⟩ ⟨.undo .rollback (.check .storage), w⟩
  | begin (w : World) : Move ⟨.begin, w⟩ ⟨.transaction, { w with transaction := .pending }⟩
  -- The server ends the transaction at any time.
  | commit (w : World) (pc : Pc) (h : w.transaction = .pending) : Move ⟨pc, w⟩ ⟨pc, w.commit⟩
  | abort (w : World) (pc : Pc) (h : w.transaction = .pending) :
      Move ⟨pc, w⟩ ⟨pc, { w with transaction := .aborted }⟩
  -- The transaction is acknowledged, or the connection is lost.
  | ended (w : World) : Move ⟨.transaction, w⟩ ⟨.readMarker, w⟩
  | writeCommitted (w : World) :
      Move ⟨.writeCommitted, w⟩ ⟨.reported, w.writeJournal .databaseCommitted⟩
  -- `_rollback_with_fd`
  | present (w : World) (caller : Caller) (r : Resource) (h : (w.slot r).previous ≠ none) :
      Move ⟨.undo caller (.check r), w⟩ ⟨.undo caller (.remove r), w⟩
  | absent (w : World) (caller : Caller) (r : Resource) (h : (w.slot r).previous = none) :
      Move ⟨.undo caller (.check r), w⟩ ⟨afterUndo caller r, w⟩
  | breakActive (w : World) (caller : Caller) : Move ⟨.undo caller (.remove .storage), w⟩
      ⟨.undo caller (.remove .storage), w.update .storage Slot.breakActive⟩
  | removeActive (w : World) (caller : Caller) (r : Resource) :
      Move ⟨.undo caller (.remove r), w⟩ ⟨.undo caller (.rename r), w.update r Slot.removeActive⟩
  | bringBack (w : World) (caller : Caller) (r : Resource) :
      Move ⟨.undo caller (.rename r), w⟩ ⟨afterUndo caller r, w.update r Slot.bringBack⟩
  | undoFailed (w : World) (u : Undo) :
      Move ⟨.undo .handler u, w⟩ ⟨.undo .rollback (.check .storage), w⟩
  | clear (w : World) (caller : Caller) :
      Move ⟨.clear caller, w⟩ ⟨afterClear caller, { w with journal := none }⟩
  | clearFailed (w : World) :
      Move ⟨.clear .handler, w⟩ ⟨.undo .rollback (.check .storage), w⟩
  | breakStaged (w : World) (caller : Caller) (r : Resource) :
      Move ⟨.cleanup caller, w⟩ ⟨.cleanup caller, w.update r Slot.breakStaged⟩
  | removeStaged (w : World) (caller : Caller) (r : Resource) :
      Move ⟨.cleanup caller, w⟩ ⟨.cleanup caller, w.update r Slot.removeStaged⟩
  | cleaned (w : World) (caller : Caller) : Move ⟨.cleanup caller, w⟩ ⟨afterCleanup caller, w⟩
  -- The recovery of a committed restore.
  | writeFinalizing (w : World) :
      Move ⟨.writeFinalizing, w⟩ ⟨.clearMarker, w.writeJournal .finalizing⟩
  | clearMarker (w : World) : Move ⟨.clearMarker, w⟩ ⟨.drop .storage, { w with marker := false }⟩
  | breakPrevious (w : World) :
      Move ⟨.drop .storage, w⟩ ⟨.drop .storage, w.update .storage Slot.breakPrevious⟩
  | drop (w : World) (r : Resource) :
      Move ⟨.drop r, w⟩ ⟨afterDrop r, w.update r Slot.removePrevious⟩
  -- An error that is not handled, and a crash, after which PPBase starts again.
  | fail (w : World) (pc : Pc) : Move ⟨pc, w⟩ ⟨.stopped, w⟩
  | crash (w : World) (pc : Pc) : Move ⟨pc, w⟩ ⟨.recover, w⟩

/-- The steps that read the marker. -/
inductive Decision : State → State → Prop
  | committed (w : World) (h : w.marker = true) : Decision ⟨.readMarker, w⟩ ⟨.writeCommitted, w⟩
  | missing (w : World) (h : w.marker = false) :
      Decision ⟨.readMarker, w⟩ ⟨.undo .rollback (.check .storage), w⟩
  | nothing (w : World) (hj : w.journal = none) (h : w.marker = false) :
      Decision ⟨.recover, w⟩ ⟨.recovered, w⟩
  | finish (w : World) (hj : w.journal ≠ none) (h : w.marker = true ∨ w.journal = some .finalizing) :
      Decision ⟨.recover, w⟩ ⟨.writeFinalizing, w⟩
  | undo (w : World) (hj : w.journal ≠ none) (h : w.marker = false)
      (hf : w.journal ≠ some .finalizing) :
      Decision ⟨.recover, w⟩ ⟨.undo .recovery (.check .storage), w⟩

/-- Any order of steps. -/
abbrev Run : State → State → Prop :=
  Relation.ReflTransGen fun s s' => Move s s' ∨ Decision s s'

/-- The marker is read only when the server has ended the transaction. -/
abbrev SettledRun : State → State → Prop :=
  Relation.ReflTransGen fun s s' => Move s s' ∨ Decision s s' ∧ s.world.transaction ≠ .pending

theorem SettledRun.move {s s₁ s₂ : State} (h : SettledRun s s₁) (hm : Move s₁ s₂) :
    SettledRun s s₂ := h.tail (Or.inl hm)

theorem SettledRun.decision {s s₁ s₂ : State} (h : SettledRun s s₁) (hd : Decision s₁ s₂)
    (hs : s₁.world.transaction ≠ .pending) : SettledRun s s₂ := h.tail (Or.inr ⟨hd, hs⟩)

/-- The state in which a restore is prepared. The storage may be missing. -/
structure Prepared (w : World) : Prop where
  database : w.database = .old
  marker : w.marker = false
  transaction : w.transaction = .idle
  journal : w.journal = none
  slot : ∀ r, w.slot r = ⟨some .old, none, some .new⟩ ∨ w.slot r = ⟨none, none, some .new⟩

/-! ## The invariant -/

/-- The entries before the swap, between its two renames, and after it. -/
def Fresh (s : Slot) : Prop := s = ⟨some .old, none, some .new⟩

def Retired (s : Slot) : Prop := s = ⟨none, some .old, some .new⟩

def Swapped (s : Slot) : Prop := s = ⟨some .new, some .old, none⟩

/-- The active entry is the original one, also if there was none. -/
structure Original (s₀ s : Slot) : Prop where
  active : s.active = some .old ∨ s.active = none ∧ s₀.active = none
  previous : s.previous = none

/-- The original entry can be brought back. -/
def Rollable (s₀ s : Slot) : Prop := s.previous = some .old ∨ Original s₀ s

/-- The active entry is the restored one. -/
def Current (s : Slot) : Prop := s.active = some .new

/-- Nothing has been committed, and the original files can be brought back. -/
structure Uncommitted (w₀ w : World) : Prop where
  database : w.database = .old
  marker : w.marker = false
  transaction : w.transaction ≠ .committed
  journal : w.journal = none ∨ w.journal = some .swapStarted ∨ w.journal = some .filesSwapped
  slot : ∀ r, Rollable (w₀.slot r) (w.slot r)

/-- The transaction has committed, and the restored files are active. -/
structure Committed (w : World) : Prop where
  database : w.database = .new
  transaction : w.transaction = .committed
  slot : ∀ r, Current (w.slot r)

/-- The transaction has ended without a commit, or not begun. -/
structure Undoable (w₀ w : World) : Prop extends Uncommitted w₀ w where
  settled : w.transaction ≠ .pending
  untouched : w.journal = none → ∀ r, Original (w₀.slot r) (w.slot r)

/-- What holds of the durable state at every moment. -/
inductive Durable (w₀ w : World) : Prop
  | pending (h : Uncommitted w₀ w) (hjournal : w.journal = some .filesSwapped)
      (hslot : ∀ r, Swapped (w.slot r))
  | undoable (h : Undoable w₀ w)
  | committed (h : Committed w) (hjournal : w.journal ≠ none)
      (hmarker : w.marker = true ∨ w.journal = some .finalizing)
  | finished (h : Committed w) (hjournal : w.journal = none) (hmarker : w.marker = false)
      (hslot : ∀ r, (w.slot r).previous = none)

/-- The database and the files are from the same side, and nothing is left to do. -/
inductive Consistent (w₀ w : World) : Prop
  | old (h : Undoable w₀ w) (hjournal : w.journal = none)
  | new (h : Committed w) (hjournal : w.journal = none) (hmarker : w.marker = false)
      (hslot : ∀ r, (w.slot r).previous = none)

/-- What holds where the process is. -/
def At (w₀ : World) (pc : Pc) (w : World) : Prop :=
  match pc with
  | .mkdir => Uncommitted w₀ w ∧ w.transaction = .idle ∧ w.journal = none ∧ w.slot = w₀.slot
  | .checkSecret => Uncommitted w₀ w ∧ w.transaction = .idle ∧ w.journal = none ∧
      Fresh (w.slot .storage) ∧ w.slot .secret = w₀.slot .secret
  | .writeStarted => Uncommitted w₀ w ∧ w.transaction = .idle ∧ w.journal = none ∧
      Fresh (w.slot .storage) ∧ Fresh (w.slot .secret)
  | .retire .storage => Uncommitted w₀ w ∧ w.transaction = .idle ∧ w.journal ≠ none ∧
      Fresh (w.slot .storage) ∧ Fresh (w.slot .secret)
  | .install .storage => Uncommitted w₀ w ∧ w.transaction = .idle ∧ w.journal ≠ none ∧
      Retired (w.slot .storage) ∧ Fresh (w.slot .secret)
  | .retire .secret => Uncommitted w₀ w ∧ w.transaction = .idle ∧ w.journal ≠ none ∧
      Swapped (w.slot .storage) ∧ Fresh (w.slot .secret)
  | .install .secret => Uncommitted w₀ w ∧ w.transaction = .idle ∧ w.journal ≠ none ∧
      Swapped (w.slot .storage) ∧ Retired (w.slot .secret)
  | .writeSwapped => Uncommitted w₀ w ∧ w.transaction = .idle ∧ w.journal ≠ none ∧
      ∀ r, Swapped (w.slot r)
  | .begin => Uncommitted w₀ w ∧ w.transaction = .idle ∧ w.journal = some .filesSwapped ∧
      ∀ r, Swapped (w.slot r)
  | .transaction | .readMarker => w.journal = some .filesSwapped ∧ (∀ r, Swapped (w.slot r)) ∧
      (Uncommitted w₀ w ∨ Committed w ∧ w.marker = true)
  | .writeCommitted | .reported => Committed w ∧ w.marker = true ∧ w.journal ≠ none
  | .undo caller u => caller ≠ .finalize ∧ Undoable w₀ w ∧
      match u with
      | .check .storage => True
      | .remove .storage => (w.slot .storage).previous = some .old
      | .rename .storage => (w.slot .storage).previous = some .old
      | .check .secret => Original (w₀.slot .storage) (w.slot .storage)
      | .remove .secret => Original (w₀.slot .storage) (w.slot .storage) ∧
          (w.slot .secret).previous = some .old
      | .rename .secret => Original (w₀.slot .storage) (w.slot .storage) ∧
          (w.slot .secret).previous = some .old
  | .clear .finalize | .cleanup .finalize => Committed w ∧ w.marker = false ∧
      w.journal = some .finalizing ∧ ∀ r, (w.slot r).previous = none
  | .clear _ | .cleanup _ => Undoable w₀ w ∧ ∀ r, Original (w₀.slot r) (w.slot r)
  | .stopped | .recover => Durable w₀ w
  | .writeFinalizing => Committed w ∧ w.journal ≠ none ∧
      (w.marker = true ∨ w.journal = some .finalizing)
  | .clearMarker => Committed w ∧ w.journal = some .finalizing
  | .drop .storage => Committed w ∧ w.marker = false ∧ w.journal = some .finalizing
  | .drop .secret => Committed w ∧ w.marker = false ∧ w.journal = some .finalizing ∧
      (w.slot .storage).previous = none
  | .recovered => Consistent w₀ w

section

variable {w₀ w : World} {pc : Pc}

@[simp] theorem slot_update_self (r : Resource) (f : Slot → Slot) :
    (w.update r f).slot r = f (w.slot r) := Function.update_self ..

@[simp] theorem slot_update_secret (f : Slot → Slot) :
    (w.update .storage f).slot .secret = w.slot .secret := rfl

@[simp] theorem slot_update_storage (f : Slot → Slot) :
    (w.update .secret f).slot .storage = w.slot .storage := rfl

theorem forall_resource {p : Resource → Prop} : (∀ r, p r) ↔ p .storage ∧ p .secret :=
  ⟨fun h => ⟨h _, h _⟩, fun h r => by cases r with | storage => exact h.1 | secret => exact h.2⟩

theorem Prepared.original (h : Prepared w₀) (r : Resource) : Original (w₀.slot r) (w₀.slot r) := by
  rcases h.slot r with hr | hr
  · rw [hr]
    exact ⟨Or.inl rfl, rfl⟩
  · rw [hr]
    exact ⟨Or.inr ⟨rfl, rfl⟩, rfl⟩

variable {s : Slot} {f : Slot → Slot}

theorem Fresh.original {s₀ : Slot} (h : Fresh s) : Original s₀ s := by
  rw [h]
  exact ⟨Or.inl rfl, rfl⟩

theorem Retired.rollable {s₀ : Slot} (h : Retired s) : Rollable s₀ s := by
  rw [h]
  exact Or.inl rfl

theorem Swapped.rollable {s₀ : Slot} (h : Swapped s) : Rollable s₀ s := by
  rw [h]
  exact Or.inl rfl

theorem Swapped.current (h : Swapped s) : Current s := by
  rw [h]
  rfl

/-- Renames of a resource keep the rest. -/
theorem Uncommitted.update (h : Uncommitted w₀ w) {r : Resource}
    (hf : Rollable (w₀.slot r) (f (w.slot r))) : Uncommitted w₀ (w.update r f) := by
  refine ⟨h.database, h.marker, h.transaction, h.journal, ?_⟩
  intro r'
  by_cases hr : r' = r
  · subst hr
    rw [slot_update_self]
    exact hf
  · show Rollable _ (Function.update w.slot r (f (w.slot r)) r')
    rw [Function.update_of_ne hr]
    exact h.slot r'

theorem Committed.update (h : Committed w) {r : Resource}
    (hf : (f (w.slot r)).active = (w.slot r).active) : Committed (w.update r f) := by
  refine ⟨h.database, h.transaction, ?_⟩
  intro r'
  by_cases hr : r' = r
  · subst hr
    unfold Current
    rw [slot_update_self, hf]
    exact h.slot r'
  · show Current (Function.update w.slot r (f (w.slot r)) r')
    rw [Function.update_of_ne hr]
    exact h.slot r'

/-- The durable state is in order wherever the process is. -/
theorem durable_of_at (hw₀ : Prepared w₀) (h : At w₀ pc w) : Durable w₀ w := by
  have hidle (hu : Uncommitted w₀ w) (hi : w.transaction = .idle)
      (hslot : w.journal = none → ∀ r, Original (w₀.slot r) (w.slot r)) : Durable w₀ w :=
    .undoable ⟨hu, by rw [hi]; decide, hslot⟩
  cases pc with
  | mkdir =>
    obtain ⟨hu, hi, -, hslot⟩ := h
    exact hidle hu hi fun _ r => by rw [hslot]; exact hw₀.original r
  | checkSecret =>
    obtain ⟨hu, hi, -, hstorage, hsecret⟩ := h
    refine hidle hu hi fun _ => forall_resource.2 ⟨hstorage.original, ?_⟩
    rw [hsecret]
    exact hw₀.original .secret
  | writeStarted =>
    obtain ⟨hu, hi, -, hstorage, hsecret⟩ := h
    exact hidle hu hi fun _ => forall_resource.2 ⟨hstorage.original, hsecret.original⟩
  | retire r | install r => cases r <;> exact hidle h.1 h.2.1 fun hj => absurd hj h.2.2.1
  | writeSwapped => exact hidle h.1 h.2.1 fun hj => absurd hj h.2.2.1
  | begin => exact .pending h.1 h.2.2.1 h.2.2.2
  | transaction | readMarker =>
    obtain ⟨hj, hslot, hu | ⟨hc, hm⟩⟩ := h
    · exact .pending hu hj hslot
    · exact .committed hc (by rw [hj]; decide) (Or.inl hm)
  | writeCommitted | reported => exact .committed h.1 h.2.2 (Or.inl h.2.1)
  | undo caller u => exact .undoable h.2.1
  | clear caller | cleanup caller =>
    cases caller with
    | finalize => exact .committed h.1 (by rw [h.2.2.1]; decide) (Or.inr h.2.2.1)
    | handler | rollback | recovery => exact .undoable h.1
  | stopped | recover => exact h
  | writeFinalizing => exact .committed h.1 h.2.1 h.2.2
  | clearMarker => exact .committed h.1 (by rw [h.2]; decide) (Or.inr h.2)
  | drop r =>
    cases r with
    | storage => exact .committed h.1 (by rw [h.2.2]; decide) (Or.inr h.2.2)
    | secret => exact .committed h.1 (by rw [h.2.2.1]; decide) (Or.inr h.2.2.1)
  | recovered =>
    cases h with
    | old hu _ => exact .undoable hu
    | new hc hj hm hslot => exact .finished hc hj hm hslot

/-- A transaction is pending only while the process waits for it, or is gone. -/
theorem pc_of_pending (h : At w₀ pc w) (hp : w.transaction = .pending) :
    pc = .transaction ∨ pc = .readMarker ∨ pc = .stopped ∨ pc = .recover := by
  have hidle : w.transaction ≠ .idle := by rw [hp]; decide
  have hcommitted : w.transaction ≠ .committed := by rw [hp]; decide
  cases pc with
  | transaction => exact Or.inl rfl
  | readMarker => exact Or.inr (Or.inl rfl)
  | stopped => exact Or.inr (Or.inr (Or.inl rfl))
  | recover => exact Or.inr (Or.inr (Or.inr rfl))
  | mkdir | checkSecret | writeStarted | writeSwapped | begin => exact absurd h.2.1 hidle
  | retire r | install r => cases r <;> exact absurd h.2.1 hidle
  | writeCommitted | reported | writeFinalizing | clearMarker => exact absurd h.1.transaction hcommitted
  | undo caller u => exact absurd hp h.2.1.settled
  | clear caller | cleanup caller =>
    cases caller with
    | finalize => exact absurd h.1.transaction hcommitted
    | handler | rollback | recovery => exact absurd hp h.1.settled
  | drop r => cases r <;> exact absurd h.1.transaction hcommitted
  | recovered =>
    cases h with
    | old hu _ => exact absurd hp hu.settled
    | new hc _ _ _ => exact absurd hc.transaction hcommitted

theorem committed_commit (hslot : ∀ r, Swapped (w.slot r)) : Committed w.commit :=
  ⟨rfl, rfl, fun r => (hslot r).current⟩

theorem durable_commit (h : Durable w₀ w) (hp : w.transaction = .pending) :
    Durable w₀ w.commit := by
  cases h with
  | pending _ hj hslot =>
    exact .committed (committed_commit hslot) (by rw [show w.commit.journal = _ from hj]; decide)
      (Or.inl rfl)
  | undoable hu => exact absurd hp hu.settled
  | committed hc _ _ => exact absurd (hp.symm.trans hc.transaction) (by decide)
  | finished hc _ _ _ => exact absurd (hp.symm.trans hc.transaction) (by decide)

/-- The server may commit. -/
theorem at_commit (h : At w₀ pc w) (hp : w.transaction = .pending) : At w₀ pc w.commit := by
  rcases pc_of_pending h hp with rfl | rfl | rfl | rfl
  · exact ⟨h.1, h.2.1, Or.inr ⟨committed_commit h.2.1, rfl⟩⟩
  · exact ⟨h.1, h.2.1, Or.inr ⟨committed_commit h.2.1, rfl⟩⟩
  · exact durable_commit h hp
  · exact durable_commit h hp

theorem Uncommitted.abort (h : Uncommitted w₀ w) :
    Uncommitted w₀ { w with transaction := .aborted } :=
  ⟨h.database, h.marker, nofun, h.journal, h.slot⟩

theorem durable_abort (h : Durable w₀ w) (hp : w.transaction = .pending) :
    Durable w₀ { w with transaction := .aborted } := by
  cases h with
  | pending hu hj _ =>
    refine .undoable ⟨hu.abort, nofun, fun hnone => ?_⟩
    rw [show w.journal = none from hnone] at hj
    cases hj
  | undoable hu => exact absurd hp hu.settled
  | committed hc _ _ => exact absurd (hp.symm.trans hc.transaction) (by decide)
  | finished hc _ _ _ => exact absurd (hp.symm.trans hc.transaction) (by decide)

/-- Or abort. -/
theorem at_abort (h : At w₀ pc w) (hp : w.transaction = .pending) :
    At w₀ pc { w with transaction := .aborted } := by
  have hwait (h : Uncommitted w₀ w ∨ Committed w ∧ w.marker = true) :
      Uncommitted w₀ { w with transaction := .aborted } := by
    rcases h with hu | ⟨hc, -⟩
    · exact hu.abort
    · exact absurd (hp.symm.trans hc.transaction) (by decide)
  rcases pc_of_pending h hp with rfl | rfl | rfl | rfl
  · exact ⟨h.1, h.2.1, Or.inl (hwait h.2.2)⟩
  · exact ⟨h.1, h.2.1, Or.inl (hwait h.2.2)⟩
  · exact durable_abort h hp
  · exact durable_abort h hp

/-! ## The steps of the process -/

variable {caller : Caller} {r : Resource}

/-- The entries of other resources do not matter to a rename, and without a journal there is
none. -/
theorem Undoable.update (h : Undoable w₀ w) (hprev : (w.slot r).previous = some .old)
    (hf : Rollable (w₀.slot r) (f (w.slot r))) : Undoable w₀ (w.update r f) := by
  refine ⟨h.toUncommitted.update hf, h.settled, fun hj => ?_⟩
  have horig := (h.untouched hj r).previous
  rw [hprev] at horig
  cases horig

/-- After the rollback of a resource its entries are the original ones. -/
theorem at_afterUndo (hcaller : caller ≠ .finalize) (hu : Undoable w₀ w)
    (hr : Original (w₀.slot r) (w.slot r))
    (hstorage : Original (w₀.slot .storage) (w.slot .storage)) : At w₀ (afterUndo caller r) w := by
  cases r with
  | storage => exact ⟨hcaller, hu, hr⟩
  | secret =>
    have hall : ∀ r, Original (w₀.slot r) (w.slot r) := forall_resource.2 ⟨hstorage, hr⟩
    cases caller with
    | finalize => exact absurd rfl hcaller
    | handler | rollback | recovery => exact ⟨hu, hall⟩

/-- The point of the rollback where the `-before-` copy of a resource is known to be there. -/
theorem at_remove_iff : At w₀ (.undo caller (.remove r)) w ↔ caller ≠ .finalize ∧ Undoable w₀ w ∧
    (w.slot r).previous = some .old ∧ (r = .secret → Original (w₀.slot .storage) (w.slot .storage)) := by
  cases r with
  | storage =>
    refine and_congr_right fun _ => and_congr_right fun _ => ?_
    exact ⟨fun h => ⟨h, nofun⟩, And.left⟩
  | secret =>
    refine and_congr_right fun _ => and_congr_right fun _ => ?_
    exact ⟨fun h => ⟨h.2, fun _ => h.1⟩, fun h => ⟨h.2 rfl, h.1⟩⟩

theorem at_rename_iff : At w₀ (.undo caller (.rename r)) w ↔
    At w₀ (.undo caller (.remove r)) w := by
  cases r with
  | storage => exact Iff.rfl
  | secret => exact Iff.rfl

theorem at_check_secret (h : At w₀ (.undo caller (.check r)) w) :
    r = .secret → Original (w₀.slot .storage) (w.slot .storage) := by
  rintro rfl
  exact h.2.2

/-- Removing the active entry keeps the rollback possible. -/
theorem at_remove_update (h : At w₀ (.undo caller (.remove r)) w)
    (hf : ∀ s, (f s).previous = s.previous) : At w₀ (.undo caller (.remove r)) (w.update r f) := by
  obtain ⟨hcaller, hu, hprev, hstorage⟩ := at_remove_iff.1 h
  have hprev' : ((w.update r f).slot r).previous = some .old := by
    rw [slot_update_self, hf, hprev]
  refine at_remove_iff.2 ⟨hcaller, hu.update hprev (Or.inl ?_), hprev', ?_⟩
  · rw [hf, hprev]
  · rintro rfl
    exact hstorage rfl

/-- Bringing the original entry back. -/
theorem at_bringBack (h : At w₀ (.undo caller (.rename r)) w) :
    At w₀ (afterUndo caller r) (w.update r Slot.bringBack) := by
  obtain ⟨hcaller, hu, hprev, hstorage⟩ := at_remove_iff.1 (at_rename_iff.1 h)
  have horig : Original (w₀.slot r) ((w.slot r).bringBack) := ⟨Or.inl hprev, rfl⟩
  have hr : Original (w₀.slot r) ((w.update r Slot.bringBack).slot r) := by
    rw [slot_update_self]
    exact horig
  refine at_afterUndo hcaller (hu.update hprev (Or.inr horig)) hr ?_
  cases r with
  | storage => exact hr
  | secret => exact hstorage rfl

/-- The rollback looks for a `-before-` copy. -/
theorem at_check (h : At w₀ (.undo caller (.check r)) w) :
    ((w.slot r).previous ≠ none → At w₀ (.undo caller (.remove r)) w) ∧
      ((w.slot r).previous = none → At w₀ (afterUndo caller r) w) := by
  have hstorage := at_check_secret h
  obtain ⟨hcaller, hu, -⟩ := h
  refine ⟨fun hne => ?_, fun hnone => ?_⟩
  · rcases hu.slot r with hprev | horig
    · exact at_remove_iff.2 ⟨hcaller, hu, hprev, hstorage⟩
    · exact absurd horig.previous hne
  · have horig : Original (w₀.slot r) (w.slot r) := by
      rcases hu.slot r with hprev | horig
      · rw [hnone] at hprev
        cases hprev
      · exact horig
    refine at_afterUndo hcaller hu horig ?_
    cases r with
    | storage => exact horig
    | secret => exact hstorage rfl

/-- The swap may be undone at every step. -/
theorem undoable_of_swaps (hw₀ : Prepared w₀) (h : At w₀ pc w) (hpc : pc.swaps = true) :
    Undoable w₀ w := by
  have hidle : w.transaction = .idle := by
    cases pc with
    | mkdir | checkSecret | writeStarted | writeSwapped | begin => exact h.2.1
    | retire r | install r => cases r <;> exact h.2.1
    | _ => cases hpc
  cases durable_of_at hw₀ h with
  | undoable hu => exact hu
  | pending hu hj _ =>
    refine ⟨hu, by rw [hidle]; decide, fun hnone => ?_⟩
    rw [hnone] at hj
    cases hj
  | committed hc _ _ => exact absurd (hidle.symm.trans hc.transaction) (by decide)
  | finished hc _ _ _ => exact absurd (hidle.symm.trans hc.transaction) (by decide)

/-- The work directory has no part in the invariant. -/
theorem at_cleanup_update (h : At w₀ (.cleanup caller) w) (ha : ∀ s, (f s).active = s.active)
    (hp : ∀ s, (f s).previous = s.previous) : At w₀ (.cleanup caller) (w.update r f) := by
  have hslot : ∀ r', ((w.update r f).slot r').active = (w.slot r').active ∧
      ((w.update r f).slot r').previous = (w.slot r').previous := by
    intro r'
    by_cases hr : r' = r
    · subst hr
      rw [slot_update_self]
      exact ⟨ha _, hp _⟩
    · have hsame : (w.update r f).slot r' = w.slot r' := Function.update_of_ne hr ..
      rw [hsame]
      exact ⟨rfl, rfl⟩
  have hundone (hu : Undoable w₀ w) (horig : ∀ r, Original (w₀.slot r) (w.slot r)) :
      Undoable w₀ (w.update r f) ∧ ∀ r', Original (w₀.slot r') ((w.update r f).slot r') := by
    have horig' : ∀ r', Original (w₀.slot r') ((w.update r f).slot r') := by
      intro r'
      obtain ⟨hact, hprev⟩ := hslot r'
      exact ⟨by rw [hact]; exact (horig r').active, by rw [hprev]; exact (horig r').previous⟩
    refine ⟨⟨⟨hu.database, hu.marker, hu.transaction, hu.journal, ?_⟩, hu.settled, ?_⟩, horig'⟩
    · exact fun r' => Or.inr (horig' r')
    · exact fun _ => horig'
  cases caller with
  | handler | rollback | recovery => exact hundone h.1 h.2
  | finalize =>
    obtain ⟨hc, hm, hj, hnone⟩ := h
    exact ⟨hc.update (ha _), hm, hj, fun r' => by rw [(hslot r').2, hnone r']⟩

theorem Fresh.retire (h : Fresh s) : Retired s.retire := by
  rw [h]
  rfl

theorem Retired.install (h : Retired s) : Swapped s.install := by
  rw [h]
  rfl

theorem at_mkdir (hw₀ : Prepared w₀) (h : At w₀ .mkdir w) : At w₀ .checkSecret
    (w.update .storage fun s => { s with active := s.active.or (some .old) }) := by
  obtain ⟨hu, hi, hj, hslot⟩ := h
  have hfresh : Fresh { w.slot .storage with
      active := (w.slot .storage).active.or (some .old) } := by
    rw [hslot]
    rcases hw₀.slot .storage with hs | hs <;> rw [hs] <;> rfl
  exact ⟨hu.update (Or.inr hfresh.original), hi, hj, hfresh, congrFun hslot .secret⟩

theorem at_checkSecret (hw₀ : Prepared w₀) (h : At w₀ .checkSecret w)
    (hactive : (w.slot .secret).active ≠ none) : At w₀ .writeStarted w := by
  obtain ⟨hu, hi, hj, hstorage, hsecret⟩ := h
  refine ⟨hu, hi, hj, hstorage, ?_⟩
  rcases hw₀.slot .secret with hs | hs
  · exact hsecret.trans hs
  · rw [hsecret, hs] at hactive
    exact absurd rfl hactive

theorem at_retire (h : At w₀ (.retire r) w) : At w₀ (.install r) (w.update r Slot.retire) := by
  cases r with
  | storage =>
    obtain ⟨hu, hi, hj, hstorage, hsecret⟩ := h
    exact ⟨hu.update hstorage.retire.rollable, hi, hj, hstorage.retire, hsecret⟩
  | secret =>
    obtain ⟨hu, hi, hj, hstorage, hsecret⟩ := h
    exact ⟨hu.update hsecret.retire.rollable, hi, hj, hstorage, hsecret.retire⟩

theorem at_install (h : At w₀ (.install r) w) : At w₀ (afterInstall r) (w.update r Slot.install) := by
  cases r with
  | storage =>
    obtain ⟨hu, hi, hj, hstorage, hsecret⟩ := h
    exact ⟨hu.update hstorage.install.rollable, hi, hj, hstorage.install, hsecret⟩
  | secret =>
    obtain ⟨hu, hi, hj, hstorage, hsecret⟩ := h
    exact ⟨hu.update hsecret.install.rollable, hi, hj,
      forall_resource.2 ⟨hstorage, hsecret.install⟩⟩

theorem Uncommitted.writeJournal (h : Uncommitted w₀ w) {status : Status}
    (hs : status = .swapStarted ∨ status = .filesSwapped) :
    Uncommitted w₀ (w.writeJournal status) :=
  ⟨h.database, h.marker, h.transaction, Or.inr (hs.imp (congrArg some) (congrArg some)), h.slot⟩

theorem at_clear (h : At w₀ (.clear caller) w) : At w₀ (afterClear caller) { w with journal := none } := by
  have hundone (hu : Undoable w₀ w) (horig : ∀ r, Original (w₀.slot r) (w.slot r)) :
      Undoable w₀ { w with journal := none } :=
    ⟨⟨hu.database, hu.marker, hu.transaction, Or.inl rfl, hu.slot⟩, hu.settled, fun _ => horig⟩
  cases caller with
  | handler => exact ⟨nofun, hundone h.1 h.2, trivial⟩
  | rollback => exact ⟨hundone h.1 h.2, h.2⟩
  | recovery => exact .old (hundone h.1 h.2) rfl
  | finalize => exact .new ⟨h.1.database, h.1.transaction, h.1.slot⟩ rfl h.2.1 h.2.2.2

theorem at_afterCleanup (hw₀ : Prepared w₀) (h : At w₀ (.cleanup caller) w) :
    At w₀ (afterCleanup caller) w := by
  cases caller with
  | handler | rollback => exact durable_of_at hw₀ h
  | recovery => exact h
  | finalize => exact h

theorem at_drop (h : At w₀ (.drop r) w) : At w₀ (afterDrop r) (w.update r Slot.removePrevious) := by
  cases r with
  | storage => exact ⟨h.1.update rfl, h.2.1, h.2.2, rfl⟩
  | secret => exact ⟨h.1.update rfl, h.2.1, h.2.2.1, forall_resource.2 ⟨h.2.2.2, rfl⟩⟩

/-- Every step of the process or the server keeps the invariant. -/
theorem at_move (hw₀ : Prepared w₀) {s s' : State} (hmove : Move s s') (h : At w₀ s.pc s.world) :
    At w₀ s'.pc s'.world := by
  cases hmove with
  | mkdir w => exact at_mkdir hw₀ h
  | checkSecret w hactive => exact at_checkSecret hw₀ h hactive
  | writeStarted w =>
    obtain ⟨hu, hi, -, hslot⟩ := h
    exact ⟨hu.writeJournal (Or.inl rfl), hi, nofun, hslot⟩
  | retire w r => exact at_retire h
  | install w r => exact at_install h
  | writeSwapped w =>
    obtain ⟨hu, hi, -, hslot⟩ := h
    exact ⟨hu.writeJournal (Or.inr rfl), hi, rfl, hslot⟩
  | raise w pc hpc => exact ⟨nofun, undoable_of_swaps hw₀ h hpc, trivial⟩
  | cancel w => exact ⟨nofun, undoable_of_swaps hw₀ (show At w₀ .begin w from h) rfl, trivial⟩
  | begin w =>
    obtain ⟨hu, -, hj, hslot⟩ := h
    exact ⟨hj, hslot, Or.inl ⟨hu.database, hu.marker, nofun, hu.journal, hu.slot⟩⟩
  | commit w pc hp => exact at_commit h hp
  | abort w pc hp => exact at_abort h hp
  | ended w => exact h
  | writeCommitted w =>
    exact ⟨⟨h.1.database, h.1.transaction, h.1.slot⟩, h.2.1, nofun⟩
  | present w caller r hprev => exact (at_check h).1 hprev
  | absent w caller r hprev => exact (at_check h).2 hprev
  | breakActive w caller => exact at_remove_update h fun _ => rfl
  | removeActive w caller r => exact at_rename_iff.2 (at_remove_update h fun _ => rfl)
  | bringBack w caller r => exact at_bringBack h
  | undoFailed w u => exact ⟨nofun, h.2.1, trivial⟩
  | clear w caller => exact at_clear h
  | clearFailed w => exact ⟨nofun, h.1, trivial⟩
  | breakStaged w caller r => exact at_cleanup_update h (fun _ => rfl) fun _ => rfl
  | removeStaged w caller r => exact at_cleanup_update h (fun _ => rfl) fun _ => rfl
  | cleaned w caller => exact at_afterCleanup hw₀ h
  | writeFinalizing w => exact ⟨⟨h.1.database, h.1.transaction, h.1.slot⟩, rfl⟩
  | clearMarker w => exact ⟨⟨h.1.database, h.1.transaction, h.1.slot⟩, rfl, h.2⟩
  | breakPrevious w => exact ⟨h.1.update rfl, h.2⟩
  | drop w r => exact at_drop h
  | fail w pc => exact durable_of_at hw₀ h
  | crash w pc => exact durable_of_at hw₀ h

/-- So does a decision about a transaction that has ended. -/
theorem at_decision {s s' : State} (hd : Decision s s') (h : At w₀ s.pc s.world)
    (hs : s.world.transaction ≠ .pending) : At w₀ s'.pc s'.world := by
  cases hd with
  | committed w hm =>
    obtain ⟨hj, hslot, hu | hc⟩ := h
    · exact absurd (hm.symm.trans hu.marker) (by decide)
    · exact ⟨hc.1, hm, by rw [hj]; nofun⟩
  | missing w hm =>
    obtain ⟨hj, hslot, hu | hc⟩ := h
    · exact ⟨nofun, ⟨hu, hs, fun hnone => by rw [hnone] at hj; cases hj⟩, trivial⟩
    · exact absurd (hm.symm.trans hc.2) (by decide)
  | nothing w hj hm =>
    cases h with
    | pending _ hj' _ => exact absurd (hj.symm.trans hj') nofun
    | undoable hu => exact .old hu hj
    | committed _ hj' _ => exact absurd hj hj'
    | finished hc _ _ hslot => exact .new hc hj hm hslot
  | finish w hj hm =>
    have huncommitted (hu : Uncommitted w₀ w) : False := by
      rcases hm with hm | hm
      · exact absurd (hm.symm.trans hu.marker) (by decide)
      · rcases hu.journal with h' | h' | h' <;> exact absurd (hm.symm.trans h') (by decide)
    cases h with
    | pending hu _ _ => exact (huncommitted hu).elim
    | undoable hu => exact (huncommitted hu.toUncommitted).elim
    | committed hc _ _ => exact ⟨hc, hj, hm⟩
    | finished _ hj' _ _ => exact absurd hj' hj
  | undo w hj hm hf =>
    cases h with
    | pending hu _ _ => exact ⟨nofun, ⟨hu, hs, fun hnone => absurd hnone hj⟩, trivial⟩
    | undoable hu => exact ⟨nofun, hu, trivial⟩
    | committed _ _ hm' =>
      rcases hm' with hm' | hm'
      · exact absurd (hm.symm.trans hm') (by decide)
      · exact absurd hm' hf
    | finished _ hj' _ _ => exact absurd hj' hj

theorem Prepared.at (hw₀ : Prepared w₀) : At w₀ .mkdir w₀ :=
  ⟨⟨hw₀.database, hw₀.marker, by rw [hw₀.transaction]; decide, Or.inl hw₀.journal,
    fun r => Or.inr (hw₀.original r)⟩, hw₀.transaction, hw₀.journal, rfl⟩

/-- The invariant holds in every run whose decisions are about a transaction that has ended. -/
theorem at_run (hw₀ : Prepared w₀) {s : State} (h : SettledRun ⟨.mkdir, w₀⟩ s) :
    At w₀ s.pc s.world := by
  induction h with
  | refl => exact hw₀.at
  | tail _ hstep ih =>
    rcases hstep with hmove | ⟨hd, hs⟩
    · exact at_move hw₀ hmove ih
    · exact at_decision hd ih hs

/-! ## Crash consistency -/

/-- Nothing of the restore is left, and the database, the storage and the secret are the old ones,
or the new ones if the transaction has committed. -/
structure Outcome (w₀ w : World) : Prop where
  sides : (w.transaction ≠ .committed ∧ w.database = .old ∧
      ∀ r, (w.slot r).active = some .old ∨ (w.slot r).active = none ∧ (w₀.slot r).active = none) ∨
    (w.transaction = .committed ∧ w.database = .new ∧ ∀ r, (w.slot r).active = some .new)
  journal : w.journal = none
  marker : w.marker = false
  previous : ∀ r, (w.slot r).previous = none

/-- An undamaged copy is somewhere in the data directory. -/
def Slot.Holds (s : Slot) (c : Copy) : Prop :=
  s.active = some c ∨ s.previous = some c ∨ s.staged = some c

theorem Consistent.outcome (h : Consistent w₀ w) : Outcome w₀ w := by
  cases h with
  | old hu hj =>
    have horig := hu.untouched hj
    exact ⟨Or.inl ⟨hu.transaction, hu.database, fun r => (horig r).active⟩, hj, hu.marker,
      fun r => (horig r).previous⟩
  | new hc hj hm hslot => exact ⟨Or.inr ⟨hc.transaction, hc.database, hc.slot⟩, hj, hm, hslot⟩

/-- A copy is left, unless there was none from the start. -/
theorem Durable.holds (h : Durable w₀ w) (r : Resource) (hr : (w₀.slot r).active ≠ none) :
    (w.slot r).Holds .old ∨ (w.slot r).Holds .new := by
  have hrollable (hu : Uncommitted w₀ w) : (w.slot r).Holds .old := by
    rcases hu.slot r with hprev | horig
    · exact Or.inr (Or.inl hprev)
    · rcases horig.active with hold | ⟨-, hnone⟩
      · exact Or.inl hold
      · exact absurd hnone hr
  cases h with
  | pending hu _ _ => exact Or.inl (hrollable hu)
  | undoable hu => exact Or.inl (hrollable hu.toUncommitted)
  | committed hc _ _ => exact Or.inr (Or.inl (hc.slot r))
  | finished hc _ _ _ => exact Or.inr (Or.inl (hc.slot r))

/-- Whenever a recovery has finished the state is on one side of the restore, and at every moment
a copy of each resource is left. -/
theorem crash_consistent (hw₀ : Prepared w₀) {s : State} (h : SettledRun ⟨.mkdir, w₀⟩ s) :
    (s.pc = .recovered → Outcome w₀ s.world) ∧
      ∀ r, (w₀.slot r).active ≠ none → (s.world.slot r).Holds .old ∨ (s.world.slot r).Holds .new := by
  have hat := at_run hw₀ h
  refine ⟨fun hpc => ?_, fun r hr => (durable_of_at hw₀ hat).holds r hr⟩
  rw [hpc] at hat
  exact Consistent.outcome hat

/-- The rollback of a resource runs through. -/
theorem undo_runs (h : At w₀ (.undo caller (.check r)) w) :
    ∃ w', SettledRun ⟨.undo caller (.check r), w⟩ ⟨afterUndo caller r, w'⟩ ∧
      At w₀ (afterUndo caller r) w' := by
  by_cases hprev : (w.slot r).previous = none
  · exact ⟨w, SettledRun.move .refl (.absent _ _ _ hprev), (at_check h).2 hprev⟩
  · have hremove := at_remove_update ((at_check h).1 hprev) (fun s => rfl : ∀ s : Slot,
      s.removeActive.previous = s.previous)
    refine ⟨_, SettledRun.move (SettledRun.move (SettledRun.move .refl (.present _ _ _ hprev))
      (.removeActive _ _ _)) (.bringBack _ _ _), at_bringBack (at_rename_iff.2 hremove)⟩

/-- From every durable state whose transaction has ended a recovery can finish. -/
theorem recovery_runs (h : Durable w₀ w) (hs : w.transaction ≠ .pending) :
    ∃ w', SettledRun ⟨.recover, w⟩ ⟨.recovered, w'⟩ := by
  have hundo (hu : Undoable w₀ w) (hj : w.journal ≠ none) :
      ∃ w', SettledRun ⟨.recover, w⟩ ⟨.recovered, w'⟩ := by
    have hnot : w.journal ≠ some .finalizing := by
      rcases hu.journal with h | h | h <;> rw [h] <;> decide
    have hat : At w₀ (.undo .recovery (.check .storage)) w := ⟨nofun, hu, trivial⟩
    obtain ⟨w₁, hrun₁, hat₁⟩ := undo_runs hat
    obtain ⟨w₂, hrun₂, -⟩ := undo_runs (r := .secret) hat₁
    have hstart := SettledRun.decision .refl (.undo w hj hu.marker hnot) hs
    exact ⟨_, SettledRun.move (SettledRun.move ((hstart.trans hrun₁).trans hrun₂) (.cleaned _ _))
      (.clear _ _)⟩
  cases h with
  | pending hu hj _ =>
    have hne : w.journal ≠ none := by rw [hj]; nofun
    exact hundo ⟨hu, hs, fun hnone => absurd hnone hne⟩ hne
  | undoable hu =>
    by_cases hj : w.journal = none
    · exact ⟨w, SettledRun.decision .refl (.nothing w hj hu.marker) hs⟩
    · exact hundo hu hj
  | committed _ hj hm =>
    have h₁ := SettledRun.decision .refl (.finish w hj hm) hs
    have h₂ := SettledRun.move (SettledRun.move h₁ (.writeFinalizing _)) (.clearMarker _)
    have h₃ := SettledRun.move (SettledRun.move h₂ (.drop _ .storage)) (.drop _ .secret)
    exact ⟨_, SettledRun.move (SettledRun.move h₃ (.cleaned _ _)) (.clear _ _)⟩
  | finished _ hj hm _ => exact ⟨w, SettledRun.decision .refl (.nothing w hj hm) hs⟩

/-- A restore is prepared. -/
def preparedWorld : World where
  database := .old
  marker := false
  transaction := .idle
  journal := none
  slot _ := ⟨some .old, none, some .new⟩

theorem prepared_preparedWorld : Prepared preparedWorld :=
  ⟨rfl, rfl, rfl, rfl, fun _ => Or.inl rfl⟩

/-- PPBase crashes after the old storage has been renamed, and starts again. -/
theorem crashed_swap_recovers : ∃ w w', SettledRun ⟨.mkdir, preparedWorld⟩ ⟨.recover, w⟩ ∧
    SettledRun ⟨.recover, w⟩ ⟨.recovered, w'⟩ := by
  have h₁ := SettledRun.move .refl (.mkdir preparedWorld)
  have h₂ := SettledRun.move h₁ (.checkSecret _ nofun)
  have h₃ := SettledRun.move (SettledRun.move h₂ (.writeStarted _)) (.retire _ _)
  have hcrash := SettledRun.move h₃ (.crash _ _)
  obtain ⟨w', h⟩ := recovery_runs (at_run prepared_preparedWorld hcrash) nofun
  exact ⟨_, w', hcrash, h⟩

/-- The old storage has been renamed when PPBase crashes; the recovery brings it back. -/
theorem crashed_swap_recovered :
    ∃ s, SettledRun ⟨.mkdir, preparedWorld⟩ s ∧ s.pc = .recovered ∧ Outcome preparedWorld s.world := by
  have h₁ := SettledRun.move .refl (.mkdir preparedWorld)
  have h₂ := SettledRun.move h₁ (.checkSecret _ nofun)
  have h₃ := SettledRun.move (SettledRun.move h₂ (.writeStarted _)) (.retire _ _)
  have h₄ := SettledRun.decision (SettledRun.move h₃ (.crash _ _)) (.undo _ nofun rfl nofun) nofun
  have h₅ := SettledRun.move (SettledRun.move h₄ (.present _ _ _ nofun)) (.removeActive _ _ _)
  have h₆ := SettledRun.move (SettledRun.move h₅ (.bringBack _ _ _)) (.absent _ _ _ rfl)
  have hdone := SettledRun.move (SettledRun.move h₆ (.cleaned _ _)) (.clear _ _)
  exact ⟨_, hdone, rfl, (crash_consistent prepared_preparedWorld hdone).1 rfl⟩

end

end Restore

end PPBase
