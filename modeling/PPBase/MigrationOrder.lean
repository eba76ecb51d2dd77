import Mathlib.Data.Char
import Mathlib.Data.List.Nodup
import Mathlib.Data.List.Sort
import PPBase.MigrationRuns
import PPBase.RangeServing

/-!
# The order of reverts

Batches apply the files of a directory by the number they begin with, and then by name
(`listMigrationFiles`), while a revert takes the rows by their time, and then by name in the
collation of the database. `reverts_latest_iff` : after any batches a revert takes back what was
applied last, in the reverse order, exactly if each row came at a later time than those before it,
or at the same time with a later name. `tie_reverted_first` : of two files that were applied at one
time, `10_b.py` after `9_a.py`, a revert takes back the first.
-/

namespace PPBase

namespace MigrationOrder

open MigrationRuns RangeServing

/-! ## Batches -/

/-- `int(match.group(1)) if match else 0`, for the digits that a name begins with -/
def timestamp (name : Text) : ℕ :=
  ((name.takeWhile fun c => (decimal? c).isSome).filterMap decimal?).foldl (10 * · + ·) 0

/-- `path.suffix == ".py" and path.name[0].isdigit() and path.name != "__init__.py"` -/
def isMigrationFile (name : Text) : Bool :=
  decide ((".py" : Text) <:+ name) && (name.head?.any fun c => isdigit [c]) &&
    name ≠ ("__init__.py" : Text)

/-- `_migration_sort_key(a) <= _migration_sort_key(b)` -/
def keyLe (a b : Text) : Prop := timestamp a < timestamp b ∨ timestamp a = timestamp b ∧ a ≤ b

instance : DecidableRel keyLe := fun _ _ => inferInstanceAs (Decidable (_ ∨ _))

/-- `_list_migration_files`, for the files of a directory. -/
def listMigrationFiles (directory : List Text) : List Text :=
  (directory.filter isMigrationFile).insertionSort keyLe

/-- A call of `apply_pending_on_connection` : the files it finds, the time at which it would apply
each, and how many it applies before one raises. -/
structure Batch where
  directory : List Text
  nodup : directory.Nodup
  now : Text → ℕ
  succeeded : ℕ

def Batch.pending (b : Batch) (db : Database) : List Text :=
  (getPendingMigrations db (listMigrationFiles b.directory)).take b.succeeded

/-- `apply_pending_on_connection` -/
def applyPendingOnConnection (db : Database) (b : Batch) : Database :=
  (b.pending db).foldl (fun db file => db.commit .up file (b.now file)) db

/-- Batches on an empty database. -/
def applyBatches (batches : List Batch) : Database := batches.foldl applyPendingOnConnection {}

/-! ## Reverts -/

/-- The order of texts in a database. -/
structure Collation where
  le : Text → Text → Bool
  trans : ∀ a b c, le a b = true → le b c = true → le a c = true
  total : ∀ a b, (le a b || le b a) = true
  antisymm : ∀ a b, le a b = true → le b a = true → a = b

/-- The collation `C`. -/
def Collation.codePoints : Collation where
  le a b := decide (@LE.le Text List.instLE a b)
  trans _ _ _ hab hbc :=
    decide_eq_true (List.le_trans (of_decide_eq_true hab) (of_decide_eq_true hbc))
  total a b := by
    rw [Bool.or_eq_true, decide_eq_true_iff, decide_eq_true_iff]
    exact List.le_total a b
  antisymm _ _ hab hba := List.le_antisymm (of_decide_eq_true hab) (of_decide_eq_true hba)

variable (C : Collation)

/-- `ORDER BY applied DESC, file DESC` -/
def precedes (a b : MigrationRecord) : Bool :=
  decide (b.applied < a.applied) || (decide (a.applied = b.applied) && C.le b.file a.file)

/-- The files that `revert_on_connection` selects. -/
def selectLatest (db : Database) (count : ℕ) : List Text :=
  ((db.history.mergeSort (precedes C)).take count).map MigrationRecord.file

/-- `revert_on_connection`, where no migration raises. -/
def revertOnConnection (db : Database) (count : ℕ) : Database :=
  (selectLatest C db count).foldl (fun db file => db.commit .down file 0) db

/-- A revert takes back what was applied last, in the reverse order. -/
def RevertsLatest (db : Database) : Prop :=
  ∀ count, (revertOnConnection C db count).effects =
    db.effects ++ ((db.effects.map Prod.snd).reverse.take count).map (Direction.down, ·)

/-! ## What was applied -/

/-- The rows are those of the migrations that were applied, in their order. -/
structure Applied (db : Database) : Prop where
  effects : db.effects = db.files.map (Direction.up, ·)
  nodup : db.files.Nodup

variable {db : Database}

theorem Applied.commit (h : Applied db) {file : Text} (hfile : file ∉ db.files) (now : ℕ) :
    Applied (db.commit .up file now) ∧ (db.commit .up file now).files = db.files ++ [file] := by
  have hfiles : (db.commit .up file now).files = db.files ++ [file] := by
    simp [Database.commit, Database.files]
  refine ⟨⟨?_, ?_⟩, hfiles⟩
  · rw [hfiles, List.map_append, ← h.effects]
    rfl
  · rw [hfiles]
    exact h.nodup.append (List.nodup_singleton file) (by simpa using hfile)

theorem Applied.foldl (h : Applied db) (now : Text → ℕ) {files : List Text}
    (hfiles : ∀ f ∈ files, f ∉ db.files) (hnodup : files.Nodup) :
    Applied (files.foldl (fun db file => db.commit .up file (now file)) db) := by
  induction files generalizing db with
  | nil => exact h
  | cons f files ih =>
    obtain ⟨hf, hnodup⟩ := List.nodup_cons.1 hnodup
    obtain ⟨hfile, hfiles⟩ := List.forall_mem_cons.1 hfiles
    obtain ⟨hcommit, hrows⟩ := h.commit hfile (now f)
    refine ih hcommit (fun g hg hmem => ?_) hnodup
    rw [hrows, List.mem_append, List.mem_singleton] at hmem
    rcases hmem with hmem | rfl
    · exact hfiles g hg hmem
    · exact hf hg

theorem nodup_listMigrationFiles {directory : List Text} (h : directory.Nodup) :
    (listMigrationFiles directory).Nodup :=
  (List.perm_insertionSort _ _).nodup_iff.2 (h.filter _)

theorem Applied.batch (h : Applied db) (b : Batch) : Applied (applyPendingOnConnection db b) := by
  refine h.foldl b.now (fun f hf => ?_) ?_
  · have hpending := List.mem_of_mem_take hf
    exact of_decide_eq_true (List.mem_filter.1 hpending).2
  · exact ((nodup_listMigrationFiles b.nodup).filter _).sublist (List.take_sublist _ _)

theorem applied_batches (batches : List Batch) : Applied (applyBatches batches) := by
  have hall : ∀ db, Applied db → Applied (batches.foldl applyPendingOnConnection db) := by
    induction batches with
    | nil => exact fun db h => h
    | cons b batches ih => exact fun db h => ih _ (h.batch b)
  exact hall {} ⟨rfl, List.nodup_nil⟩

/-! ## The order of the rows -/

/-- The rows came in the order of their times, and of their names at one time. -/
def InOrder (rows : List MigrationRecord) : Prop :=
  rows.Pairwise fun a b => a.applied < b.applied ∨ a.applied = b.applied ∧ C.le a.file b.file = true

theorem inOrder_iff (rows : List MigrationRecord) :
    InOrder C rows ↔ rows.reverse.Pairwise fun a b => precedes C a b = true := by
  rw [List.pairwise_reverse]
  refine List.Pairwise.iff fun a b => ?_
  simp only [precedes, Bool.or_eq_true, Bool.and_eq_true, decide_eq_true_iff]
  rw [eq_comm (a := b.applied)]

theorem precedes_trans (a b c : MigrationRecord) (hab : precedes C a b = true)
    (hbc : precedes C b c = true) : precedes C a c = true := by
  simp only [precedes, Bool.or_eq_true, Bool.and_eq_true, decide_eq_true_iff] at *
  rcases hab with hab | ⟨hab, hfile⟩
  · exact .inl (by omega)
  · rcases hbc with hbc | ⟨hbc, hfile'⟩
    · exact .inl (by omega)
    · exact .inr ⟨hab.trans hbc, C.trans _ _ _ hfile' hfile⟩

theorem precedes_total (a b : MigrationRecord) : (precedes C a b || precedes C b a) = true := by
  have htotal := C.total a.file b.file
  simp only [precedes, Bool.or_eq_true, Bool.and_eq_true, decide_eq_true_iff] at *
  rcases lt_trichotomy a.applied b.applied with h | h | h
  · exact .inr (.inl h)
  · rcases htotal with hfile | hfile
    · exact .inr (.inr ⟨h.symm, hfile⟩)
    · exact .inl (.inr ⟨h, hfile⟩)
  · exact .inl (.inl h)

theorem precedes_antisymm (a b : MigrationRecord) (hab : precedes C a b = true)
    (hba : precedes C b a = true) : a = b := by
  simp only [precedes, Bool.or_eq_true, Bool.and_eq_true, decide_eq_true_iff] at hab hba
  have htime : a.applied = b.applied := by omega
  have hfile : a.file = b.file := by
    refine C.antisymm _ _ ?_ ?_
    · rcases hba with h | h
      · omega
      · exact h.2
    · rcases hab with h | h
      · omega
      · exact h.2
  cases a
  cases b
  simp only at htime hfile
  rw [htime, hfile]

/-- Rows in any order, sorted. -/
theorem mergeSort_eq {rows sorted : List MigrationRecord}
    (hs : sorted.Pairwise fun a b => precedes C a b = true) (hperm : sorted.Perm rows) :
    rows.mergeSort (precedes C) = sorted :=
  List.Perm.eq_of_pairwise (fun a b _ _ => precedes_antisymm C a b)
    (List.pairwise_mergeSort (precedes_trans C) (precedes_total C) rows) hs
    ((List.mergeSort_perm rows _).trans hperm.symm)

theorem inOrder_iff_mergeSort (rows : List MigrationRecord) :
    InOrder C rows ↔ rows.mergeSort (precedes C) = rows.reverse := by
  rw [inOrder_iff]
  constructor
  · exact fun h => mergeSort_eq C h (List.reverse_perm rows)
  · intro h
    rw [← h]
    exact List.pairwise_mergeSort (precedes_trans C) (precedes_total C) rows

/-! ## What a revert takes back -/

theorem effects_revert (db : Database) (count : ℕ) : (revertOnConnection C db count).effects =
    db.effects ++ (selectLatest C db count).map (Direction.down, ·) := by
  unfold revertOnConnection
  induction selectLatest C db count generalizing db with
  | nil => exact (List.append_nil _).symm
  | cons f files ih =>
    rw [List.foldl_cons, ih, Database.commit]
    simp

/-- A revert takes back the latest, exactly if the selection lists them. -/
theorem revertsLatest_iff (h : Applied db) :
    RevertsLatest C db ↔ ∀ count,
      selectLatest C db count = (db.history.reverse.take count).map MigrationRecord.file := by
  have hdown : Function.Injective fun f : Text => (Direction.down, f) :=
    fun _ _ h => (Prod.mk.inj h).2
  have hfiles :
      (db.effects.map Prod.snd).reverse = db.history.reverse.map MigrationRecord.file := by
    rw [h.effects, List.map_map, List.map_reverse]
    exact congrArg List.reverse (List.map_id _)
  refine forall_congr' fun count => ?_
  rw [effects_revert, hfiles, ← List.map_take]
  exact ⟨fun heq => List.map_injective_iff.2 hdown (List.append_cancel_left heq),
    fun heq => by rw [heq]⟩

theorem eq_of_map_eq {α β : Type*} {f : α → β} {l l' : List α}
    (hf : ∀ a ∈ l, ∀ b ∈ l', f a = f b → a = b) (h : l.map f = l'.map f) : l = l' := by
  induction l generalizing l' with
  | nil => exact (List.map_eq_nil_iff.1 h.symm).symm
  | cons a l ih =>
    cases l' with
    | nil => cases h
    | cons b l' =>
      obtain ⟨hhead, htail⟩ := List.cons.inj h
      rw [hf a List.mem_cons_self b List.mem_cons_self hhead, ih (fun c hc d hd =>
        hf c (List.mem_cons_of_mem _ hc) d (List.mem_cons_of_mem _ hd)) htail]

theorem selects_iff_inOrder (h : Applied db) :
    (∀ count, selectLatest C db count =
      (db.history.reverse.take count).map MigrationRecord.file) ↔ InOrder C db.history := by
  rw [inOrder_iff_mergeSort]
  constructor
  · intro hall
    have hperm := List.mergeSort_perm db.history (precedes C)
    have hmap := hall db.history.length
    unfold selectLatest at hmap
    rw [List.take_of_length_le hperm.length_eq.le,
      List.take_of_length_le (List.length_reverse).le] at hmap
    refine eq_of_map_eq (fun a ha b hb => ?_) hmap
    exact List.inj_on_of_nodup_map h.nodup (hperm.mem_iff.1 ha) (List.mem_reverse.1 hb)
  · intro heq count
    rw [selectLatest, heq]

/-- After any batches, a revert of any number takes back what was applied last, in the reverse
order, exactly if the rows came in order. -/
theorem reverts_latest_iff (batches : List Batch) :
    RevertsLatest C (applyBatches batches) ↔ InOrder C (applyBatches batches).history :=
  (revertsLatest_iff C (applied_batches batches)).trans
    (selects_iff_inOrder C (applied_batches batches))

/-- Two files, applied at one time. -/
def tiedBatch : Batch := ⟨["10_b.py", "9_a.py"], by decide, fun _ => 0, 2⟩

theorem history_tiedBatch :
    (applyBatches [tiedBatch]).history = [⟨"9_a.py", 0⟩, ⟨"10_b.py", 0⟩] := by
  decide

def tiedEffects : List (Direction × Text) := [(.up, "9_a.py"), (.up, "10_b.py")]

/-- The file that was applied first is the first to be reverted. -/
theorem tie_reverted_first : (applyBatches [tiedBatch]).effects = tiedEffects ∧
    (revertOnConnection Collation.codePoints (applyBatches [tiedBatch]) 1).effects =
      tiedEffects ++ [(Direction.down, ("9_a.py" : Text))] := by
  have heffects : (applyBatches [tiedBatch]).effects = tiedEffects := by
    decide
  have hsorted : [(⟨"9_a.py", 0⟩ : MigrationRecord), ⟨"10_b.py", 0⟩].Pairwise fun a b =>
      precedes Collation.codePoints a b = true := by
    decide
  have hselect : selectLatest Collation.codePoints (applyBatches [tiedBatch]) 1 =
      [("9_a.py" : Text)] := by
    rw [selectLatest, history_tiedBatch, mergeSort_eq _ hsorted (List.Perm.refl _)]
    rfl
  rw [effects_revert, hselect, heffects]
  exact ⟨rfl, rfl⟩

end MigrationOrder

end PPBase
