import PPBase.Interleaving
import PPBase.Storage

/-!
# Concurrent updates of records

`update_record` calls of one collection, each in a transaction of its own as
`run_record_storage_transaction` runs it. The row is read without a lock, the new values are
worked out from it, and the `UPDATE` takes the lock of the row, which other updates of the row
wait for. All hold the same shared barrier, so nothing else makes them wait. Under READ COMMITTED
every statement sees what has been committed by then. The files that are to go are removed after
the commit.
-/

namespace PPBase

namespace Updates

open RecordStore Files Storage Cleanup

/-- What the calls share, and what has ever been stored. -/
structure Shared where
  db : Db
  files : Store Location (List UInt8)
  stored : Location → Bool

/-- A call of `update_record`. -/
structure Call where
  writer : Writer
  id : Text
  data : Row
  files : Dict Text (List Upload)

/-- What a call has worked out : the row it has read, the columns it writes, the files it has
written and those it hands over for removal. -/
structure Work where
  row : Row
  columns : Row
  created : List Location
  removed : List Location
  deriving DecidableEq

/-- How far a call is. -/
inductive Phase
  | begun
  | read (row : Row)
  | saved (W : Work)
  /-- The `UPDATE` has run. -/
  | updated (W : Work)
  /-- The references the transaction leaves have been read. -/
  | referenced (W : Work) (final : Location → Bool)
  | committed (W : Work) (final : Location → Bool)
  /-- The call has raised. -/
  | failed (created : List Location)
  | ended (ok : Bool)

structure Running where
  call : Call
  phase : Phase

abbrev State := Pool Shared Running

/-- The columns `create_collection_table` adds to those of the schema. -/
def systemColumns (c : Collection) : List Text :=
  let base : List Text := ["id", "created", "updated"]
  let auth : List Text := ["email", "email_visibility", "verified", "token_key", "password_hash"]
  base ++ if c.type = .auth then auth else []

/-! ## The steps -/

section

variable (K : Codec) (rt : Runtime) (c : Collection)

/-- The files the call writes, once it has read the row. -/
def savedBy (x : Call) (row : Row) : List (Location × List UInt8) :=
  match (do
    let d : Draft := ⟨[("updated", .time x.writer.now)], []⟩
    let _ ← (if c.type = .auth then authUpdates x.writer rt c x.data d else .ok d :
      Except WriteError Draft)
    ((updateTakenKeys c x.data).foldl Dict.del x.data).foldlM (applyKey rt c) (initialState c row) :
      Except WriteError Row) with
  | .error _ => []
  | .ok _ => savedFiles x.writer c x.id (byField x.files)

/-- What the call works out from the row. A call without changes writes no columns. -/
def work (x : Call) (row : Row) : Option Work :=
  match updateDraft x.writer rt c row x.data x.files,
    fieldState x.writer rt c row ((updateTakenKeys c x.data).foldl Dict.del x.data) x.files with
  | .ok d, .ok state =>
    if d.errors ≠ [] then none
    else if d.columns.length ≤ 1 then some ⟨row, [], (savedBy rt c x row).map Prod.fst, []⟩
    else some ⟨row, d.columns, (savedBy rt c x row).map Prod.fst,
      (deletable K (replacedFiles x.writer rt c row state)).map fun name => ⟨c.id, x.id, name⟩⟩
  | _, _ => none

/-- The rows as the call leaves them. -/
def written (db : Db) (x : Call) (W : Work) : Db := db.updateRow c.name x.id W.columns

/-- What the call removes after its commit. -/
def Work.clears (W : Work) (final : Location → Bool) (l : Location) : Bool :=
  (l ∈ W.created || l ∈ W.removed) && !final l

/-- The next step of a call that waits for nothing. -/
def next (S : Shared) (x : Call) : Phase → Option (Shared × Phase)
  | .begun => some <|
    match S.db.rowById c.name x.id with
    | none => (S, .ended false)
    | some row => (S, .read row)
  | .read row =>
    let files := savedBy rt c x row
    some ({ S with
        files := write S.files files
        stored := fun l => S.stored l || files.any fun e => e.1 = l },
      match work K rt c x row with
      | none => .failed (files.map Prod.fst)
      | some W => .saved W)
  | .saved W => some <|
    match writeUpdates x.writer S.db c x.id ((S.db.rowById c.name x.id).getD W.row) W.columns with
    | .error _ => (S, .failed W.created)
    | .ok _ => (S, .updated W)
  | .updated W => some (S, .referenced W (references K rt (written c S.db x W)))
  | .referenced W final => some ({ S with db := written c S.db x W }, .committed W final)
  | .committed W final => some ({ S with files := clear S.files (W.clears final) }, .ended true)
  | .failed created => some ({ S with files := clear S.files (· ∈ created) }, .ended false)
  | .ended _ => none

/-- A statement raises, or the request is cancelled. -/
def abort : Phase → Option Phase
  | .begun | .read _ => some (.ended false)
  | .saved W | .updated W | .referenced W _ => some (.failed W.created)
  | _ => none

end

/-- The columns the call has written and not committed. -/
def Phase.pending : Phase → Option Work
  | .updated W | .referenced W _ => some W
  | _ => none

/-- The call holds the lock of the row. -/
def Running.locks (r : Running) (id : Text) : Bool :=
  r.call.id = id && r.phase.pending.any fun W => W.columns ≠ []

/-- The next step has to wait for a lock. -/
def waits (s : State) (i : ℕ) (r : Running) : Bool :=
  match r.phase with
  | .saved W => W.columns ≠ [] && (s.procs.eraseIdx i).any (·.locks r.call.id)
  | _ => false

/-- `save_files` draws names until no file has them. -/
def namesFree (rt : Runtime) (c : Collection) (S : Shared) (r : Running) : Prop :=
  ∀ row, r.phase = .read row → ∀ e ∈ savedBy rt c r.call row, S.files e.1 = none

def Starts (r : Running) : Prop := r.phase = .begun

/-- The state before the first call. -/
def start (db : Db) (files : Store Location (List UInt8)) : State :=
  ⟨⟨db, files, fun l => (files l).isSome⟩, []⟩

/-- A call takes its next step, or raises. -/
def Moves (K : Codec) (rt : Runtime) (c : Collection) (s : State) (i : ℕ) (r : Running)
    (S' : Shared) (r' : Running) : Prop :=
  r'.call = r.call ∧
    (waits s i r = false ∧ namesFree rt c s.shared r ∧
        next K rt c s.shared r.call r.phase = some (S', r'.phase) ∨
      S' = s.shared ∧ abort r.phase = some r'.phase)

/-! ## What a step does -/

/-- The files have been written. -/
def save (rt : Runtime) (c : Collection) (S : Shared) (x : Call) (row : Row) : Shared :=
  { S with
    files := write S.files (savedBy rt c x row)
    stored := fun l => S.stored l || (savedBy rt c x row).any fun e => e.1 = l }

/-- A step, by where it starts and where it leads. -/
inductive Does (K : Codec) (rt : Runtime) (c : Collection) (s : State) (i : ℕ) (x : Call) :
    Phase → Shared → Phase → Prop
  | stops {p : Phase} (hp : p = .begun ∨ ∃ row, p = .read row) :
      Does K rt c s i x p s.shared (.ended false)
  | reads {row : Row} (hrow : s.shared.db.rowById c.name x.id = some row) :
      Does K rt c s i x .begun s.shared (.read row)
  | saves {row : Row} {W : Work} (hfree : ∀ e ∈ savedBy rt c x row, s.shared.files e.1 = none)
      (hW : work K rt c x row = some W) :
      Does K rt c s i x (.read row) (save rt c s.shared x row) (.saved W)
  | refuses {row : Row} (hfree : ∀ e ∈ savedBy rt c x row, s.shared.files e.1 = none) :
      Does K rt c s i x (.read row) (save rt c s.shared x row)
        (.failed ((savedBy rt c x row).map Prod.fst))
  | updates {W : Work} (hwait : waits s i ⟨x, .saved W⟩ = false) :
      Does K rt c s i x (.saved W) s.shared (.updated W)
  | reread {W : Work} : Does K rt c s i x (.updated W) s.shared
      (.referenced W (references K rt (written c s.shared.db x W)))
  | commits {W : Work} {final : Location → Bool} : Does K rt c s i x (.referenced W final)
      { s.shared with db := written c s.shared.db x W } (.committed W final)
  | clears {W : Work} {final : Location → Bool} : Does K rt c s i x (.committed W final)
      { s.shared with files := clear s.shared.files (W.clears final) } (.ended true)
  | fails {p : Phase} {W : Work} (hp : p = .saved W ∨ p.pending = some W) :
      Does K rt c s i x p s.shared (.failed W.created)
  | undoes {created : List Location} : Does K rt c s i x (.failed created)
      { s.shared with files := clear s.shared.files (· ∈ created) } (.ended false)

section

variable {K : Codec} {rt : Runtime} {c : Collection} {s : State} {i : ℕ} {r r' : Running}
  {S' : Shared}

theorem does_of_moves (h : Moves K rt c s i r S' r') : Does K rt c s i r.call r.phase S' r'.phase := by
  obtain ⟨call, phase⟩ := r
  obtain ⟨call', phase'⟩ := r'
  obtain ⟨-, ⟨hwait, hfree, hnext⟩ | ⟨rfl, habort⟩⟩ := h
  · dsimp only at hnext ⊢
    cases phase with
    | begun =>
      unfold next at hnext
      cases hrow : s.shared.db.rowById c.name call.id with
      | none =>
        rw [hrow] at hnext
        cases hnext
        exact .stops (Or.inl rfl)
      | some row =>
        rw [hrow] at hnext
        cases hnext
        exact .reads hrow
    | read row =>
      replace hfree := hfree row rfl
      unfold next at hnext
      dsimp only at hnext
      cases hW : work K rt c call row with
      | none =>
        rw [hW] at hnext
        cases hnext
        exact .refuses hfree
      | some W =>
        rw [hW] at hnext
        cases hnext
        exact .saves hfree hW
    | saved W =>
      unfold next at hnext
      dsimp only at hnext
      cases hwrite : writeUpdates call.writer s.shared.db c call.id
          ((s.shared.db.rowById c.name call.id).getD W.row) W.columns with
      | error e =>
        rw [hwrite] at hnext
        cases hnext
        exact .fails (Or.inl rfl)
      | ok db =>
        rw [hwrite] at hnext
        cases hnext
        exact .updates hwait
    | updated W => cases hnext; exact .reread
    | referenced W final => cases hnext; exact .commits
    | committed W final => cases hnext; exact .clears
    | failed created => cases hnext; exact .undoes
    | ended ok => cases hnext
  · dsimp only at habort ⊢
    cases phase with
    | begun => cases habort; exact .stops (Or.inl rfl)
    | read row => cases habort; exact .stops (Or.inr ⟨row, rfl⟩)
    | saved W => cases habort; exact .fails (Or.inl rfl)
    | updated W => cases habort; exact .fails (Or.inr rfl)
    | referenced W final => cases habort; exact .fails (Or.inr rfl)
    | committed W final => cases habort
    | failed created => cases habort
    | ended ok => cases habort

theorem moves_of_next {phase' : Phase} (hwait : waits s i r = false) (hfree : namesFree rt c s.shared r)
    (h : next K rt c s.shared r.call r.phase = some (S', phase')) :
    Moves K rt c s i r S' ⟨r.call, phase'⟩ := ⟨rfl, Or.inl ⟨hwait, hfree, h⟩⟩

variable {x : Call} {row : Row} {W : Work}

theorem next_read {S : Shared} (h : work K rt c x row = some W) :
    next K rt c S x (.read row) = some (save rt c S x row, .saved W) := by
  unfold next
  dsimp only
  rw [h]
  rfl

/-- The others do not hold the lock that a call has not had to wait for. -/
theorem locks_eq_false (h : waits s i ⟨x, .saved W⟩ = false) (hW : W.columns ≠ []) :
    ∀ q ∈ s.procs.eraseIdx i, q.locks x.id = false := by
  intro q hq
  unfold waits at h
  dsimp only at h
  rw [decide_eq_true hW, Bool.true_and] at h
  exact Bool.eq_false_iff.2 (List.any_eq_false.1 h q hq)

theorem updateRow_nil (db : Db) (table id : Text) : db.updateRow table id [] = db := by
  have hrow : ∀ t : Table, t.setById id [] = t := by
    intro t
    unfold Table.setById Dict.update
    simp
  unfold Db.updateRow Db.mapTable
  simp [hrow]

/-- What a call has worked out comes from the columns of its update. -/
theorem exists_of_work (h : work K rt c x row = some W) :
    ∃ d state, updateDraft x.writer rt c row x.data x.files = .ok d ∧ d.errors = [] ∧
      (d.columns.length ≤ 1 ∧ W = ⟨row, [], (savedBy rt c x row).map Prod.fst, []⟩ ∨
        1 < d.columns.length ∧ W = ⟨row, d.columns, (savedBy rt c x row).map Prod.fst,
          (deletable K (replacedFiles x.writer rt c row state)).map fun name =>
            ⟨c.id, x.id, name⟩⟩) := by
  unfold work at h
  cases hd : updateDraft x.writer rt c row x.data x.files with
  | error e => rw [hd] at h; cases h
  | ok d =>
    rw [hd] at h
    cases hs : fieldState x.writer rt c row ((updateTakenKeys c x.data).foldl Dict.del x.data)
        x.files with
    | error e => rw [hs] at h; cases h
    | ok state =>
      rw [hs] at h
      dsimp only at h
      split_ifs at h with herrors hlength
      · exact ⟨d, state, rfl, not_not.1 herrors, Or.inl ⟨hlength, (Option.some.inj h).symm⟩⟩
      · exact ⟨d, state, rfl, not_not.1 herrors,
          Or.inr ⟨not_le.1 hlength, (Option.some.inj h).symm⟩⟩

/-- Without others, what a call leaves is what `update_record` returns. -/
theorem written_of_updateRecord {db db' : Db}
    (h : updateRecord x.writer rt db c x.id x.data x.files = .ok (some db')) :
    ∃ row W, db.rowById c.name x.id = some row ∧ work K rt c x row = some W ∧
      db' = written c db x W := by
  obtain ⟨row, d, hrow, hd, herrors, hwritten⟩ := of_updateRecord h
  obtain ⟨state, hstate⟩ : ∃ state, fieldState x.writer rt c row
      ((updateTakenKeys c x.data).foldl Dict.del x.data) x.files = .ok state := by
    unfold updateDraft at hd
    obtain ⟨d₁, -, hd⟩ := Failing.bind_eq_ok.1 hd
    obtain ⟨state, hstate, -⟩ := Failing.bind_eq_ok.1 hd
    exact ⟨state, hstate⟩
  have hwork : ∃ W, work K rt c x row = some W ∧
      W.columns = if d.columns.length ≤ 1 then [] else d.columns := by
    unfold work
    rw [hd, hstate]
    dsimp only
    rw [if_neg (not_not.2 herrors)]
    split_ifs <;> exact ⟨_, rfl, rfl⟩
  obtain ⟨W, hW, hcolumns⟩ := hwork
  refine ⟨row, W, hrow, hW, ?_⟩
  unfold written
  rw [hcolumns]
  rcases hwritten with ⟨hlength, rfl⟩ | ⟨hlength, rfl⟩
  · rw [if_pos hlength, updateRow_nil]
  · rw [if_neg (not_le.2 hlength)]

/-- What a call writes are the columns of an update, or none. -/
theorem columns_of_work (h : work K rt c x row = some W) :
    W.columns = [] ∨
      ∃ d, updateDraft x.writer rt c row x.data x.files = .ok d ∧ W.columns = d.columns := by
  obtain ⟨d, state, hd, -, ⟨-, rfl⟩ | ⟨-, rfl⟩⟩ := exists_of_work h
  · exact Or.inl rfl
  · exact Or.inr ⟨d, hd, rfl⟩

theorem nodup_columns (h : work K rt c x row = some W) : W.columns.keys.Nodup := by
  rcases columns_of_work h with hnil | ⟨d, hd, hcolumns⟩
  · rw [hnil]
    exact List.nodup_nil
  · rw [hcolumns]
    exact nodup_updateDraft hd

/-- No update writes the id. -/
theorem id_notMem_columns (hc : c.fieldMap.get? "id" = none) (h : work K rt c x row = some W) :
    "id".toList ∉ W.columns.keys := by
  rcases columns_of_work h with hnil | ⟨d, hd, hcolumns⟩
  · rw [hnil]
    exact List.not_mem_nil
  · rw [hcolumns]
    refine Dict.get?_eq_none_iff.1 (updateDraft_other hd (by decide) ?_ ?_ ?_)
    · exact fun _ => ⟨fun h => absurd h (by decide), fun h => absurd h (by decide),
        fun h => absurd h (by decide), fun h => absurd h (by decide)⟩
    · exact fun _ _ _ _ _ => hc
    · exact fun _ _ _ => hc

end

/-- Conversions that do nothing. -/
def plainCodec : Codec where
  unquote s := s
  netlocOk _ := true
  upper s := s.map Char.toUpper
  loadsList _ := none

end Updates

end PPBase
