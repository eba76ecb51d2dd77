import Mathlib.Data.List.Nodup
import PPBase.Interleaving
import PPBase.RecordStore

/-!
# Removing superusers

`DELETE /api/admins/{id}`, record deletions with their cascades (a batch is several of them in
one transaction) and the truncation of a collection, each as its statements under READ
COMMITTED. A transaction sees what is committed, less what it has removed itself; a deletion
waits while another open transaction has removed the row, and removals are seen by others from
the commit on. Only the first path counts the superusers, and it counts long before it commits.

`superuser_left` : there is a superuser in every committed state of every run in which an admin
is counted only while no other open transaction removes superusers or has counted them, and the
other paths remove a superuser only while more than one is left of those that no open
transaction has removed or counted on.
-/

namespace PPBase

namespace Superusers

/-- What one statement after another of a record deletion is still to do. -/
inductive Task
  /-- `SELECT * FROM table WHERE "id" = ..`. A record that is missing fails the request, but
  not a cascade. -/
  | visit (c : Collection) (id : Text) (requested : Bool)
  /-- The relation fields still to be searched for the record. -/
  | find (c : Collection) (id : Text) (links : List (Collection × Field))
  /-- `DELETE FROM table WHERE "id" = ..` -/
  | remove (c : Collection) (id : Text)

inductive Request
  | deleteAdmin (id : Text)
  /-- The records of one request, or of a batch. -/
  | deleteRecords (targets : List (Collection × Text))
  | truncate (idOrName : Text)

inductive Phase
  | begun
  /-- More than one superuser was counted. -/
  | counted
  | found
  | working (tasks : List Task)
  /-- Only the commit is left. -/
  | written
  | ended

/-- A transaction, with what it has removed and not committed. -/
structure Tx where
  request : Request
  phase : Phase
  deleted : List (Text × Text)
  truncated : List Text

abbrev State := Pool Db Tx

/-- The transaction has removed the row. -/
def Tx.removes (tx : Tx) (table : Text) (r : Row) : Bool :=
  tx.truncated.contains table ||
    tx.deleted.any fun d => d.1 = table && r.get? "id" = some (.text d.2)

/-- What the transaction sees, and what its commit leaves. -/
def Tx.apply (tx : Tx) (db : Db) : Db :=
  { db with tables := db.tables.map fun e =>
      (e.1, { e.2 with rows := e.2.rows.filter fun r => !tx.removes e.1 r }) }

def Tx.close (tx : Tx) : Tx := { tx with phase := .ended, deleted := [], truncated := [] }

/-- The `cascadeDelete` relation fields to a collection. -/
def links (cascades : Field → Bool) (db : Db) (c : Collection) : List (Collection × Field) :=
  db.collections.flatMap fun other =>
    (other.schema.filter fun f =>
      f.type = .relation && f.options.collectionId = some c.id && cascades f && f.name ≠ []).map
        fun f => (other, f)

/-- The value of the field refers to the record. -/
def refersTo (f : Field) (id : Text) (r : Row) : Bool :=
  if f.options.maxSelect.getD 1 > 1 then
    match r.get? f.name with
    | some (.list vs) => vs.contains (.text id)
    | _ => false
  else r.get? f.name = some (.text id)

/-- The ids of the rows that refer to the record. -/
def relatedIds (db : Db) (other : Collection) (f : Field) (id : Text) : List Text :=
  ((db.rows other.name).filter (refersTo f id)).filterMap fun r =>
    match r.get? "id" with
    | some (.text i) => some i
    | _ => none

/-- Another open transaction has removed the row that is to be deleted. -/
def waits (others : List Tx) (db : Db) (table id : Text) : Bool :=
  match db.rowById table id with
  | some r => others.any fun o => o.removes table r
  | none => false

/-- `DELETE FROM table WHERE "id" = ..`, in the transaction. -/
def Tx.delete (tx : Tx) (db : Db) (table id : Text) : Tx :=
  match (tx.apply db).rowById table id with
  | some _ => { tx with deleted := (table, id) :: tx.deleted }
  | none => tx

/-- `delete_admin`, then the commit of the endpoint. -/
def nextAdmin (others : List Tx) (db : Db) (tx : Tx) (id : Text) : Phase → Option (Db × Tx)
  | .begun => some (db,
      if (db.rows "_superusers").length ≤ 1 then tx.close else { tx with phase := .counted })
  | .counted => some (db,
      match db.rowById "_superusers" id with
      | none => tx.close
      | some _ => { tx with phase := .found })
  | .found =>
    if waits others db "_superusers" id then none
    else some (db, { tx.delete db "_superusers" id with phase := .written })
  | .written => some (tx.apply db, tx.close)
  | _ => none

/-- `delete_record` and `_cascade_delete`. -/
def nextTask (cascades : Field → Bool) (others : List Tx) (db : Db) (tx : Tx) (rest : List Task) :
    Task → Option (Db × Tx)
  | .visit c id requested => some (db,
      match (tx.apply db).rowById c.name id with
      | none => if requested then tx.close else { tx with phase := .working rest }
      | some _ =>
        { tx with phase := .working (.find c id (links cascades db c) :: .remove c id :: rest) })
  | .find _ _ [] => some (db, { tx with phase := .working rest })
  | .find c id ((other, f) :: ls) => some (db,
      { tx with
        phase := .working ((relatedIds (tx.apply db) other f id).map (fun i => .visit other i false) ++
          .find c id ls :: rest) })
  | .remove c id =>
    if waits others db c.name id then none
    else some (db, { tx.delete db c.name id with phase := .working rest })

/-- The deletions of one transaction, and its commit. -/
def nextRecords (cascades : Field → Bool) (others : List Tx) (db : Db) (tx : Tx)
    (targets : List (Collection × Text)) : Phase → Option (Db × Tx)
  | .begun => some (db, { tx with phase := .working (targets.map fun t => .visit t.1 t.2 true) })
  | .working (task :: rest) => nextTask cascades others db tx rest task
  | .working [] => some (tx.apply db, tx.close)
  | _ => none

/-- `truncate_collection`. The statement waits for transactions that have removed rows of the
table. -/
def nextTruncate (others : List Tx) (db : Db) (tx : Tx) (idOrName : Text) : Phase → Option (Db × Tx)
  | .begun =>
    match db.resolveCollection idOrName with
    | none => some (db, tx.close)
    | some c =>
      if (db.rows c.name).any fun r => others.any fun o => o.removes c.name r then none
      else some (db, { tx with phase := .written, truncated := [c.name] })
  | .written => some (tx.apply db, tx.close)
  | _ => none

def next (cascades : Field → Bool) (others : List Tx) (db : Db) (tx : Tx) : Option (Db × Tx) :=
  match tx.request with
  | .deleteAdmin id => nextAdmin others db tx id tx.phase
  | .deleteRecords targets => nextRecords cascades others db tx targets tx.phase
  | .truncate idOrName => nextTruncate others db tx idOrName tx.phase

def Starts (tx : Tx) : Prop := tx.phase = .begun ∧ tx.deleted = [] ∧ tx.truncated = []

/-- A transaction executes its next statement. -/
def Moves (cascades : Field → Bool) (s : State) (i : ℕ) (tx : Tx) (db' : Db) (tx' : Tx) : Prop :=
  next cascades (s.procs.eraseIdx i) s.shared tx = some (db', tx')

/-! ## What is left -/

/-- The transaction has counted the superusers and not deleted yet. -/
def Tx.claims (tx : Tx) : Bool :=
  match tx.phase with
  | .counted | .found => true
  | _ => false

/-- The superusers that no open transaction has removed. -/
def free (db : Db) (txs : List Tx) : ℕ :=
  (db.rows "_superusers").countP fun r => !txs.any fun tx => tx.removes "_superusers" r

/-- The deletions of superusers that are still to come after a count. -/
def claimed (txs : List Tx) : ℕ := txs.countP Tx.claims

/-- An admin is counted while no other open transaction removes superusers or has counted
them; the other paths remove a superuser only while more than one is left. -/
def Guarded (s : State) (i : ℕ) (tx : Tx) : Prop :=
  match tx.request, tx.phase with
  | .deleteAdmin _, .begun => ∀ o ∈ s.procs.eraseIdx i, o.claims = false ∧
      ∀ r ∈ s.shared.rows "_superusers", o.removes "_superusers" r = false
  | .deleteRecords _, .working (.remove c _ :: _) =>
    c.name = "_superusers".toList → claimed s.procs + 2 ≤ free s.shared s.procs
  | .truncate idOrName, .begun =>
    ∀ c, s.shared.resolveCollection idOrName = some c → c.name ≠ "_superusers".toList
  | _, _ => True

def MovesGuarded (cascades : Field → Bool) (s : State) (i : ℕ) (tx : Tx) (db' : Db) (tx' : Tx) :
    Prop := Moves cascades s i tx db' tx' ∧ Guarded s i tx

section

variable {db : Db} {tx tx' : Tx} {others txs : List Tx}

theorem rows_apply (table : Text) :
    (tx.apply db).rows table = (db.rows table).filter fun r => !tx.removes table r := by
  obtain ⟨colls, tables⟩ := db
  unfold Db.rows Tx.apply
  dsimp only
  induction tables with
  | nil => rfl
  | cons e tables ih =>
    obtain ⟨k, t⟩ := e
    rw [List.map_cons, Dict.get?_cons, Dict.get?_cons]
    by_cases hk : k = table
    · rw [if_pos hk, if_pos hk, hk]
      rfl
    · rw [if_neg hk, if_neg hk]
      exact ih

theorem removes_close (table : Text) (r : Row) : tx.close.removes table r = false := by
  rfl

theorem free_perm (h : txs.Perm others) : free db txs = free db others := by
  unfold free
  congr 1
  funext r
  rw [h.any_eq]

theorem claimed_perm (h : txs.Perm others) : claimed txs = claimed others := h.countP_eq _

theorem claimed_cons : claimed (tx :: others) = claimed others + if tx.claims then 1 else 0 :=
  List.countP_cons

/-- Removing less leaves more. -/
theorem free_le (h : ∀ r, tx'.removes "_superusers" r = true → tx.removes "_superusers" r = true) :
    free db (tx :: others) ≤ free db (tx' :: others) := by
  refine List.countP_mono_left fun r _ hr => ?_
  rw [List.any_cons, Bool.not_eq_true', Bool.or_eq_false_iff] at hr ⊢
  refine ⟨?_, hr.2⟩
  rw [← Bool.not_eq_true]
  exact fun hr' => absurd (h r hr') (by rw [hr.1]; decide)

theorem free_close : free db (tx :: others) ≤ free db (tx.close :: others) :=
  free_le fun r h => by rw [removes_close] at h; cases h

/-- A commit leaves what was left before it. -/
theorem free_apply : free (tx.apply db) (tx.close :: others) = free db (tx :: others) := by
  unfold free
  rw [rows_apply, List.countP_filter]
  congr 1
  funext r
  rw [List.any_cons, List.any_cons, removes_close, Bool.false_or, Bool.not_or, Bool.and_comm]

/-- The superusers have different ids. -/
def DistinctIds (db : Db) : Prop := ((db.rows "_superusers").map (Dict.get? · "id".toList)).Nodup

theorem distinctIds_apply (h : DistinctIds db) : DistinctIds (tx.apply db) := by
  unfold DistinctIds at h ⊢
  rw [rows_apply]
  exact h.sublist (List.filter_sublist.map _)

theorem removes_delete {table id : Text} {r : Row}
    (h : (tx.delete db table id).removes "_superusers" r = true) :
    tx.removes "_superusers" r = true ∨
      (table = "_superusers".toList ∧ r.get? "id" = some (.text id)) := by
  unfold Tx.delete at h
  split at h
  · unfold Tx.removes at h ⊢
    dsimp only at h
    rw [List.any_cons, Bool.or_left_comm, Bool.or_eq_true, Bool.and_eq_true] at h
    rcases h with ⟨htable, hid⟩ | h
    · exact Or.inr ⟨of_decide_eq_true htable, of_decide_eq_true hid⟩
    · exact Or.inl h
  · exact Or.inl h

/-- Deleting rows of another table takes no superuser. -/
theorem free_delete_of_ne {table id : Text} (htable : table ≠ "_superusers".toList) :
    free db (tx :: others) ≤ free db (tx.delete db table id :: others) :=
  free_le fun _ h => (removes_delete h).resolve_right fun ht => htable ht.1

/-- Deleting a superuser takes one. -/
theorem free_delete (hids : DistinctIds db) (table id : Text) :
    free db (tx :: others) ≤ free db (tx.delete db table id :: others) + 1 := by
  have hone : (db.rows "_superusers").countP (fun r => r.get? "id" == some (.text id)) ≤ 1 := by
    have := List.nodup_iff_count_le_one.1 hids (some (.text id))
    rwa [List.count, List.countP_map] at this
  refine le_trans ?_ (Nat.add_le_add_left hone _)
  unfold free
  generalize db.rows "_superusers" = rows at hone ⊢
  clear hone hids
  induction rows with
  | nil => exact le_refl _
  | cons r rows ih =>
    rw [List.countP_cons, List.countP_cons, List.countP_cons]
    -- A row that was left is still left, or it is the one that is deleted.
    have hrow : (if (!(tx :: others).any fun tx => tx.removes "_superusers" r) = true then 1 else 0) ≤
        (if (!(tx.delete db table id :: others).any fun tx => tx.removes "_superusers" r) = true
          then 1 else 0) + if (r.get? "id" == some (.text id)) = true then 1 else 0 := by
      rw [List.any_cons, List.any_cons]
      cases hnew : (tx.delete db table id).removes "_superusers" r with
      | false =>
        rw [Bool.false_or]
        split_ifs with h h' <;> simp_all
      | true =>
        rcases removes_delete hnew with hold | ⟨-, hid⟩
        · simp only [hold, Bool.true_or, Bool.not_true, Bool.false_eq_true, if_false, Nat.zero_le]
        · simp only [hid, BEq.rfl, if_true]
          split_ifs <;> omega
    omega

/-! ## Runs -/

/-- Superusers are left for every deletion that is still to come, and one more. -/
structure Safe (s : State) : Prop where
  distinct : DistinctIds s.shared
  fresh : ∀ tx ∈ s.procs, tx.phase = .begun → tx.deleted = [] ∧ tx.truncated = []
  left : claimed s.procs + 1 ≤ free s.shared s.procs

variable {db' : Db} {cascades : Field → Bool}

/-- What a statement leaves of the superusers, given what was left before it. -/
structure Leaves (db : Db) (tx : Tx) (others : List Tx) (db' : Db) (tx' : Tx) : Prop where
  distinct : DistinctIds db'
  begun : tx'.phase ≠ .begun
  left : claimed (tx' :: others) + 1 ≤ free db' (tx' :: others)

theorem leaves_of_le (hids : DistinctIds db) (hbegun : tx'.phase ≠ .begun)
    (hclaims : tx'.claims = false) (hfree : free db (tx :: others) ≤ free db (tx' :: others))
    (hleft : claimed (tx :: others) + 1 ≤ free db (tx :: others)) :
    Leaves db tx others db tx' := by
  refine ⟨hids, hbegun, ?_⟩
  rw [claimed_cons] at hleft ⊢
  rw [hclaims]
  split_ifs at hleft <;> simp only [Bool.false_eq_true, if_false] <;> omega

theorem leaves_close (hids : DistinctIds db)
    (hleft : claimed (tx :: others) + 1 ≤ free db (tx :: others)) :
    Leaves db tx others db tx.close :=
  leaves_of_le hids nofun rfl free_close hleft

theorem leaves_commit (hids : DistinctIds db)
    (hleft : claimed (tx :: others) + 1 ≤ free db (tx :: others)) :
    Leaves db tx others (tx.apply db) tx.close := by
  have hclosed := (leaves_close hids hleft).left
  refine ⟨distinctIds_apply hids, nofun, ?_⟩
  rw [free_apply]
  rw [claimed_cons] at hleft ⊢
  have : tx.close.claims = false := rfl
  rw [this]
  split_ifs at hleft <;> simp only [Bool.false_eq_true, if_false] <;> omega

/-- `DELETE /api/admins/{id}` -/
theorem leaves_nextAdmin {id : Text}
    (h : nextAdmin others db tx id tx.phase = some (db', tx')) (hids : DistinctIds db)
    (hfresh : tx.phase = .begun → tx.deleted = [] ∧ tx.truncated = [])
    (halone : tx.phase = .begun → ∀ o ∈ others, o.claims = false ∧
      ∀ r ∈ db.rows "_superusers", o.removes "_superusers" r = false)
    (hleft : claimed (tx :: others) + 1 ≤ free db (tx :: others)) :
    Leaves db tx others db' tx' := by
  cases hphase : tx.phase with
  | begun =>
    rw [hphase] at h
    obtain ⟨rfl, rfl⟩ := Prod.mk.inj (Option.some.inj h)
    split_ifs with hcount
    · exact leaves_close hids hleft
    · -- Nothing else is removed or claimed, so the count is what is left.
      have hclaimed : claimed others = 0 :=
        List.countP_eq_zero.2 fun o ho => by rw [(halone hphase o ho).1]; decide
      have hfree : free db ({ tx with phase := .counted } :: others) = (db.rows "_superusers").length := by
        refine List.countP_eq_length.2 fun r hr => ?_
        rw [List.any_cons, Bool.not_eq_true', Bool.or_eq_false_iff, List.any_eq_false]
        constructor
        · unfold Tx.removes
          dsimp only
          rw [(hfresh hphase).1, (hfresh hphase).2]
          rfl
        · intro o ho
          rw [(halone hphase o ho).2 r hr]
          decide
      refine ⟨hids, nofun, ?_⟩
      rw [claimed_cons, hclaimed, hfree]
      exact Nat.not_le.1 hcount
  | counted =>
    rw [hphase] at h
    obtain ⟨rfl, rfl⟩ := Prod.mk.inj (Option.some.inj h)
    split
    · exact leaves_close hids hleft
    · refine ⟨hids, nofun, ?_⟩
      have hclaims : tx.claims = true := by unfold Tx.claims; rw [hphase]
      rw [claimed_cons, hclaims] at hleft
      rw [claimed_cons]
      exact hleft
  | found =>
    rw [hphase] at h
    dsimp only [nextAdmin] at h
    split_ifs at h
    obtain ⟨rfl, rfl⟩ := Prod.mk.inj (Option.some.inj h)
    refine ⟨hids, nofun, ?_⟩
    have hclaims : tx.claims = true := by unfold Tx.claims; rw [hphase]
    have hfree : free db (tx :: others) ≤ free db (tx.delete db "_superusers" id :: others) + 1 :=
      free_delete hids "_superusers" id
    rw [claimed_cons, hclaims, if_pos rfl] at hleft
    show claimed others + 1 ≤ free db (tx.delete db "_superusers" id :: others)
    omega
  | written =>
    rw [hphase] at h
    obtain ⟨rfl, rfl⟩ := Prod.mk.inj (Option.some.inj h)
    exact leaves_commit hids hleft
  | working tasks =>
    rw [hphase] at h
    cases h
  | ended =>
    rw [hphase] at h
    cases h

/-- Record deletions, with their cascades. -/
theorem leaves_nextTask {rest : List Task} {task : Task}
    (h : nextTask cascades others db tx rest task = some (db', tx')) (hids : DistinctIds db)
    (hclaims : tx.claims = false)
    (hguard : ∀ c id, task = .remove c id → c.name = "_superusers".toList →
      claimed (tx :: others) + 2 ≤ free db (tx :: others))
    (hleft : claimed (tx :: others) + 1 ≤ free db (tx :: others)) :
    Leaves db tx others db' tx' := by
  -- A statement that only reads leaves the removals as they are.
  have hreads : ∀ tasks, Leaves db tx others db { tx with phase := .working tasks } :=
    fun tasks => leaves_of_le hids nofun rfl (le_refl _) hleft
  cases task with
  | visit c id requested =>
    obtain ⟨rfl, rfl⟩ := Prod.mk.inj (Option.some.inj h)
    split
    · split_ifs
      · exact leaves_close hids hleft
      · exact hreads _
    · exact hreads _
  | find c id links =>
    cases links with
    | nil =>
      obtain ⟨rfl, rfl⟩ := Prod.mk.inj (Option.some.inj h)
      exact hreads _
    | cons l links =>
      obtain ⟨rfl, rfl⟩ := Prod.mk.inj (Option.some.inj h)
      exact hreads _
  | remove c id =>
    dsimp only [nextTask] at h
    split_ifs at h
    obtain ⟨rfl, rfl⟩ := Prod.mk.inj (Option.some.inj h)
    by_cases htable : c.name = "_superusers".toList
    · have hmore := hguard c id rfl htable
      have hfree : free db (tx :: others) ≤ free db (tx.delete db c.name id :: others) + 1 :=
        free_delete hids c.name id
      refine ⟨hids, nofun, ?_⟩
      rw [claimed_cons, hclaims] at hmore
      show claimed others + 1 ≤ free db (tx.delete db c.name id :: others)
      simp only [Bool.false_eq_true, if_false] at hmore
      omega
    · exact leaves_of_le hids nofun rfl (free_delete_of_ne htable) hleft

theorem leaves_nextRecords {targets : List (Collection × Text)}
    (h : nextRecords cascades others db tx targets tx.phase = some (db', tx')) (hids : DistinctIds db)
    (hguard : ∀ c id rest, tx.phase = .working (.remove c id :: rest) →
      c.name = "_superusers".toList → claimed (tx :: others) + 2 ≤ free db (tx :: others))
    (hleft : claimed (tx :: others) + 1 ≤ free db (tx :: others)) :
    Leaves db tx others db' tx' := by
  cases hphase : tx.phase with
  | begun =>
    rw [hphase] at h
    obtain ⟨rfl, rfl⟩ := Prod.mk.inj (Option.some.inj h)
    exact leaves_of_le hids nofun rfl (le_refl _) hleft
  | working tasks =>
    rw [hphase] at h
    cases tasks with
    | nil =>
      obtain ⟨rfl, rfl⟩ := Prod.mk.inj (Option.some.inj h)
      exact leaves_commit hids hleft
    | cons task rest =>
      refine leaves_nextTask h hids (by unfold Tx.claims; rw [hphase]) ?_ hleft
      rintro c id rfl
      exact hguard c id rest hphase
  | counted =>
    rw [hphase] at h
    cases h
  | found =>
    rw [hphase] at h
    cases h
  | written =>
    rw [hphase] at h
    cases h
  | ended =>
    rw [hphase] at h
    cases h

theorem leaves_nextTruncate {idOrName : Text}
    (h : nextTruncate others db tx idOrName tx.phase = some (db', tx')) (hids : DistinctIds db)
    (hfresh : tx.phase = .begun → tx.deleted = [] ∧ tx.truncated = [])
    (hguard : tx.phase = .begun → ∀ c, db.resolveCollection idOrName = some c →
      c.name ≠ "_superusers".toList)
    (hleft : claimed (tx :: others) + 1 ≤ free db (tx :: others)) :
    Leaves db tx others db' tx' := by
  cases hphase : tx.phase with
  | begun =>
    rw [hphase] at h
    dsimp only [nextTruncate] at h
    cases hc : db.resolveCollection idOrName with
    | none =>
      rw [hc] at h
      obtain ⟨rfl, rfl⟩ := Prod.mk.inj (Option.some.inj h)
      exact leaves_close hids hleft
    | some c =>
      rw [hc] at h
      dsimp only at h
      split_ifs at h
      obtain ⟨rfl, rfl⟩ := Prod.mk.inj (Option.some.inj h)
      refine leaves_of_le hids nofun rfl (free_le fun r hr => ?_) hleft
      unfold Tx.removes at hr
      dsimp only at hr
      rw [(hfresh hphase).1, List.any_nil, Bool.or_false, List.contains_iff_mem,
        List.mem_singleton] at hr
      exact absurd hr.symm (hguard hphase c hc)
  | written =>
    rw [hphase] at h
    obtain ⟨rfl, rfl⟩ := Prod.mk.inj (Option.some.inj h)
    exact leaves_commit hids hleft
  | counted =>
    rw [hphase] at h
    cases h
  | found =>
    rw [hphase] at h
    cases h
  | working tasks =>
    rw [hphase] at h
    cases h
  | ended =>
    rw [hphase] at h
    cases h

variable {s s' : State} {i : ℕ}

/-- One guarded statement. -/
theorem leaves_of_movesGuarded (hsafe : Safe s) (hp : s.procs[i]? = some tx)
    (h : MovesGuarded cascades s i tx db' tx') :
    Leaves s.shared tx (s.procs.eraseIdx i) db' tx' := by
  obtain ⟨hmove, hguard⟩ := h
  have hperm := Pool.procs_perm hp
  have hleft := hsafe.left
  rw [claimed_perm hperm, free_perm hperm] at hleft
  have hfresh := hsafe.fresh tx (List.mem_of_getElem? hp)
  unfold Moves next at hmove
  unfold Guarded at hguard
  cases hrequest : tx.request with
  | deleteAdmin id =>
    rw [hrequest] at hmove hguard
    refine leaves_nextAdmin hmove hsafe.distinct hfresh ?_ hleft
    intro hphase
    rw [hphase] at hguard
    exact hguard
  | deleteRecords targets =>
    rw [hrequest] at hmove hguard
    refine leaves_nextRecords hmove hsafe.distinct ?_ hleft
    intro c id rest hphase htable
    rw [hphase] at hguard
    rw [← claimed_perm hperm, ← free_perm hperm]
    exact hguard htable
  | truncate idOrName =>
    rw [hrequest] at hmove hguard
    refine leaves_nextTruncate hmove hsafe.distinct hfresh ?_ hleft
    intro hphase
    rw [hphase] at hguard
    exact hguard

theorem safe_step (hsafe : Safe s) (h : Pool.Step Starts (MovesGuarded cascades) s s') : Safe s' := by
  cases h with
  | @arrive tx hstart =>
    obtain ⟨hphase, hdeleted, htruncated⟩ := hstart
    have hperm : (s.procs ++ [tx]).Perm (tx :: s.procs) := List.perm_append_singleton tx s.procs
    refine ⟨hsafe.distinct, ?_, ?_⟩
    · intro tx' htx' hbegun
      rcases List.mem_append.1 htx' with hold | hnew
      · exact hsafe.fresh tx' hold hbegun
      · rw [List.mem_singleton.1 hnew]
        exact ⟨hdeleted, htruncated⟩
    · have hclaims : tx.claims = false := by unfold Tx.claims; rw [hphase]
      have hfree : free s.shared (tx :: s.procs) = free s.shared s.procs := by
        unfold free
        congr 1
        funext r
        rw [List.any_cons]
        unfold Tx.removes
        rw [hdeleted, htruncated]
        rfl
      rw [claimed_perm hperm, free_perm hperm, claimed_cons, hclaims, hfree]
      exact hsafe.left
  | @move i tx tx' db' hp hmove =>
    have hleaves := leaves_of_movesGuarded hsafe hp hmove
    have hperm := Pool.set_perm tx' hp
    refine ⟨hleaves.distinct, ?_, ?_⟩
    · intro t ht hbegun
      obtain ⟨j, hj⟩ := List.mem_iff_getElem?.1 ht
      rcases Pool.of_getElem?_set hj with ⟨-, rfl⟩ | ⟨-, hj⟩
      · exact absurd hbegun hleaves.begun
      · exact hsafe.fresh t (List.mem_of_getElem? hj) hbegun
    · rw [claimed_perm hperm, free_perm hperm]
      exact hleaves.left

/-- A superuser is left in every committed state. -/
theorem superuser_left (cascades : Field → Bool) {db : Db} (hids : DistinctIds db)
    (hsome : db.rows "_superusers" ≠ []) {s : State}
    (hrun : Pool.Run Starts (MovesGuarded cascades) ⟨db, []⟩ s) :
    s.shared.rows "_superusers" ≠ [] := by
  have hfree : free db [] = (db.rows "_superusers").length := List.countP_eq_length.2 fun _ _ => rfl
  have hstart : Safe ⟨db, []⟩ := by
    refine ⟨hids, fun _ h => absurd h List.not_mem_nil, ?_⟩
    show 0 + 1 ≤ free db []
    rw [hfree]
    exact List.length_pos_of_ne_nil hsome
  have hsafe : Safe s := hrun.invariant (fun hs hstep => safe_step hs hstep) hstart
  intro hnone
  have hzero : free s.shared s.procs = 0 := by
    unfold free
    rw [hnone]
    rfl
  have := hsafe.left
  omega

end

/-- Two superusers. -/
def twoAdmins : Db where
  collections := []
  tables := [("_superusers", ⟨["id"], [[("id", .text "a")], [("id", .text "b")]]⟩)]

theorem distinctIds_twoAdmins : DistinctIds twoAdmins := by
  show ([some (.text "a"), some (.text "b")] : List (Option Value)).Nodup
  decide

/-- A transaction that deletes an admin. -/
def deletesAdmin (id : Text) (phase : Phase) (deleted : List (Text × Text)) : Tx where
  request := .deleteAdmin id
  phase := phase
  deleted := deleted
  truncated := []

/-- One of the two is deleted. -/
theorem one_admin_deleted : ∃ s, Pool.Run Starts (MovesGuarded fun _ => false) ⟨twoAdmins, []⟩ s ∧
    (s.shared.rows "_superusers").length = 1 ∧ s.shared.rows "_superusers" ≠ [] := by
  let at' (phase : Phase) (deleted : List (Text × Text)) : State :=
    ⟨twoAdmins, [deletesAdmin "a" phase deleted]⟩
  have h₀ : Pool.Step Starts (MovesGuarded fun _ => false) ⟨twoAdmins, []⟩ (at' .begun []) :=
    .arrive ⟨rfl, rfl, rfl⟩
  have h₁ : Pool.Step Starts (MovesGuarded fun _ => false) (at' .begun []) (at' .counted []) :=
    .move (i := 0) rfl ⟨rfl, nofun⟩
  have h₂ : Pool.Step Starts (MovesGuarded fun _ => false) (at' .counted []) (at' .found []) :=
    .move (i := 0) rfl ⟨rfl, trivial⟩
  have h₃ : Pool.Step Starts (MovesGuarded fun _ => false) (at' .found [])
      (at' .written [("_superusers", "a")]) := .move (i := 0) rfl ⟨rfl, trivial⟩
  have h₄ : Pool.Step Starts (MovesGuarded fun _ => false) (at' .written [("_superusers", "a")])
      ⟨(deletesAdmin "a" .written [("_superusers", "a")]).apply twoAdmins,
        [deletesAdmin "a" .ended []]⟩ := .move (i := 0) rfl ⟨rfl, trivial⟩
  have hrun := ((((Relation.ReflTransGen.single h₀).tail h₁).tail h₂).tail h₃).tail h₄
  exact ⟨_, hrun, rfl, superuser_left _ distinctIds_twoAdmins (List.cons_ne_nil _ _) hrun⟩

/-- Two admins who delete each other are both deleted. -/
theorem admins_delete_each_other : ¬∀ s, Pool.Run Starts (Moves fun _ => false) ⟨twoAdmins, []⟩ s →
    s.shared.rows "_superusers" ≠ [] := by
  intro h
  let at' (p q : Phase) (d e : List (Text × Text)) : State :=
    ⟨twoAdmins, [deletesAdmin "a" p d, deletesAdmin "b" q e]⟩
  have h₀ : Pool.Step Starts (Moves fun _ => false) ⟨twoAdmins, []⟩
      ⟨twoAdmins, [deletesAdmin "a" .begun []]⟩ := .arrive ⟨rfl, rfl, rfl⟩
  have h₁ : Pool.Step Starts (Moves fun _ => false) ⟨twoAdmins, [deletesAdmin "a" .begun []]⟩
      (at' .begun .begun [] []) := .arrive ⟨rfl, rfl, rfl⟩
  have h₂ : Pool.Step Starts (Moves fun _ => false) (at' .begun .begun [] [])
      (at' .counted .begun [] []) := .move (i := 0) rfl rfl
  have h₃ : Pool.Step Starts (Moves fun _ => false) (at' .counted .begun [] [])
      (at' .counted .counted [] []) := .move (i := 1) rfl rfl
  have h₄ : Pool.Step Starts (Moves fun _ => false) (at' .counted .counted [] [])
      (at' .found .counted [] []) := .move (i := 0) rfl rfl
  have h₅ : Pool.Step Starts (Moves fun _ => false) (at' .found .counted [] [])
      (at' .found .found [] []) := .move (i := 1) rfl rfl
  have h₆ : Pool.Step Starts (Moves fun _ => false) (at' .found .found [] [])
      (at' .written .found [("_superusers", "a")] []) := .move (i := 0) rfl rfl
  have h₇ : Pool.Step Starts (Moves fun _ => false) (at' .written .found [("_superusers", "a")] [])
      (at' .written .written [("_superusers", "a")] [("_superusers", "b")]) :=
    .move (i := 1) rfl rfl
  have h₈ : Pool.Step Starts (Moves fun _ => false)
      (at' .written .written [("_superusers", "a")] [("_superusers", "b")])
      ⟨(deletesAdmin "a" .written [("_superusers", "a")]).apply twoAdmins,
        [deletesAdmin "a" .ended [], deletesAdmin "b" .written [("_superusers", "b")]]⟩ :=
    .move (i := 0) rfl rfl
  have h₉ : Pool.Step Starts (Moves fun _ => false)
      ⟨(deletesAdmin "a" .written [("_superusers", "a")]).apply twoAdmins,
        [deletesAdmin "a" .ended [], deletesAdmin "b" .written [("_superusers", "b")]]⟩
      ⟨(deletesAdmin "b" .written [("_superusers", "b")]).apply
          ((deletesAdmin "a" .written [("_superusers", "a")]).apply twoAdmins),
        [deletesAdmin "a" .ended [], deletesAdmin "b" .ended []]⟩ := .move (i := 1) rfl rfl
  have hrun := (((((((((Relation.ReflTransGen.single h₀).tail h₁).tail h₂).tail h₃).tail h₄).tail
    h₅).tail h₆).tail h₇).tail h₈).tail h₉
  exact h _ hrun rfl

end Superusers

end PPBase
