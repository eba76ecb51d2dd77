import PPBase.BatchSequence

/-!
# One transaction over rows and files

`run_record_storage_transaction` runs a body, which writes files at once and hands others over
for removal, reads the references of the rows it leaves, commits, and then clears the files that
nothing refers to. Every `await` can raise or be cancelled, the commit can raise although the
server has committed, and the session that holds the lease can be lost (`Event`). The operation
runs alone here.

The invariant `Ledger` says what the two ledgers know. From it, no step removes a stored file
the committed rows refer to (`coherent`).
-/

namespace PPBase

namespace Coordinator

open RecordStore Files Storage Cleanup

/-- What an `await` raises. -/
inductive Fault
  | exception | cancelled
  deriving DecidableEq

/-- An entry of `deferred_storage_deletes`. -/
inductive Deferred
  | files (collectionId recordId : Text) (names : List Text)
  | all (collectionId recordId : Text)

namespace Deferred

def record : Deferred → Text × Text
  | files c r _ => (c, r)
  | all c r => (c, r)

def covers : Deferred → Location → Bool
  | files c r names, l => l.collectionId = c && l.recordId = r && l.filename ∈ names
  | all c r, l => l.collectionId = c && l.recordId = r

end Deferred

/-- Where the coordinator is. -/
inductive Pc
  -- the body, the reading of the final references, and the commit
  | body | references | commit
  -- the `except` clause : what was raised, and `transaction_body_finished`
  | rollback (fault : Fault) (finished : Bool) | check (fault : Fault) (finished : Bool) | reconcile
  -- the checks of the lease before and after the clean-up
  | before | after
  | finished
  deriving DecidableEq

structure State where
  pc : Pc
  /-- The committed rows. -/
  durable : Db
  /-- The rows as the transaction sees them. -/
  working : Db
  files : Store Location (List UInt8)
  created : List Location
  deferred : List Deferred
  final : Location → Bool

/-- What happens next. -/
inductive Event
  -- `save_files`, and a call of it that fails and takes back what it has written
  | save (l : Location) (content : List UInt8) | saveFails (ls : List Location)
  | execute (db : Db)
  | defer (d : Deferred)
  -- the current `await`, or the body, goes through or raises
  | done | raise (fault : Fault)
  | commitRaises (fault : Fault) (committed : Bool)
  -- `WriteBarrierConnectionLostError`
  | lost

namespace State

/-- `_affected_records` -/
def affected (s : State) : List (Text × Text) :=
  s.created.map (fun l => (l.collectionId, l.recordId)) ++ s.deferred.map Deferred.record

/-- `_final_file_references` -/
def reads (K : Codec) (rt : Runtime) (s : State) (db : Db) (l : Location) : Bool :=
  (l.collectionId, l.recordId) ∈ s.affected && references K rt db l

/-- `_cleanup_unreferenced_created_files` -/
def clearCreated (s : State) (refers : Location → Bool) : State :=
  { s with files := clear s.files fun l => l ∈ s.created && !refers l }

/-- `flush_deferred_storage_deletes` -/
def flushDeferred (s : State) (preserved : Location → Bool) : State :=
  { s with files := clear s.files fun l => s.deferred.any (·.covers l) && !preserved l }

def goto (s : State) (pc : Pc) : State := { s with pc := pc }

end State

/-- The lease is held : the `except` clause goes on. -/
def handle (s : State) : Fault → Bool → State
  | .exception, true => s.goto (if s.affected = [] then .finished else .reconcile)
  | .cancelled, true => s.goto .finished
  | _, false => (s.clearCreated fun _ => false).goto .finished

/-- One step of `run_record_storage_transaction`, if the event can happen there. -/
def step (K : Codec) (rt : Runtime) (s : State) (e : Event) : Option State :=
  match s.pc, e with
  | .body, .save l content =>
    if s.files l = none then
      some { s with files := Function.update s.files l (some content), created := l :: s.created }
    else none
  | .body, .saveFails ls =>
    if ∀ l ∈ ls, s.files l = none then some { s with created := ls ++ s.created } else none
  | .body, .execute db => some { s with working := db }
  | .body, .defer d => some { s with deferred := s.deferred ++ [d] }
  | .body, .done => some (s.goto (if s.affected = [] then .commit else .references))
  | .body, .raise f => some (s.goto (.rollback f false))
  | .references, .done => some { s with final := s.reads K rt s.working, pc := .commit }
  | .references, .raise f => some (s.goto (.rollback f false))
  | .commit, .done => some { s with durable := s.working, pc := .before }
  | .commit, .commitRaises f committed =>
    some { s with durable := if committed then s.working else s.durable, pc := .rollback f true }
  | .rollback f finished, .done => some (s.goto (.check f finished))
  | .rollback _ _, .raise _ => some (s.goto .finished)
  | .check f finished, .done => some (handle s f finished)
  | .check _ _, .lost => some (s.goto .finished)
  | .check _ _, .raise .cancelled => some (s.goto .finished)
  | .reconcile, .done => some ((s.clearCreated (s.reads K rt s.durable)).goto .finished)
  | .reconcile, .raise _ => some (s.goto .finished)
  | .before, .done => some (((s.clearCreated s.final).flushDeferred s.final).goto .after)
  | .before, .lost => some (s.goto .finished)
  | .before, .raise .cancelled => some (s.goto .finished)
  | .after, .done => some (s.goto .finished)
  | .after, .lost => some (s.goto .finished)
  | .after, .raise .cancelled => some (s.goto .finished)
  | _, _ => none

def run (K : Codec) (rt : Runtime) : State → List Event → Option State
  | s, [] => some s
  | s, e :: es => (step K rt s e).bind fun s' => run K rt s' es

/-- The barrier is taken. -/
def start (db : Db) (files : Store Location (List UInt8)) : State :=
  ⟨.body, db, db, files, [], [], fun _ => false⟩

/-- `transaction_body_finished` is not set yet. -/
def Pc.inBody : Pc → Bool
  | .body | .references => true
  | _ => false

/-- Nothing has been committed and nothing cleared. -/
def Pc.uncommitted : Pc → Bool
  | .body | .references | .commit | .rollback _ false | .check _ false => true
  | _ => false

theorem Pc.uncommitted_of_inBody {pc : Pc} (h : pc.inBody = true) : pc.uncommitted = true := by
  cases pc <;> first | rfl | cases h

section

variable {K : Codec} {rt : Runtime} {db : Db} {files : Store Location (List UInt8)}
  {s s' t : State} {e : Event} {es es' : List Event} {f : Fault} {finished : Bool} {l : Location}

theorem run_cons_of_step (h : step K rt s e = some s') : run K rt s (e :: es) = run K rt s' es := by
  show (step K rt s e).bind _ = _
  rw [h, Option.bind_some]

theorem reads_of_created (h : l ∈ s.created) (d : Db) : s.reads K rt d l = references K rt d l := by
  have hl : (l.collectionId, l.recordId) ∈ s.affected :=
    List.mem_append_left _ (List.mem_map_of_mem h)
  unfold State.reads
  rw [decide_eq_true hl, Bool.true_and]

theorem record_of_covers {d : Deferred} (h : d.covers l = true) :
    d.record = (l.collectionId, l.recordId) := by
  cases d <;> simp only [Deferred.covers, Bool.and_eq_true, decide_eq_true_eq] at h <;>
    simp [Deferred.record, h]

theorem reads_of_deferred (h : s.deferred.any (·.covers l) = true) (d : Db) :
    s.reads K rt d l = references K rt d l := by
  obtain ⟨x, hx, hl⟩ := List.any_eq_true.1 h
  have hmem : (l.collectionId, l.recordId) ∈ s.affected := by
    rw [← record_of_covers hl]
    exact List.mem_append_right _ (List.mem_map_of_mem hx)
  unfold State.reads
  rw [decide_eq_true hmem, Bool.true_and]

theorem reads_of_unaffected (h : s.affected = []) (d : Db) : s.reads K rt d = fun _ => false := by
  funext l
  simp [State.reads, h]

/-- What the coordinator knows of rows, files and ledgers. -/
structure Ledger (K : Codec) (rt : Runtime) (db : Db) (files : Store Location (List UInt8))
    (s : State) : Prop where
  created : ∀ l ∈ s.created, files l = none
  others : s.pc.uncommitted = true → ∀ l ∉ s.created, s.files l = files l
  durable : s.pc.uncommitted = true → s.durable = db
  unread : s.pc.inBody = true → s.final = fun _ => false
  final : s.pc = .commit ∨ s.pc = .before → s.final = s.reads K rt s.working
  committed : s.pc = .before → s.durable = s.working

theorem Ledger.start : Ledger K rt db files (start db files) where
  created := fun _ h => absurd h List.not_mem_nil
  others := fun _ _ _ => rfl
  durable := fun _ => rfl
  unread := fun _ => rfl
  final := nofun
  committed := nofun

/-- Where only the program counter moves. -/
theorem Ledger.goto (h : Ledger K rt db files s) {pc : Pc}
    (hpc : pc.uncommitted = true → s.pc.uncommitted = true)
    (hbody : pc.inBody = true → s.pc.inBody = true)
    (hcommit : pc = .commit → s.final = s.reads K rt s.working) (hbefore : pc ≠ .before) :
    Ledger K rt db files (s.goto pc) where
  created := h.created
  others := fun hu => h.others (hpc hu)
  durable := fun hu => h.durable (hpc hu)
  unread := fun hb => h.unread (hbody hb)
  final := fun hp => hcommit (hp.resolve_right hbefore)
  committed := fun hp => absurd hp hbefore

/-- Once the coordinator is done with the ledgers. -/
theorem Ledger.finish (h : Ledger K rt db files s) (hcreated : s'.created = s.created)
    (hpc : s'.pc = .after ∨ s'.pc = .finished) : Ledger K rt db files s' := by
  refine ⟨hcreated ▸ h.created, ?_, ?_, ?_, ?_, ?_⟩ <;>
  rcases hpc with hpc | hpc <;> rw [hpc] <;> nofun

/-- A stored file the rows refer to stays, unless the rows referred to it when it was missing. -/
def Spares (K : Codec) (rt : Runtime) (db : Db) (files : Store Location (List UInt8))
    (s s' : State) : Prop :=
  ∀ l b, s.files l = some b → references K rt s'.durable l = true →
    s'.files l = some b ∨ references K rt db l = true ∧ files l = none

/-- What the rows refer to is left as it is. -/
def Keeps (K : Codec) (rt : Runtime) (s s' : State) : Prop :=
  ∀ l, references K rt s'.durable l = true → s'.files l = s.files l

theorem spares_of_files (h : s'.files = s.files) : Spares K rt db files s s' := by
  intro l b hl _
  rw [h]
  exact Or.inl hl

theorem Keeps.spares (h : Keeps K rt s s') : Spares K rt db files s s' :=
  fun l _ hl href => Or.inl ((h l href).trans hl)

theorem Keeps.trans (h : Keeps K rt s s') (h' : Keeps K rt s' t) (hd : s'.durable = t.durable) :
    Keeps K rt s t := fun l href => (h' l href).trans (h l (hd ▸ href))

/-- Clearing what the committed rows do not refer to. -/
theorem keeps_clear {p refers : Location → Bool}
    (h : ∀ l, p l = true → refers l = references K rt s.durable l) :
    Keeps K rt s { s with files := clear s.files fun l => p l && !refers l } := by
  intro l href
  refine if_neg fun hcleared => ?_
  obtain ⟨hp, hrefers⟩ := Bool.and_eq_true_iff.1 hcleared
  rw [h l hp, show references K rt s.durable l = true from href] at hrefers
  cases hrefers

theorem keeps_clearCreated {refers : Location → Bool}
    (h : ∀ l ∈ s.created, refers l = references K rt s.durable l) :
    Keeps K rt s (s.clearCreated refers) := keeps_clear fun l hl => h l (of_decide_eq_true hl)

theorem keeps_flushDeferred {preserved : Location → Bool}
    (h : ∀ l, s.deferred.any (·.covers l) = true → preserved l = references K rt s.durable l) :
    Keeps K rt s (s.flushDeferred preserved) := keeps_clear h

/-- All that the body created goes. -/
theorem Ledger.spares_undo (h : Ledger K rt db files s) (hu : s.pc.uncommitted = true) :
    Spares K rt db files s (s.clearCreated fun _ => false) := by
  intro l b hl href
  by_cases hc : l ∈ s.created
  · exact Or.inr ⟨h.durable hu ▸ href, h.created l hc⟩
  · left
    show clear s.files (fun l => l ∈ s.created && !false) l = some b
    exact clear_eq_some.2 ⟨by simp [hc], hl⟩

/-- What is cleared after the commit has been read before it. -/
theorem Ledger.final_eq (h : Ledger K rt db files s) (hpc : s.pc = .before)
    (hl : l ∈ s.created ∨ s.deferred.any (·.covers l) = true) :
    s.final l = references K rt s.durable l := by
  rw [h.final (Or.inr hpc), h.committed hpc]
  exact hl.elim (fun hl => reads_of_created hl _) fun hl => reads_of_deferred hl _

/-- The clean-up after the commit. -/
theorem Ledger.keeps_cleanup (h : Ledger K rt db files s) (hpc : s.pc = .before) :
    Keeps K rt s ((s.clearCreated s.final).flushDeferred s.final) := by
  refine Keeps.trans (keeps_clearCreated fun l hl => ?_) (keeps_flushDeferred fun l hl => ?_) rfl
  · exact h.final_eq hpc (Or.inl hl)
  · exact h.final_eq hpc (Or.inr hl)

theorem cleanup_eq_none (hl : l ∈ s.created ∨ s.deferred.any (·.covers l) = true)
    (hfinal : s.final l = false) :
    ((s.clearCreated s.final).flushDeferred s.final).files l = none := by
  show (if s.deferred.any (·.covers l) && !s.final l then none
    else if l ∈ s.created && !s.final l then none else s.files l) = none
  rw [hfinal]
  rcases hl with hl | hl
  · split_ifs with hd hc
    · rfl
    · rfl
    · exact absurd (by simp [hl]) hc
  · exact if_pos (by rw [hl]; rfl)

theorem Ledger.handle (h : Ledger K rt db files s) (hpc : s.pc = .check f finished) :
    Ledger K rt db files (handle s f finished) ∧ Spares K rt db files s (handle s f finished) := by
  cases finished with
  | false =>
    have hs' : Coordinator.handle s f false = (s.clearCreated fun _ => false).goto .finished := by
      cases f <;> rfl
    rw [hs']
    exact ⟨h.finish rfl (Or.inr rfl), h.spares_undo (by rw [hpc]; rfl)⟩
  | true =>
    cases f with
    | cancelled => exact ⟨h.finish rfl (Or.inr rfl), spares_of_files rfl⟩
    | exception =>
      refine ⟨h.goto ?_ ?_ ?_ ?_, spares_of_files rfl⟩ <;> split_ifs <;> nofun

/-- The body only adds to the ledger, at locations that were free. -/
theorem Ledger.write (h : Ledger K rt db files s) (hpc : s.pc = .body)
    {store : Store Location (List UInt8)} {ls : List Location} (hfree : ∀ l ∈ ls, s.files l = none)
    (hstore : ∀ l, l ∉ ls → store l = s.files l) :
    Ledger K rt db files { s with files := store, created := ls ++ s.created } ∧
      Spares K rt db files s { s with files := store, created := ls ++ s.created } := by
  have hu : s.pc.uncommitted = true := by rw [hpc]; rfl
  refine ⟨⟨?_, ?_, h.durable, h.unread, ?_, h.committed⟩, ?_⟩
  · intro l hl
    rcases List.mem_append.1 hl with hl | hl
    · by_cases hc : l ∈ s.created
      · exact h.created l hc
      · rw [← h.others hu l hc, hfree l hl]
    · exact h.created l hl
  · intro _ l hl
    obtain ⟨hls, hc⟩ := not_or.1 (List.mem_append.not.1 hl)
    show store l = files l
    rw [hstore l hls, h.others hu l hc]
  · intro hp
    rw [show s.pc = .body from hpc] at hp
    exact absurd hp (by simp)
  · intro l b hl _
    have hls : l ∉ ls := fun hmem => by rw [hfree l hmem] at hl; cases hl
    exact Or.inl ((hstore l hls).trans hl)

/-- Every step keeps the ledger, and spares what the committed rows refer to. -/
theorem Ledger.step (h : Ledger K rt db files s) (hs : step K rt s e = some s') :
    Ledger K rt db files s' ∧ Spares K rt db files s s' := by
  unfold Coordinator.step at hs
  rcases s with ⟨pc, durable, working, stored, created, deferred, final⟩
  cases pc with
  | body =>
    have hbody : ∀ {w : Db} {xs : List Deferred},
        Ledger K rt db files ⟨.body, durable, w, stored, created, xs, final⟩ :=
      ⟨h.created, h.others, h.durable, h.unread, by simp, nofun⟩
    cases e with
    | save l content =>
      dsimp only at hs
      split_ifs at hs with hfree
      cases hs
      refine @Ledger.write K rt db files _ h rfl _ [l] (by simpa using hfree) fun l' hl' => ?_
      exact Function.update_of_ne (by simpa using hl') _ _
    | saveFails ls =>
      dsimp only at hs
      split_ifs at hs with hfree
      cases hs
      exact h.write rfl hfree fun _ _ => rfl
    | execute d => cases hs; exact ⟨hbody, spares_of_files rfl⟩
    | defer x => cases hs; exact ⟨hbody, spares_of_files rfl⟩
    | done =>
      cases hs
      refine ⟨h.goto (fun _ => rfl) (fun _ => rfl) ?_ ?_, spares_of_files rfl⟩
      · split_ifs with ha
        · exact fun _ => by rw [h.unread (rfl), reads_of_unaffected ha]
        · nofun
      · split_ifs <;> nofun
    | raise f =>
      cases hs
      exact ⟨h.goto (fun _ => rfl) nofun nofun nofun, spares_of_files rfl⟩
    | commitRaises | lost => cases hs
  | references =>
    cases e with
    | done =>
      cases hs
      refine ⟨⟨h.created, ?_, ?_, nofun, fun _ => rfl, nofun⟩, spares_of_files rfl⟩
      · exact fun _ => h.others (rfl)
      · exact fun _ => h.durable (rfl)
    | raise f =>
      cases hs
      exact ⟨h.goto (fun _ => rfl) nofun nofun nofun, spares_of_files rfl⟩
    | save | saveFails | execute | defer | commitRaises | lost => cases hs
  | commit =>
    cases e with
    | done =>
      cases hs
      exact ⟨⟨h.created, nofun, nofun, nofun, fun _ => h.final (Or.inl rfl), fun _ => rfl⟩,
        spares_of_files rfl⟩
    | commitRaises f committed =>
      cases hs
      exact ⟨⟨h.created, nofun, nofun, nofun, by simp, nofun⟩, spares_of_files rfl⟩
    | save | saveFails | execute | defer | raise | lost => cases hs
  | rollback f finished =>
    cases e with
    | done =>
      cases hs
      refine ⟨h.goto ?_ nofun nofun nofun, spares_of_files rfl⟩
      cases finished with
      | false => exact fun _ => rfl
      | true => nofun
    | raise => cases hs; exact ⟨h.finish rfl (Or.inr rfl), spares_of_files rfl⟩
    | save | saveFails | execute | defer | commitRaises | lost => cases hs
  | check f finished =>
    cases e with
    | done => cases hs; exact h.handle rfl
    | raise f =>
      cases f <;> cases hs
      exact ⟨h.finish rfl (Or.inr rfl), spares_of_files rfl⟩
    | lost => cases hs; exact ⟨h.finish rfl (Or.inr rfl), spares_of_files rfl⟩
    | save | saveFails | execute | defer | commitRaises => cases hs
  | reconcile =>
    cases e with
    | done =>
      cases hs
      refine ⟨h.finish rfl (Or.inr rfl), (keeps_clear fun l hl => ?_).spares⟩
      exact reads_of_created (of_decide_eq_true hl) _
    | raise => cases hs; exact ⟨h.finish rfl (Or.inr rfl), spares_of_files rfl⟩
    | save | saveFails | execute | defer | commitRaises | lost => cases hs
  | before =>
    cases e with
    | done => cases hs; exact ⟨h.finish rfl (Or.inl rfl), (h.keeps_cleanup rfl).spares⟩
    | raise f =>
      cases f <;> cases hs
      exact ⟨h.finish rfl (Or.inr rfl), spares_of_files rfl⟩
    | lost => cases hs; exact ⟨h.finish rfl (Or.inr rfl), spares_of_files rfl⟩
    | save | saveFails | execute | defer | commitRaises => cases hs
  | after =>
    cases e with
    | done | lost => cases hs; exact ⟨h.finish rfl (Or.inr rfl), spares_of_files rfl⟩
    | raise f =>
      cases f <;> cases hs
      exact ⟨h.finish rfl (Or.inr rfl), spares_of_files rfl⟩
    | save | saveFails | execute | defer | commitRaises => cases hs
  | finished => cases e <;> cases hs

theorem Ledger.run (h : Ledger K rt db files s) (hs : run K rt s es = some t) :
    Ledger K rt db files t := by
  induction es generalizing s with
  | nil => exact Option.some.inj hs ▸ h
  | cons e es ih =>
    obtain ⟨s', hs', ht⟩ := Option.bind_eq_some_iff.1 hs
    exact ih (h.step hs').1 ht

/-- The body has failed. -/
def Pc.failed : Pc → Bool
  | .rollback _ false | .check _ false | .finished => true
  | _ => false

/-- Nothing is committed any more. -/
theorem durable_of_step (h : s.pc.failed = true) (hs : step K rt s e = some s') :
    s'.pc.failed = true ∧ s'.durable = s.durable := by
  unfold step at hs
  rcases s with ⟨pc, durable, working, stored, created, deferred, final⟩
  cases pc with
  | body | references | commit | reconcile | before | after => cases h
  | rollback f finished =>
    cases finished with
    | true => cases h
    | false => cases e <;> cases hs <;> exact ⟨rfl, rfl⟩
  | check f finished =>
    cases finished with
    | true => cases h
    | false =>
      cases e with
      | done => cases f <;> cases hs <;> exact ⟨rfl, rfl⟩
      | raise f => cases f <;> cases hs; exact ⟨rfl, rfl⟩
      | lost => cases hs; exact ⟨rfl, rfl⟩
      | save | saveFails | execute | defer | commitRaises => cases hs
  | finished => cases e <;> cases hs

theorem durable_of_run (h : s.pc.failed = true) (hs : run K rt s es = some t) :
    t.durable = s.durable := by
  induction es generalizing s with
  | nil => rw [Option.some.inj hs]
  | cons e es ih =>
    obtain ⟨s', hs', ht⟩ := Option.bind_eq_some_iff.1 hs
    obtain ⟨hf, hd⟩ := durable_of_step h hs'
    rw [ih hf ht, hd]

theorem run_raise (h : s.pc.inBody = true) :
    run K rt s (.raise f :: es) = run K rt (s.goto (.rollback f false)) es := by
  refine run_cons_of_step ?_
  rcases s with ⟨pc, durable, working, stored, created, deferred, final⟩
  cases pc <;> first | rfl | cases h

/-- The transaction is rolled back, and the lease is still held. -/
theorem run_undo (s : State) (f : Fault) : run K rt (s.goto (.rollback f false)) [.done, .done] =
    some ((s.clearCreated fun _ => false).goto .finished) := by
  cases f <;> rfl

end

/-- What holds of rows and files in every run. -/
structure Coherent (K : Codec) (rt : Runtime) (db : Db) (files : Store Location (List UInt8)) :
    Prop where
  /-- No step removes a stored file that the committed rows refer to. -/
  spares : ∀ {es e s s'}, run K rt (start db files) es = some s → step K rt s e = some s' →
    Spares K rt db files s s'
  /-- When the body fails the rows stay, whatever comes after. -/
  rows : ∀ {es f rest s t}, run K rt (start db files) es = some s → s.pc.inBody = true →
    run K rt s (.raise f :: rest) = some t → t.durable = db
  /-- And with the transaction rolled back and the lease held, all files it created are gone. -/
  undone : ∀ {es f s t}, run K rt (start db files) es = some s → s.pc.inBody = true →
    run K rt s [.raise f, .done, .done] = some t → t.files = files
  /-- With the lease lost they are left in place. -/
  lost : ∀ {es f s t}, run K rt (start db files) es = some s → s.pc.inBody = true →
    run K rt s [.raise f, .done, .lost] = some t → t.files = s.files
  /-- After a clean commit what nothing refers to is gone, and the rest is as it was. -/
  cleared : ∀ {es s t}, run K rt (start db files) es = some s → s.pc = .commit →
    run K rt s [.done, .done] = some t → ∀ l,
      (references K rt t.durable l = true → t.files l = s.files l) ∧
      (references K rt t.durable l = false →
        l ∈ s.created ∨ s.deferred.any (·.covers l) = true → t.files l = none)

/-- Files and rows agree in every order of events. -/
theorem coherent (K : Codec) (rt : Runtime) (db : Db) (files : Store Location (List UInt8)) :
    Coherent K rt db files where
  spares := fun h hs => ((Ledger.start.run h).step hs).2
  rows := by
    intro es f rest s t h hpc ht
    rw [run_raise hpc] at ht
    rw [durable_of_run rfl ht]
    exact (Ledger.start.run h).durable (Pc.uncommitted_of_inBody hpc)
  undone := by
    intro es f s t h hpc ht
    have hledger : Ledger K rt db files s := Ledger.start.run h
    rw [run_raise hpc, run_undo] at ht
    obtain rfl := Option.some.inj ht
    funext l
    show clear s.files (fun l => l ∈ s.created && !false) l = files l
    by_cases hl : l ∈ s.created
    · rw [hledger.created l hl]
      exact if_pos (by simp [hl])
    · rw [← hledger.others (Pc.uncommitted_of_inBody hpc) l hl]
      exact if_neg (by simp [hl])
  lost := by
    intro es f s t h hpc ht
    rw [run_raise hpc] at ht
    obtain rfl := Option.some.inj ht
    rfl
  cleared := by
    intro es s t h hpc ht l
    have hs : step K rt s .done = some { s with durable := s.working, pc := .before } := by
      unfold step
      rw [hpc]
    have hledger := ((Ledger.start.run h).step hs).1
    rw [run_cons_of_step hs] at ht
    obtain rfl := Option.some.inj ht
    refine ⟨fun href => hledger.keeps_cleanup rfl l href, fun href hl => ?_⟩
    exact cleanup_eq_none hl ((hledger.final_eq rfl hl).trans href)

/-- A file a row refers to, although it has been missing. Its name is drawn again. -/
def missing : Location := ⟨"folders", "f1", "a.txt"⟩

/-- A body writes the missing file and fails. With the lease lost the file stays. With the lease
held it is removed, and the row still refers to it. -/
theorem failed_body_leaves_or_removes :
    (¬∀ (K : Codec) (rt : Runtime) (db : Db) (files : Store Location (List UInt8))
      (es rest : List Event) (f : Fault) (s t : State), run K rt (start db files) es = some s →
      s.pc.inBody = true → run K rt s (.raise f :: rest) = some t → t.pc = .finished →
      t.files = files) ∧
    ¬∀ (K : Codec) (rt : Runtime) (db : Db) (files : Store Location (List UInt8))
      (es : List Event) (e : Event) (s s' : State) (l : Location) (b : List UInt8),
      run K rt (start db files) es = some s → step K rt s e = some s' →
      references K rt s'.durable l = true → s.files l = some b → s'.files l = some b := by
  refine ⟨fun h => ?_, fun h => ?_⟩
  · have hfiles := h Batch.simpleServer.codec .simple Batch.oneFolder.db (fun _ => none)
      [.save missing [97]] [.done, .lost] .exception _ _ rfl rfl rfl rfl
    have hl := congrFun hfiles missing
    simp [State.goto] at hl
  · have hl := h Batch.simpleServer.codec .simple Batch.oneFolder.db (fun _ => none)
      [.save missing [97], .raise .exception, .done] .done _ _ missing _ rfl rfl (by decide) rfl
    cases hl

end Coordinator

end PPBase
