import PPBase.Updates

/-!
# Files under concurrent updates

A file that an update takes out of a row is removed after the commit, by the list the call has
worked out from the row it read. An update that has read the row before that can write the name
back. `Careful` says when it does not : an `UPDATE` writes no stored name that the row does not
hold at that moment, save those of its own uploads. In runs of such updates the committed rows refer
to no stored file that is gone (`no_dangling`).
-/

namespace PPBase

namespace SharedFiles

open RecordStore Files Storage Cleanup Updates

section

variable (K : Codec) (rt : Runtime) (c : Collection)

/-- All names in the file fields of the row, as `update_record` and the references read them. -/
def rowNames (row : Row) : List Text :=
  rowReferences K rt c row ++
    (c.schema.filter fun f => f.type = .file).flatMap fun f => rawFileList rt (getKey row f.name)

/-- A row with the id passes the test. -/
def anyRow (db : Db) (table id : Text) (p : Row → Bool) : Bool :=
  (db.rows table).any fun row => row.get? "id" = some (.text id) && p row

/-- The record refers to the file. -/
def referred (db : Db) (l : Location) : Bool :=
  anyRow db c.name l.recordId fun row => l.filename ∈ rowReferences K rt c row

/-- The record holds the name. -/
def named (db : Db) (l : Location) : Bool :=
  anyRow db c.name l.recordId fun row => l.filename ∈ rowNames K rt c row

/-- The file is one of the record's. -/
def IsOf (id : Text) (l : Location) : Prop := l.collectionId = c.id ∧ l.recordId = id

/-- The files that a call has created and not committed. -/
def Creates (r : Running) (l : Location) : Prop :=
  match r.phase with
  | .saved W | .updated W | .referenced W _ => l ∈ W.created
  | .failed created => l ∈ created
  | _ => False

/-- The files that a call knows. -/
def Holds (r : Running) (l : Location) : Prop :=
  match r.phase with
  | .read row => IsOf c r.call.id l ∧ l.filename ∈ rowNames K rt c row
  | .saved W | .updated W | .referenced W _ | .committed W _ => l ∈ W.created ∨ l ∈ W.removed
  | .failed created => l ∈ created
  | _ => False

/-- Nobody has the name : no file has been stored under it, and no row and no call holds it. -/
structure Unused (s : State) (l : Location) : Prop where
  stored : s.shared.stored l = false
  named : named K rt c s.shared.db l = false
  held : ∀ r ∈ s.procs, ¬Holds K rt c r l
  written : ∀ r ∈ s.procs, ∀ W, r.phase.pending = some W →
    SharedFiles.named K rt c (written c s.shared.db r.call W) l = false

/-- The names that a call makes up are new, and a stored name that its `UPDATE` writes is in the
row or belongs to one of its own uploads. -/
structure Careful (s : State) (r r' : Running) : Prop where
  fresh : ∀ row, r.phase = .read row → r'.phase ≠ .ended false →
    ∀ e ∈ savedBy rt c r.call row, Unused K rt c s e.1
  kept : ∀ W, r.phase = .saved W → r'.phase = .updated W → W.columns ≠ [] → ∀ l, IsOf c r.call.id l →
    named K rt c (written c s.shared.db r.call W) l = true → s.shared.stored l = true →
    l ∈ W.created ∨ referred K rt c s.shared.db l = true

def MovesCareful (s : State) (i : ℕ) (r : Running) (S' : Shared) (r' : Running) : Prop :=
  Moves K rt c s i r S' r' ∧ Careful K rt c s r r'

end

/-! ## Rows and names -/

section

variable {K : Codec} {rt : Runtime} {c : Collection} {db : Db} {x y : Call} {W V : Work} {l : Location}
  {row : Row} {table id : Text}

theorem anyRow_updateRow {u : Row} {rid : Text} {p : Row → Bool} (hid : "id".toList ∉ u.keys) :
    anyRow (db.updateRow table id u) table rid p =
      anyRow db table rid fun row => p (if rid = id then Dict.update row u else row) := by
  unfold anyRow
  rw [Db.rows_updateRow, List.any_map]
  congr 1
  funext r
  rw [Function.comp_apply]
  dsimp only
  by_cases hr : r.get? "id" = some (.text id)
  · rw [if_pos hr, show (Dict.update r u).get? "id" = r.get? "id" from
      Dict.get?_foldl_set_of_notMem Prod.fst Prod.snd u r hid, hr]
    by_cases hrid : rid = id
    · rw [if_pos hrid]
    · have hne : ¬(some (Value.text id) = some (.text rid)) := by simpa using Ne.symm hrid
      rw [decide_eq_false hne, Bool.false_and, Bool.false_and]
  · rw [if_neg hr]
    by_cases hrid : rid = id
    · rw [hrid, decide_eq_false hr, Bool.false_and, Bool.false_and]
    · rw [if_neg hrid]

/-- An update leaves other records alone. -/
theorem anyRow_written {rid : Text} {p : Row → Bool} (hid : "id".toList ∉ W.columns.keys)
    (h : rid ≠ x.id) : anyRow (written c db x W) c.name rid p = anyRow db c.name rid p := by
  unfold written
  rw [anyRow_updateRow hid]
  simp only [if_neg h]

/-- Updates of two records do not get in each other's way. -/
theorem anyRow_written_written {p : Row → Bool} (hid : "id".toList ∉ W.columns.keys)
    (hid' : "id".toList ∉ V.columns.keys) (h : y.id ≠ x.id) :
    anyRow (written c (written c db x W) y V) c.name y.id p =
      anyRow (written c db y V) c.name y.id p := by
  unfold written
  rw [anyRow_updateRow hid', anyRow_updateRow hid, anyRow_updateRow hid']
  simp only [if_neg h, if_true]

theorem named_of_referred (h : referred K rt c db l = true) : named K rt c db l = true := by
  obtain ⟨row, hrow, hl⟩ := List.any_eq_true.1 h
  rw [Bool.and_eq_true, decide_eq_true_iff, decide_eq_true_iff] at hl
  refine List.any_eq_true.2 ⟨row, hrow, ?_⟩
  rw [Bool.and_eq_true, decide_eq_true_iff, decide_eq_true_iff]
  exact ⟨hl.1, List.mem_append_left _ hl.2⟩

theorem named_of_row (hrow : db.rowById c.name l.recordId = some row)
    (hl : l.filename ∈ rowNames K rt c row) : named K rt c db l = true := by
  refine List.any_eq_true.2 ⟨row, List.mem_of_find?_eq_some hrow, ?_⟩
  rw [Bool.and_eq_true, decide_eq_true_iff]
  exact ⟨by simpa using List.find?_some hrow, decide_eq_true hl⟩

theorem schema_of_fieldMap {k : Text} {f : Field} (h : c.fieldMap.get? k = some f) :
    f ∈ c.schema ∧ f.name = k := by
  suffices hall : ∀ (fs : List Field) (d : Dict Text Field),
      (∀ k f, d.get? k = some f → f ∈ c.schema ∧ f.name = k) → (∀ f ∈ fs, f ∈ c.schema) →
      ∀ k f, (fs.foldl (fun d f => d.set f.name f) d).get? k = some f → f ∈ c.schema ∧ f.name = k from
    hall c.schema [] (fun _ _ hk => absurd hk (by simp)) (fun _ hf => hf) k f h
  intro fs
  induction fs with
  | nil => exact fun d hd _ => hd
  | cons g fs ih =>
    intro d hd hfs
    refine ih (d.set g.name g) ?_ fun f hf => hfs f (List.mem_cons_of_mem _ hf)
    intro k f hk
    rw [Dict.get?_set] at hk
    split_ifs at hk with hname
    · obtain rfl := Option.some.inj hk
      exact ⟨hfs g List.mem_cons_self, hname⟩
    · exact hd k f hk

/-- What an update removes was in the row it has read. -/
theorem rowNames_of_replaced {w : Writer} {state : Row} {n : Text}
    (h : n ∈ deletable K (replacedFiles w rt c row state)) : n ∈ rowNames K rt c row := by
  have hmem : n ∈ replacedFiles w rt c row state := by
    unfold deletable at h
    dsimp only at h
    split_ifs at h
    · exact (List.mem_filter.1 h).1
    · cases h
  obtain ⟨e, -, he⟩ := List.mem_flatMap.1 hmem
  split at he
  · cases he
  · rename_i f hf
    split_ifs at he with hfile
    · cases he
    · obtain ⟨hschema, hname⟩ := schema_of_fieldMap hf
      split at he
      · cases he
      · refine List.mem_append_right _ (List.mem_flatMap.2 ⟨f, ?_, ?_⟩)
        · exact List.mem_filter.2 ⟨hschema, decide_eq_true (not_not.1 (not_or.1 hfile).1)⟩
        · rw [hname]
          exact (List.mem_filter.1 he).1

/-- What a call writes is stored with its record. -/
theorem isOf_savedBy {e : Location × List UInt8} (h : e ∈ savedBy rt c x row) : IsOf c x.id e.1 := by
  unfold savedBy at h
  split at h
  · cases h
  · obtain ⟨u, -, h⟩ := List.mem_flatMap.1 h
    split at h
    · cases h
    · split_ifs at h
      · rw [← List.map_uncurry_zip_eq_zipWith] at h
        obtain ⟨⟨name, v⟩, -, rfl⟩ := List.mem_map.1 h
        exact ⟨rfl, rfl⟩
      · cases h

/-- What a call has worked out of the row it has read. -/
theorem of_work (h : work K rt c x row = some W) :
    W.created = (savedBy rt c x row).map Prod.fst ∧
      (∀ l ∈ W.removed, IsOf c x.id l ∧ l.filename ∈ rowNames K rt c row) ∧
      (W.columns = [] → W.removed = []) := by
  obtain ⟨d, state, hd, -, ⟨-, rfl⟩ | ⟨hlen, rfl⟩⟩ := exists_of_work h
  · exact ⟨rfl, fun l hl => absurd hl List.not_mem_nil, fun _ => rfl⟩
  · refine ⟨rfl, ?_, ?_⟩
    · intro l hl
      obtain ⟨n, hn, rfl⟩ := List.mem_map.1 hl
      exact ⟨⟨rfl, rfl⟩, rowNames_of_replaced hn⟩
    · intro hnil
      rw [show d.columns = [] from hnil] at hlen
      exact absurd hlen (by simp)

end

/-! ## The invariant -/

section

variable (K : Codec) (rt : Runtime) (c : Collection)

/-- What is known of a call and the files it knows. -/
structure SafeCall (S : Shared) (r : Running) : Prop where
  own : ∀ l, Holds K rt c r l → IsOf c r.call.id l
  created : ∀ l, Creates r l →
    S.stored l = true ∧ (S.files l).isSome = true ∧ named K rt c S.db l = false
  shape : ∀ W, r.phase = .saved W ∨ r.phase.pending = some W →
    "id".toList ∉ W.columns.keys ∧ (W.columns = [] → W.removed = [])
  /-- What the pending update names is known. -/
  pending : ∀ W, r.phase.pending = some W → ∀ l, IsOf c r.call.id l →
    named K rt c (written c S.db r.call W) l = true → S.stored l = true →
    W.columns = [] ∨ l ∈ W.created ∨ referred K rt c S.db l = true
  /-- The references have been read of the rows that are committed. -/
  final : ∀ W final, r.phase = .referenced W final → ∀ l, l ∈ W.created ∨ l ∈ W.removed →
    final l = false → W.columns = [] ∨ referred K rt c (written c S.db r.call W) l = false
  /-- What is removed next is not referred to. -/
  cleared : ∀ W final, r.phase = .committed W final → ∀ l, W.clears final l = true →
    S.stored l = true → referred K rt c S.db l = false

/-- Two calls know different new files, and do not both hold the lock of a row. -/
structure Apart (r r' : Running) : Prop where
  left : ∀ l, Creates r l → ¬Holds K rt c r' l
  right : ∀ l, Creates r' l → ¬Holds K rt c r l
  locks : ∀ id, ¬(r.locks id = true ∧ r'.locks id = true)

/-- The collection is one of the database, and no other has its id. -/
structure IsIn (db : Db) : Prop where
  mem : c ∈ db.collections
  unique : ∀ d ∈ db.collections, d.id = c.id → d = c

/-- The stored files of the committed rows are there. -/
structure Safe (s : State) : Prop where
  collection : IsIn c s.shared.db
  files : ∀ l, l.collectionId = c.id → referred K rt c s.shared.db l = true →
    s.shared.stored l = true → (s.shared.files l).isSome = true
  calls : ∀ r ∈ s.procs, SafeCall K rt c s.shared r
  apart : s.procs.Pairwise (Apart K rt c)

end

section

variable {K : Codec} {rt : Runtime} {c : Collection} {s : State} {i : ℕ} {r r' : Running}
  {S' : Shared} {l : Location}

theorem Apart.symm (h : Apart K rt c r r') : Apart K rt c r' r :=
  ⟨h.right, h.left, fun id hlocks => h.locks id hlocks.symm⟩

theorem Safe.set (hr : s.procs[i]? = some r) (hc : IsIn c S'.db)
    (hfiles : ∀ l, l.collectionId = c.id → referred K rt c S'.db l = true → S'.stored l = true →
      (S'.files l).isSome = true)
    (hnew : SafeCall K rt c S' r')
    (hothers : ∀ p ∈ s.procs.eraseIdx i, SafeCall K rt c S' p)
    (hapart : ∀ p ∈ s.procs.eraseIdx i, Apart K rt c r' p)
    (h : s.procs.Pairwise (Apart K rt c)) : Safe K rt c ⟨S', s.procs.set i r'⟩ where
  collection := hc
  files := hfiles
  calls := (Pool.forall_set r' hr).2 ⟨hnew, hothers⟩
  apart := (Pool.pairwise_set Apart.symm r' hr).2
    ⟨hapart, ((Pool.pairwise_procs Apart.symm hr).1 h).2⟩

theorem holds_of_creates (h : Creates r l) : Holds K rt c r l := by
  obtain ⟨call, phase⟩ := r
  cases phase with
  | saved W | updated W | referenced W final => exact Or.inl h
  | failed created => exact h
  | begun | read | committed | ended => cases h

/-! ## One step -/

variable {S : Shared} {x : Call} {W : Work}

theorem SafeCall.clear {p : Location → Bool} (h : SafeCall K rt c S r)
    (hp : ∀ l, Creates r l → p l = false) :
    SafeCall K rt c { S with files := Cleanup.clear S.files p } r := by
  refine ⟨h.own, fun l hl => ?_, h.shape, h.pending, h.final, h.cleared⟩
  obtain ⟨hstored, hfiles, hnamed⟩ := h.created l hl
  refine ⟨hstored, ?_, hnamed⟩
  obtain ⟨b, hb⟩ := Option.isSome_iff_exists.1 hfiles
  exact Option.isSome_iff_exists.2 ⟨b, clear_eq_some.2 ⟨hp l hl, hb⟩⟩

/-- What is stored now has been stored before, or is new. -/
theorem stored_of_save {row : Row} (hfresh : ∀ e ∈ savedBy rt c x row, Unused K rt c s e.1)
    (hl : (save rt c s.shared x row).stored l = true) :
    s.shared.stored l = true ∨ Unused K rt c s l := by
  rcases Bool.or_eq_true_iff.1 hl with hl | hl
  · exact Or.inl hl
  · obtain ⟨e, he, hel⟩ := List.any_eq_true.1 hl
    exact Or.inr (of_decide_eq_true hel ▸ hfresh e he)

/-- What others have is not what a call makes up. -/
theorem SafeCall.save {row : Row} (h : SafeCall K rt c s.shared r) (hr : r ∈ s.procs)
    (hfresh : ∀ e ∈ savedBy rt c x row, Unused K rt c s e.1) :
    SafeCall K rt c (save rt c s.shared x row) r := by
  have hold := fun l => @stored_of_save K rt c s l x row hfresh
  refine ⟨h.own, ?_, h.shape, ?_, h.final, ?_⟩
  · intro l hl
    obtain ⟨hstored, hfiles, hnamed⟩ := h.created l hl
    exact ⟨Bool.or_eq_true_iff.2 (Or.inl hstored), isSome_write (Or.inr hfiles), hnamed⟩
  · intro W hW l hl hnamed hstored
    rcases hold l hstored with hstored | hunused
    · exact h.pending W hW l hl hnamed hstored
    · have hnot := hunused.written r hr W hW
      rw [show named K rt c (written c s.shared.db r.call W) l = true from hnamed] at hnot
      cases hnot
  · intro W final hphase l hl hstored
    rcases hold l hstored with hstored | hunused
    · exact h.cleared W final hphase l hl hstored
    · refine absurd ?_ (hunused.held r hr)
      have hmem := (Bool.and_eq_true_iff.1 hl).1
      rw [Bool.or_eq_true, decide_eq_true_iff, decide_eq_true_iff] at hmem
      unfold Holds
      rw [hphase]
      exact hmem

theorem written_of_nil {db : Db} (h : W.columns = []) : written c db x W = db := by
  unfold written
  rw [h, updateRow_nil]

/-- Two pending updates are of two records. -/
theorem Apart.id_ne {p : Running} {V : Work} (h : Apart K rt c r p) (hr : r.phase.pending = some W)
    (hp : p.phase.pending = some V) (hW : W.columns ≠ []) (hV : V.columns ≠ []) :
    p.call.id ≠ r.call.id := by
  intro heq
  refine h.locks r.call.id ⟨?_, ?_⟩
  · unfold Running.locks
    rw [hr, Option.any_some, decide_eq_true hW, decide_eq_true rfl]
    rfl
  · unfold Running.locks
    rw [hp, Option.any_some, decide_eq_true hV, decide_eq_true heq]
    rfl

/-- What a commit names is new or has been named before. -/
theorem SafeCall.of_written (h : SafeCall K rt c S r) (hr : r.phase.pending = some W)
    (hl : l.collectionId = c.id) (hnamed : named K rt c (written c S.db r.call W) l = true)
    (hstored : S.stored l = true) : l ∈ W.created ∨ named K rt c S.db l = true := by
  by_cases hid : l.recordId = r.call.id
  · rcases h.pending W hr l ⟨hl, hid⟩ hnamed hstored with hnil | hcreated | hreferred
    · rw [written_of_nil hnil] at hnamed
      exact Or.inr hnamed
    · exact Or.inl hcreated
    · exact Or.inr (named_of_referred hreferred)
  · unfold named at hnamed ⊢
    rw [anyRow_written (h.shape W (Or.inr hr)).1 hid] at hnamed
    exact Or.inr hnamed

/-- What a commit refers to is new or has been referred to before. -/
theorem SafeCall.referred_of_written (h : SafeCall K rt c S r) (hr : r.phase.pending = some W)
    (hl : l.collectionId = c.id) (hreferred : referred K rt c (written c S.db r.call W) l = true)
    (hstored : S.stored l = true) : l ∈ W.created ∨ referred K rt c S.db l = true := by
  by_cases hid : l.recordId = r.call.id
  · rcases h.pending W hr l ⟨hl, hid⟩ (named_of_referred hreferred) hstored with hnil | hknown
    · rw [written_of_nil hnil] at hreferred
      exact Or.inr hreferred
    · exact hknown
  · unfold referred at hreferred ⊢
    rw [anyRow_written (h.shape W (Or.inr hr)).1 hid] at hreferred
    exact Or.inr hreferred

theorem holds_of_clears {final : Location → Bool} (hphase : r.phase = .committed W final)
    (hl : W.clears final l = true) : Holds K rt c r l := by
  have hmem := (Bool.and_eq_true_iff.1 hl).1
  rw [Bool.or_eq_true, decide_eq_true_iff, decide_eq_true_iff] at hmem
  unfold Holds
  rw [hphase]
  exact hmem

/-- The commit of another call. -/
theorem SafeCall.commit {p : Running} (h : SafeCall K rt c S r)
    (hphase : ∃ final, r.phase = .referenced W final) (hp : SafeCall K rt c S p)
    (hapart : Apart K rt c r p) : SafeCall K rt c { S with db := written c S.db r.call W } p := by
  have hr : r.phase.pending = some W := by
    obtain ⟨final, hphase⟩ := hphase
    rw [hphase]
    rfl
  have hcreates : ∀ l, l ∈ W.created → Creates r l := by
    obtain ⟨final, hphase⟩ := hphase
    intro l hl
    unfold Creates
    rw [hphase]
    exact hl
  have hid := (h.shape W (Or.inr hr)).1
  refine ⟨hp.own, ?_, hp.shape, ?_, ?_, ?_⟩
  · intro l hl
    obtain ⟨hstored, hfiles, hnamed⟩ := hp.created l hl
    have hholds : Holds K rt c p l := holds_of_creates hl
    refine ⟨hstored, hfiles, Bool.eq_false_iff.2 fun hnew => ?_⟩
    rcases h.of_written hr (hp.own l hholds).1 hnew hstored with hcreated | hold
    · exact hapart.left l (hcreates l hcreated) hholds
    · rw [hnamed] at hold
      cases hold
  · intro V hV l hl hnamed hstored
    by_cases hnil : W.columns = []
    · rw [show (Shared.mk (written c S.db r.call W) S.files S.stored).db = S.db from
        written_of_nil hnil] at hnamed ⊢
      exact hp.pending V hV l hl hnamed hstored
    · by_cases hnil' : V.columns = []
      · exact Or.inl hnil'
      · have hne := hapart.id_ne hr hV hnil hnil'
        unfold named at hnamed
        rw [hl.2, anyRow_written_written hid (hp.shape V (Or.inr hV)).1 hne, ← hl.2] at hnamed
        show V.columns = [] ∨ l ∈ V.created ∨ referred K rt c (written c S.db r.call W) l = true
        unfold referred
        rw [anyRow_written hid (hl.2 ▸ hne)]
        exact hp.pending V hV l hl hnamed hstored
  · intro V final hVphase l hl hfinal
    have hV : p.phase.pending = some V := by rw [hVphase]; rfl
    by_cases hnil : W.columns = []
    · rw [show (Shared.mk (written c S.db r.call W) S.files S.stored).db = S.db from
        written_of_nil hnil]
      exact hp.final V final hVphase l hl hfinal
    · by_cases hnil' : V.columns = []
      · exact Or.inl hnil'
      · have hne := hapart.id_ne hr hV hnil hnil'
        have hholds : Holds K rt c p l := by
          unfold Holds
          rw [hVphase]
          exact hl
        refine (hp.final V final hVphase l hl hfinal).imp_right fun hnot => ?_
        unfold referred at hnot ⊢
        rw [(hp.own l hholds).2] at hnot ⊢
        exact (anyRow_written_written hid (hp.shape V (Or.inr hV)).1 hne).trans hnot
  · intro V final hVphase l hl hstored
    have hholds : Holds K rt c p l := holds_of_clears hVphase hl
    refine Bool.eq_false_iff.2 fun hnew => ?_
    rcases h.referred_of_written hr (hp.own l hholds).1 hnew hstored with hcreated | hold
    · exact hapart.left l (hcreates l hcreated) hholds
    · rw [hp.cleared V final hVphase l hl hstored] at hold
      cases hold

/-- A step that leaves what is shared alone. -/
theorem Safe.of_shared_eq (h : Safe K rt c s) (hr : s.procs[i]? = some r)
    (hnew : SafeCall K rt c s.shared r') (hcreates : ∀ l, Creates r' l → Creates r l)
    (hholds : ∀ p ∈ s.procs.eraseIdx i, ∀ l, Creates p l → Holds K rt c r' l → Holds K rt c r l)
    (hlocks : ∀ id, r'.locks id = true → ∀ p ∈ s.procs.eraseIdx i, p.locks id = false) :
    Safe K rt c ⟨s.shared, s.procs.set i r'⟩ := by
  have hapart := ((Pool.pairwise_procs Apart.symm hr).1 h.apart).1
  refine Safe.set hr h.collection h.files hnew ((Pool.forall_procs hr).1 h.calls).2 ?_ h.apart
  refine fun p hp => ⟨?_, ?_, ?_⟩
  · exact fun l hl => (hapart p hp).left l (hcreates l hl)
  · exact fun l hl hl' => (hapart p hp).right l hl (hholds p hp l hl hl')
  · rintro id ⟨hl, hl'⟩
    rw [hlocks id hl p hp] at hl'
    cases hl'

theorem Safe.commit {final : Location → Bool} (h : Safe K rt c s) (hr : s.procs[i]? = some r)
    (hphase : r.phase = .referenced W final) (hcall : r'.call = r.call)
    (hphase' : r'.phase = .committed W final) :
    Safe K rt c ⟨{ s.shared with db := written c s.shared.db r.call W }, s.procs.set i r'⟩ := by
  have hsafe := h.calls r (List.mem_of_getElem? hr)
  have hpending : r.phase.pending = some W := by rw [hphase]; rfl
  have hcreates : ∀ l, l ∈ W.created → Creates r l := by
    intro l hl
    unfold Creates
    rw [hphase]
    exact hl
  have hholds : ∀ l, Holds K rt c r' l → Holds K rt c r l := by
    intro l hl
    unfold Holds at hl ⊢
    rw [hphase'] at hl
    rw [hphase]
    exact hl
  have hnone : ∀ l, ¬Creates r' l := by
    intro l hl
    unfold Creates at hl
    rw [hphase'] at hl
    exact hl
  have hapart := ((Pool.pairwise_procs Apart.symm hr).1 h.apart).1
  refine Safe.set hr ⟨h.collection.mem, h.collection.unique⟩ ?_ ?_ ?_ ?_ h.apart
  · intro l hl hreferred hstored
    rcases hsafe.referred_of_written hpending hl hreferred hstored with hcreated | hold
    · exact (hsafe.created l (hcreates l hcreated)).2.1
    · exact h.files l hl hold hstored
  · refine ⟨?_, fun l hl => absurd hl (hnone l), ?_, ?_, ?_, ?_⟩
    · intro l hl
      rw [hcall]
      exact hsafe.own l (hholds l hl)
    · rintro V (hV | hV) <;> rw [hphase'] at hV <;> cases hV
    · intro V hV
      rw [hphase'] at hV
      cases hV
    · intro V final' hV
      rw [hphase'] at hV
      cases hV
    · intro V final' hV l hl hstored
      obtain ⟨rfl, rfl⟩ := Phase.committed.inj (hphase'.symm.trans hV)
      obtain ⟨hmem, hfinal⟩ := Bool.and_eq_true_iff.1 hl
      rw [Bool.or_eq_true, decide_eq_true_iff, decide_eq_true_iff] at hmem
      rcases hsafe.final W final hphase l hmem (by simpa using hfinal) with hnil | hnot
      · -- without columns the call removes only what it has created
        rw [show (Shared.mk (written c s.shared.db r.call W) s.shared.files s.shared.stored).db =
          s.shared.db from written_of_nil hnil]
        rw [(hsafe.shape W (Or.inr hpending)).2 hnil] at hmem
        have hcreated := hmem.resolve_right List.not_mem_nil
        refine Bool.eq_false_iff.2 fun hreferred => ?_
        have hnamed := (hsafe.created l (hcreates l hcreated)).2.2
        rw [named_of_referred hreferred] at hnamed
        cases hnamed
      · exact hnot
  · exact fun p hp => hsafe.commit ⟨final, hphase⟩ (((Pool.forall_procs hr).1 h.calls).2 p hp)
      (hapart p hp)
  · refine fun p hp => ⟨fun l hl => absurd hl (hnone l), ?_, ?_⟩
    · exact fun l hl hl' => (hapart p hp).right l hl (hholds l hl')
    · rintro id ⟨hl, -⟩
      unfold Running.locks at hl
      rw [hphase'] at hl
      simp [Phase.pending] at hl

/-- A call saves its files. -/
theorem Safe.save {row : Row} {phase : Phase} (hc : c.fieldMap.get? "id" = none) (h : Safe K rt c s)
    (hr : s.procs[i]? = some ⟨x, .read row⟩)
    (hfresh : ∀ e ∈ savedBy rt c x row, Unused K rt c s e.1)
    (hphase : (∃ W, work K rt c x row = some W ∧ phase = .saved W) ∨ phase = .failed ((savedBy rt c x row).map Prod.fst)) :
    Safe K rt c ⟨save rt c s.shared x row, s.procs.set i ⟨x, phase⟩⟩ := by
  have hothers := ((Pool.forall_procs hr).1 h.calls).2
  have hapart := ((Pool.pairwise_procs Apart.symm hr).1 h.apart).1
  have hmem : ∀ p ∈ s.procs.eraseIdx i, p ∈ s.procs :=
    fun p hp => (Pool.procs_perm hr).mem_iff.2 (List.mem_cons_of_mem _ hp)
  have hcreates : ∀ l, Creates ⟨x, phase⟩ l → ∃ e ∈ savedBy rt c x row, e.1 = l := by
    intro l hl
    rcases hphase with ⟨W, hW, rfl⟩ | rfl
    · exact List.mem_map.1 ((of_work hW).1 ▸ hl)
    · exact List.mem_map.1 hl
  have hholds : ∀ l, Holds K rt c ⟨x, phase⟩ l →
      (∃ e ∈ savedBy rt c x row, e.1 = l) ∨ Holds K rt c ⟨x, .read row⟩ l := by
    intro l hl
    rcases hphase with ⟨W, hW, rfl⟩ | rfl
    · obtain ⟨hcreated, hremoved, -⟩ := of_work hW
      rcases hl with hl | hl
      · exact Or.inl (List.mem_map.1 (hcreated ▸ hl))
      · exact Or.inr (hremoved l hl)
    · exact Or.inl (List.mem_map.1 hl)
  have hpending : phase.pending = none := by
    rcases hphase with ⟨W, -, rfl⟩ | rfl <;> rfl
  refine Safe.set hr h.collection ?_ ⟨?_, ?_, ?_, ?_, ?_, ?_⟩ ?_ ?_ h.apart
  · intro l hl hreferred hstored
    rcases stored_of_save hfresh hstored with hstored | hunused
    · exact isSome_write (Or.inr (h.files l hl hreferred hstored))
    · exact absurd ((named_of_referred hreferred).symm.trans hunused.named) Bool.noConfusion
  · intro l hl
    rcases hholds l hl with ⟨e, he, rfl⟩ | hl
    · exact isOf_savedBy he
    · exact hl.1
  · intro l hl
    obtain ⟨e, he, rfl⟩ := hcreates l hl
    have hany : ((savedBy rt c x row).any fun e' => e'.1 = e.1) = true :=
      List.any_eq_true.2 ⟨e, he, decide_eq_true rfl⟩
    exact ⟨Bool.or_eq_true_iff.2 (Or.inr hany), isSome_write (Or.inl hany), (hfresh e he).named⟩
  · rintro V (hV | hV)
    · rcases hphase with ⟨W, hW, rfl⟩ | rfl
      · obtain rfl := Phase.saved.inj hV
        exact ⟨id_notMem_columns hc hW, (of_work hW).2.2⟩
      · cases hV
    · exact absurd (hpending.symm.trans hV) nofun
  · exact fun V hV => absurd (hpending.symm.trans hV) nofun
  · intro V final hV
    exact absurd (hpending.symm.trans (congrArg Phase.pending hV)) nofun
  · rintro V final hV
    rcases hphase with ⟨W, -, rfl⟩ | rfl <;> cases hV
  · exact fun p hp => (hothers p hp).save (hmem p hp) hfresh
  · refine fun p hp => ⟨?_, ?_, ?_⟩
    · intro l hl
      obtain ⟨e, he, rfl⟩ := hcreates l hl
      exact (hfresh e he).held p (hmem p hp)
    · intro l hl hl'
      rcases hholds l hl' with ⟨e, he, rfl⟩ | hl'
      · exact (hfresh e he).held p (hmem p hp) (holds_of_creates hl)
      · exact (hapart p hp).right l hl hl'
    · rintro id ⟨hl, -⟩
      unfold Running.locks at hl
      rw [hpending] at hl
      simp at hl

/-- A call removes files it knows that nothing refers to. -/
theorem Safe.clear {P : Location → Bool} (h : Safe K rt c s) (hr : s.procs[i]? = some r)
    (hholds : ∀ l, P l = true → Holds K rt c r l)
    (hP : ∀ l, P l = true → s.shared.stored l = true → referred K rt c s.shared.db l = false)
    {ok : Bool} :
    Safe K rt c ⟨{ s.shared with files := Cleanup.clear s.shared.files P },
      s.procs.set i ⟨r.call, .ended ok⟩⟩ := by
  have hothers := ((Pool.forall_procs hr).1 h.calls).2
  have hapart := ((Pool.pairwise_procs Apart.symm hr).1 h.apart).1
  refine Safe.set hr h.collection ?_ ⟨nofun, nofun, ?_, nofun, nofun, nofun⟩ ?_ ?_ h.apart
  · intro l hl hreferred hstored
    obtain ⟨b, hb⟩ := Option.isSome_iff_exists.1 (h.files l hl hreferred hstored)
    refine Option.isSome_iff_exists.2 ⟨b, clear_eq_some.2 ⟨Bool.eq_false_iff.2 fun hp => ?_, hb⟩⟩
    have hnot := hP l hp hstored
    rw [show referred K rt c s.shared.db l = true from hreferred] at hnot
    cases hnot
  · rintro V (hV | hV) <;> cases hV
  · refine fun p hp => (hothers p hp).clear fun l hl => Bool.eq_false_iff.2 fun hPl => ?_
    exact (hapart p hp).right l hl (hholds l hPl)
  · exact fun p hp => ⟨nofun, fun l _ => nofun, fun id hl => absurd hl.1 (by simp [Running.locks, Phase.pending])⟩

/-- The references to the files of a collection are those in its rows. -/
theorem references_eq {db : Db} (hc : IsIn c db) (hl : l.collectionId = c.id) :
    references K rt db l = referred K rt c db l := by
  rw [Bool.eq_iff_iff]
  constructor
  · intro h
    obtain ⟨d, hd, h⟩ := List.any_eq_true.1 h
    rw [Bool.and_eq_true, decide_eq_true_iff] at h
    obtain rfl := hc.unique d hd (h.1.trans hl)
    exact h.2
  · intro h
    refine List.any_eq_true.2 ⟨c, hc.mem, ?_⟩
    rw [decide_eq_true hl.symm, Bool.true_and]
    exact h

theorem Safe.move (hc : c.fieldMap.get? "id" = none) (h : Safe K rt c s) (hr : s.procs[i]? = some r)
    (hmove : Moves K rt c s i r S' r') (hcareful : Careful K rt c s r r') :
    Safe K rt c ⟨S', s.procs.set i r'⟩ := by
  have hcall := hmove.1
  have hdoes := does_of_moves hmove
  have hsafe := h.calls r (List.mem_of_getElem? hr)
  have hothers := ((Pool.forall_procs hr).1 h.calls).2
  have hapart := ((Pool.pairwise_procs Apart.symm hr).1 h.apart).1
  obtain ⟨call, phase⟩ := r
  obtain ⟨call', phase'⟩ := r'
  dsimp only at hcall hdoes
  subst hcall
  cases hdoes with
  | stops hp =>
    refine h.of_shared_eq hr ⟨nofun, nofun, ?_, nofun, nofun, nofun⟩ nofun (fun _ _ _ _ => nofun) ?_
    · rintro V (hV | hV) <;> cases hV
    · exact fun id hl => absurd hl (by simp [Running.locks, Phase.pending])
  | @reads row hrow =>
    refine h.of_shared_eq hr ⟨fun l hl => hl.1, nofun, ?_, nofun, nofun, nofun⟩ nofun ?_ ?_
    · rintro V (hV | hV) <;> cases hV
    · intro p hp l hl hholds
      have hnamed : named K rt c s.shared.db l = true := named_of_row (hholds.1.2 ▸ hrow) hholds.2
      exact absurd (hnamed.symm.trans ((hothers p hp).created l hl).2.2) Bool.noConfusion
    · exact fun id hl => absurd hl (by simp [Running.locks, Phase.pending])
  | @saves row W hfree hW =>
    exact h.save hc hr (hcareful.fresh row rfl nofun) (Or.inl ⟨W, hW, rfl⟩)
  | @refuses row hfree => exact h.save hc hr (hcareful.fresh row rfl nofun) (Or.inr rfl)
  | @updates W hwait =>
    refine h.of_shared_eq hr ⟨hsafe.own, hsafe.created, ?_, ?_, nofun, nofun⟩ (fun l hl => hl)
      (fun _ _ _ _ hl => hl) ?_
    · rintro V (hV | hV)
      · cases hV
      · exact hsafe.shape V (Or.inl (congrArg Phase.saved (Option.some.inj hV)))
    · intro V hV l hl hnamed hstored
      obtain rfl := Option.some.inj hV
      by_cases hnil : W.columns = []
      · exact Or.inl hnil
      · exact Or.inr (hcareful.kept W rfl rfl hnil l hl hnamed hstored)
    · intro id hl p hp
      unfold Running.locks at hl
      rw [show (Running.mk call' (.updated W)).phase.pending = some W from rfl, Option.any_some,
        Bool.and_eq_true, decide_eq_true_iff, decide_eq_true_iff] at hl
      exact hl.1 ▸ locks_eq_false hwait hl.2 p hp
  | @reread W =>
    refine h.of_shared_eq hr ⟨hsafe.own, hsafe.created, ?_, hsafe.pending, ?_, nofun⟩ (fun l hl => hl)
      (fun _ _ _ _ hl => hl) ?_
    · rintro V (hV | hV)
      · cases hV
      · exact hsafe.shape V (Or.inr hV)
    · intro V final hV l hl hfinal
      obtain ⟨rfl, rfl⟩ := Phase.referenced.inj hV
      have hwritten : IsIn c (written c s.shared.db call' W) := ⟨h.collection.mem, h.collection.unique⟩
      exact Or.inr ((references_eq hwritten (hsafe.own l hl).1).symm.trans hfinal)
    · exact fun id hl p hp => Bool.eq_false_iff.2 fun hp' => (hapart p hp).locks id ⟨hl, hp'⟩
  | commits => exact h.commit hr rfl rfl rfl
  | @clears W final =>
    exact h.clear hr (fun l hl => holds_of_clears rfl hl) (hsafe.cleared W final rfl)
  | @fails _ W hp =>
    have hcreates : ∀ l, l ∈ W.created → Creates ⟨call', phase⟩ l := by
      intro l hl
      rcases hp with rfl | hp
      · exact hl
      · cases phase with
        | updated V | referenced V => obtain rfl := Option.some.inj hp; exact hl
        | _ => cases hp
    refine h.of_shared_eq hr ⟨?_, ?_, ?_, nofun, nofun, nofun⟩ hcreates ?_ ?_
    · exact fun l hl => hsafe.own l (holds_of_creates (hcreates l hl))
    · exact fun l hl => hsafe.created l (hcreates l hl)
    · rintro V (hV | hV) <;> cases hV
    · exact fun p hp l _ hl => holds_of_creates (hcreates l hl)
    · exact fun id hl => absurd hl (by simp [Running.locks, Phase.pending])
  | @undoes created =>
    have hcreated : ∀ l, decide (l ∈ created) = true → l ∈ created := fun l hl => of_decide_eq_true hl
    refine h.clear hr hcreated fun l hl _ => Bool.eq_false_iff.2 fun hreferred => ?_
    have hnamed := (hsafe.created l (hcreated l hl)).2.2
    rw [named_of_referred hreferred] at hnamed
    cases hnamed

theorem Safe.arrive (h : Safe K rt c s) (hr : Starts r) : Safe K rt c ⟨s.shared, s.procs ++ [r]⟩ := by
  obtain ⟨call, phase⟩ := r
  obtain rfl : phase = .begun := hr
  refine ⟨h.collection, h.files, ?_, ?_⟩
  · intro p hp
    rcases List.mem_append.1 hp with hp | hp
    · exact h.calls p hp
    · rw [List.mem_singleton.1 hp]
      refine ⟨nofun, nofun, ?_, nofun, nofun, nofun⟩
      rintro V (hV | hV) <;> cases hV
  · refine List.pairwise_append.2 ⟨h.apart, List.pairwise_singleton _ _, ?_⟩
    intro p _ q hq
    rw [List.mem_singleton.1 hq]
    exact ⟨fun l _ => nofun, nofun, fun id hl => absurd hl.2 (by simp [Running.locks, Phase.pending])⟩

theorem Safe.step (hc : c.fieldMap.get? "id" = none) {t : State} (h : Safe K rt c s)
    (hstep : Pool.Step Starts (MovesCareful K rt c) s t) : Safe K rt c t := by
  cases hstep with
  | arrive hstart => exact h.arrive hstart
  | move hr hmove => exact h.move hc hr hmove.1 hmove.2

end

/-- In every run of careful updates, what has been stored for the committed rows is there. -/
theorem no_dangling (K : Codec) (rt : Runtime) {c : Collection} {db : Db}
    (files : Store Location (List UInt8)) (hc : IsIn c db) (hid : c.fieldMap.get? "id" = none)
    {s : State} (hrun : Pool.Run Starts (MovesCareful K rt c) (start db files) s) (l : Location)
    (hl : l.collectionId = c.id) (hreferred : references K rt s.shared.db l = true)
    (hstored : s.shared.stored l = true) : (s.shared.files l).isSome = true := by
  have hstart : Safe K rt c (start db files) := ⟨hc, fun _ _ _ h => h,
    fun _ h => absurd h List.not_mem_nil, .nil⟩
  have hsafe := hrun.invariant (I := Safe K rt c) (fun h hstep => h.step hid hstep) hstart
  rw [references_eq hsafe.collection hl] at hreferred
  exact hsafe.files l hl hreferred hstored

/-! ## Two updates of one record -/

/-- A collection with files. -/
def folders : Collection where
  id := "folders"
  name := "folders"
  schema := [{ name := "docs", type := .file, options := { maxSelect := some 5 } }]

def folderRow : Row := [("id", .text "f1"), ("docs", .list [.text "a.txt"])]

def oneFolder : Db := ⟨[folders], [("folders", ⟨["id", "docs"], [folderRow]⟩)]⟩

def fileA : Location := ⟨"folders", "f1", "a.txt"⟩

def fileB : Location := ⟨"folders", "f1", "b.txt"⟩

def storedA : Store Location (List UInt8) := fun l => if l = fileA then some [97] else none

/-- A call that adds a file to the folder. -/
def addB : Call where
  writer := Writer.simple
  id := "f1"
  data := []
  files := [("docs+", [⟨"b.txt", [98]⟩])]

/-- A call that takes the file out of the folder. -/
def removeA : Call where
  writer := Writer.simple
  id := "f1"
  data := [("docs-", .text "a.txt")]
  files := []

def addedB : Work where
  row := folderRow
  columns := [("updated", .time 0), ("docs", .list [.text "a.txt", .text "b.txt"])]
  created := [fileB]
  removed := []

def removedA : Work where
  row := folderRow
  columns := [("updated", .time 0), ("docs", .list [])]
  created := []
  removed := [fileA]

/-- What the two calls are about to do. -/
theorem work_folders : work plainCodec .simple folders addB folderRow = some addedB ∧
    work plainCodec .simple folders removeA folderRow = some removedA ∧
    savedBy .simple folders addB folderRow = [(fileB, [98])] ∧
    savedBy .simple folders removeA folderRow = [] := by
  decide

theorem savedBy_addB : savedBy .simple folders addB folderRow = [(fileB, [98])] :=
  work_folders.2.2.1

/-- What is shared before the calls. -/
def atStart : Shared := (start oneFolder storedA).shared

/-- Both files are stored. -/
def bothStored : Shared := save .simple folders atStart addB folderRow

def finalOf (S : Shared) (x : Call) (W : Work) : Location → Bool :=
  references plainCodec .simple (written folders S.db x W)

def committedBy (S : Shared) (x : Call) (W : Work) : Shared :=
  { S with db := written folders S.db x W }

def clearedBy (S : Shared) (W : Work) (final : Location → Bool) : Shared :=
  { S with files := clear S.files (W.clears final) }

theorem unused_fileB : Unused plainCodec .simple folders ⟨atStart, [⟨addB, .read folderRow⟩]⟩ fileB where
  stored := by decide
  named := by decide
  held := by
    intro r hr hholds
    obtain rfl := List.mem_singleton.1 hr
    have hnot : fileB.filename ∉ rowNames plainCodec .simple folders folderRow := by decide
    exact hnot hholds.2
  written := by
    intro r hr W hW
    obtain rfl := List.mem_singleton.1 hr
    cases hW

theorem stored_bothStored {l : Location} (h : bothStored.stored l = true) : l = fileA ∨ l = fileB := by
  rcases Bool.or_eq_true_iff.1 h with h | h
  · left
    by_contra hne
    rw [show atStart.stored l = (storedA l).isSome from rfl, storedA, if_neg hne] at h
    cases h
  · rw [savedBy_addB, List.any_cons, List.any_nil, Bool.or_false, decide_eq_true_iff] at h
    exact Or.inr h.symm

/-- A file is added to the folder, and both files are there. -/
theorem added_file_there : ∃ s, Pool.Run Starts (MovesCareful plainCodec .simple folders)
      (start oneFolder storedA) s ∧ references plainCodec .simple s.shared.db fileB = true ∧
    (s.shared.files fileB).isSome = true := by
  have hstep : ∀ {S S' : Shared} {p p' : Phase},
      waits ⟨S, [⟨addB, p⟩]⟩ 0 ⟨addB, p⟩ = false → namesFree .simple folders S ⟨addB, p⟩ →
      next plainCodec .simple folders S addB p = some (S', p') →
      Careful plainCodec .simple folders ⟨S, [⟨addB, p⟩]⟩ ⟨addB, p⟩ ⟨addB, p'⟩ →
      Pool.Step Starts (MovesCareful plainCodec .simple folders) ⟨S, [⟨addB, p⟩]⟩ ⟨S', [⟨addB, p'⟩]⟩ :=
    fun hwait hfree hnext hcareful =>
      .move (i := 0) rfl ⟨moves_of_next hwait hfree hnext, hcareful⟩
  have h₀ : Pool.Step Starts (MovesCareful plainCodec .simple folders) (start oneFolder storedA)
      ⟨atStart, [⟨addB, .begun⟩]⟩ := .arrive rfl
  have h₁ := @hstep atStart atStart .begun (.read folderRow) rfl nofun rfl ⟨nofun, nofun⟩
  have h₂ := @hstep atStart bothStored (.read folderRow) (.saved addedB) rfl ?_ (next_read work_folders.1)
    ⟨?_, nofun⟩
  rotate_left
  · intro row hrow e he
    obtain rfl := Phase.read.inj hrow
    rw [savedBy_addB] at he
    rw [List.mem_singleton.1 he]
    decide
  · intro row hrow _ e he
    obtain rfl := Phase.read.inj hrow
    rw [savedBy_addB] at he
    rw [List.mem_singleton.1 he]
    exact unused_fileB
  have h₃ := @hstep bothStored bothStored (.saved addedB) (.updated addedB) rfl nofun rfl ⟨nofun, ?_⟩
  rotate_left
  · intro W hW _ _ l _ _ hstored
    obtain rfl := Phase.saved.inj hW
    rcases stored_bothStored hstored with rfl | rfl
    · exact Or.inr (by decide)
    · exact Or.inl (List.mem_singleton_self _)
  have h₄ := @hstep bothStored bothStored (.updated addedB)
    (.referenced addedB (finalOf bothStored addB addedB)) rfl nofun rfl ⟨nofun, nofun⟩
  have h₅ := @hstep bothStored (committedBy bothStored addB addedB)
    (.referenced addedB (finalOf bothStored addB addedB))
    (.committed addedB (finalOf bothStored addB addedB)) rfl nofun rfl ⟨nofun, nofun⟩
  have h₆ := @hstep (committedBy bothStored addB addedB)
    (clearedBy (committedBy bothStored addB addedB) addedB (finalOf bothStored addB addedB))
    (.committed addedB (finalOf bothStored addB addedB)) (.ended true) rfl nofun rfl ⟨nofun, nofun⟩
  have hrun := ((((((Relation.ReflTransGen.single h₀).tail h₁).tail h₂).tail h₃).tail h₄).tail h₅).tail h₆
  have hreferred : references plainCodec .simple (committedBy bothStored addB addedB).db fileB = true := by
    decide
  have hin : IsIn folders oneFolder :=
    ⟨List.mem_singleton_self _, fun d hd _ => List.mem_singleton.1 hd⟩
  refine ⟨_, hrun, hreferred, ?_⟩
  exact no_dangling plainCodec .simple storedA hin rfl hrun fileB rfl hreferred (by decide)

/-- One call takes the file out of the folder while another, which has read the row before, adds a
second one : the row gets the first file back, and the file is removed. -/
theorem file_lost : ¬∀ s, Pool.Run Starts (Moves plainCodec .simple folders)
    (start oneFolder storedA) s → (∀ r ∈ s.procs, r.phase = .ended true) → ∀ l,
      l.collectionId = folders.id → references plainCodec .simple s.shared.db l = true →
      s.shared.stored l = true → (s.shared.files l).isSome = true := by
  intro h
  have hfirst : ∀ {S S' : Shared} {a a' b : Phase},
      waits ⟨S, [⟨removeA, a⟩, ⟨addB, b⟩]⟩ 0 ⟨removeA, a⟩ = false →
      namesFree .simple folders S ⟨removeA, a⟩ →
      next plainCodec .simple folders S removeA a = some (S', a') →
      Pool.Step Starts (Moves plainCodec .simple folders) ⟨S, [⟨removeA, a⟩, ⟨addB, b⟩]⟩
        ⟨S', [⟨removeA, a'⟩, ⟨addB, b⟩]⟩ :=
    fun hwait hfree hnext => .move (i := 0) rfl (moves_of_next hwait hfree hnext)
  have hsecond : ∀ {S S' : Shared} {a b b' : Phase},
      waits ⟨S, [⟨removeA, a⟩, ⟨addB, b⟩]⟩ 1 ⟨addB, b⟩ = false →
      namesFree .simple folders S ⟨addB, b⟩ →
      next plainCodec .simple folders S addB b = some (S', b') →
      Pool.Step Starts (Moves plainCodec .simple folders) ⟨S, [⟨removeA, a⟩, ⟨addB, b⟩]⟩
        ⟨S', [⟨removeA, a⟩, ⟨addB, b'⟩]⟩ :=
    fun hwait hfree hnext => .move (i := 1) rfl (moves_of_next hwait hfree hnext)
  have hfree : ∀ {S : Shared}, S.files fileB = none →
      namesFree .simple folders S ⟨addB, .read folderRow⟩ := by
    intro S hS row hrow e he
    obtain rfl := Phase.read.inj hrow
    rw [savedBy_addB] at he
    rw [List.mem_singleton.1 he]
    exact hS
  have hfree' : namesFree .simple folders bothStored ⟨removeA, .read folderRow⟩ := by
    intro row hrow e he
    obtain rfl := Phase.read.inj hrow
    rw [work_folders.2.2.2] at he
    cases he
  let S₁ := save .simple folders bothStored removeA folderRow
  let finalA := finalOf S₁ removeA removedA
  let S₂ := committedBy S₁ removeA removedA
  let S₃ := clearedBy S₂ removedA finalA
  let finalB := finalOf S₃ addB addedB
  let S₄ := committedBy S₃ addB addedB
  let S₅ := clearedBy S₄ addedB finalB
  have a₀ : Pool.Step Starts (Moves plainCodec .simple folders) (start oneFolder storedA)
      ⟨atStart, [⟨removeA, .begun⟩]⟩ := .arrive rfl
  have a₁ : Pool.Step Starts (Moves plainCodec .simple folders) ⟨atStart, [⟨removeA, .begun⟩]⟩
      ⟨atStart, [⟨removeA, .begun⟩, ⟨addB, .begun⟩]⟩ := .arrive rfl
  have f₁ := @hfirst atStart atStart .begun (.read folderRow) .begun rfl nofun rfl
  have s₁ := @hsecond atStart atStart (.read folderRow) .begun (.read folderRow) rfl nofun rfl
  have s₂ := @hsecond atStart bothStored (.read folderRow) (.read folderRow) (.saved addedB) rfl
    (hfree (by decide)) (next_read work_folders.1)
  have f₂ := @hfirst bothStored S₁ (.read folderRow) (.saved removedA) (.saved addedB) rfl hfree'
    (next_read work_folders.2.1)
  have f₃ := @hfirst S₁ S₁ (.saved removedA) (.updated removedA) (.saved addedB) rfl nofun rfl
  have f₄ := @hfirst S₁ S₁ (.updated removedA) (.referenced removedA finalA) (.saved addedB) rfl nofun
    rfl
  have f₅ := @hfirst S₁ S₂ (.referenced removedA finalA) (.committed removedA finalA) (.saved addedB)
    rfl nofun rfl
  have f₆ := @hfirst S₂ S₃ (.committed removedA finalA) (.ended true) (.saved addedB) rfl nofun rfl
  have s₃ := @hsecond S₃ S₃ (.ended true) (.saved addedB) (.updated addedB) rfl nofun rfl
  have s₄ := @hsecond S₃ S₃ (.ended true) (.updated addedB) (.referenced addedB finalB) rfl nofun rfl
  have s₅ := @hsecond S₃ S₄ (.ended true) (.referenced addedB finalB) (.committed addedB finalB) rfl
    nofun rfl
  have s₆ := @hsecond S₄ S₅ (.ended true) (.committed addedB finalB) (.ended true) rfl nofun rfl
  have hrun := (((((((((((((Relation.ReflTransGen.single a₀).tail a₁).tail f₁).tail s₁).tail s₂).tail
    f₂).tail f₃).tail f₄).tail f₅).tail f₆).tail s₃).tail s₄).tail s₅).tail s₆
  have hthere := h _ hrun ?_ fileA rfl (by decide) (by decide +kernel)
  · exact absurd hthere (by decide)
  · intro r hr
    rcases List.mem_cons.1 hr with rfl | hr
    · rfl
    · exact List.mem_singleton.1 hr ▸ rfl

end SharedFiles

end PPBase
