import PPBase.Counters
import PPBase.ListEdits
import PPBase.SharedFiles

/-!
# The names in file fields

`create_record` and `update_record` store uploads and put their names in the file fields. A file
field also takes names from the body : a value, or a list that a modifier key adds. These are
checked by `_validate_file`, which asks for the form of the name and not for a stored file. So a
committed row names only files of its own (`NamesStored`) when the body leaves no other name in a
field. What the body leaves there is told by its keys, in order (`CreateGives`, `UpdateGives`, over
`ListEdit`), and that is exactly what the rows depend on (`namesStored_iff`).
-/

namespace PPBase

namespace FileNames

open RecordStore Files Storage Updates Counters

section

variable (K : Codec) (rt : Runtime) (required : Field → Bool) (w : Writer) (c : Collection)

/-- `_validate_file` -/
def validateFile (f : Field) (v : Value) : Except FieldError Value :=
  let names := rawFileList rt v
  if names.all fun n => isRemote K n || isFileReference n then
    if 1 < f.maxSelect then
      if required f ∧ names = [] then .error .required
      else if f.maxSelect < names.length then
        .error ⟨"validation_max_select_constraint",
          "Must select at most ".toList ++ (toString f.maxSelect).toList ++ " file(s).".toList⟩
      else .ok (.list (names.map .text))
    else if required f ∧ names.getLastD [] = [] then .error .required
    else .ok (.text (names.getLastD []))
  else .error ⟨"validation_invalid_filename", "Must be a valid stored filename."⟩

/-- The writer with `_validate_file` for the file fields. -/
def checking : Writer :=
  { w with
    checkField f v := if f.type = .file then validateFile K rt required f v else w.checkField f v }

/-- A file field, none of the columns that the system has of its own. -/
structure IsFileField (k : Text) (f : Field) : Prop where
  field : fileField? c k = some f
  own : k ∉ systemColumns c
  written : writesField c f = true

/-- A name that an upload is saved under. -/
def Saved (files : Dict Text (List Upload)) (n : Text) : Prop :=
  ∃ e ∈ files, ∃ f, fileField? c e.1 = some f ∧ uploadsPass w f e.2 = true ∧ n ∈ w.saveFiles e.1 e.2

/-- Every local name in a file field of `row` is the name of a saved upload, or was in the same
field of `before`. -/
def NamesStored (files : Dict Text (List Upload)) (before row : Row) : Prop :=
  ∀ k f, IsFileField c k f → ∀ n ∈ rawFileList rt (getKey row k), isRemote K n = false →
    Saved w c files n ∨ n ∈ rawFileList rt (getKey before k)

/-- The columns of file fields hold texts. -/
def TextColumns (row : Row) : Prop :=
  ∀ k f, IsFileField c k f → (∀ b, getKey row k ≠ .bool b) ∧ ∀ q, getKey row k ≠ .num q

/-! ## What the body gives -/

/-- The payload of a creation gives a field without uploads the name, and a field for one file
takes the last. -/
structure CreateGives (data : Row) (files : Dict Text (List Upload)) (k : Text) (f : Field)
    (n : Text) : Prop where
  noUploads : ¬Saves w c files k
  kept : k ∉ takenKeys c
  given : if 1 < f.maxSelect then n ∈ rawFileList rt (getKey data k)
    else (rawFileList rt (getKey data k)).getLast? = some n

/-- What a key of the payload does to the names in the field. -/
def bodyEdit (k : Text) (e : Text × Value) : Option (ListEdit Text) :=
  if e.1 = "id".toList ∨ (parseModifierKey e.1).1 ≠ k then none
  else
    match (parseModifierKey e.1).2 with
    | none => some (.set (rawFileList rt e.2))
    | some .append => some (.append (rawFileList rt e.2))
    | some .prepend => some (.prepend (rawFileList rt e.2))
    | some .remove => some (.remove ((modifierValues e.2).map (Macros.idText rt)))

/-- What a key of the uploads does to the names in the field. -/
def uploadEdit (f : Field) (k : Text) (e : Text × List Upload) : Option (ListEdit Text) :=
  if (parseModifierKey e.1).1 ≠ k ∨ uploadsPass w f e.2 = false then none
  else
    let names := w.saveFiles k e.2
    match (parseModifierKey e.1).2 with
    | some .append => some (.append (names.filter (· ≠ [])))
    | some .prepend => some (.prepend (names.filter (· ≠ [])))
    | _ => some (.set (rawFileList rt (coerceFileValue f names)))

/-- What the payload of an update does to the names in the field. -/
def bodyEdits (data : Row) (k : Text) : List (ListEdit Text) :=
  ((updateTakenKeys c data).foldl Dict.del data).filterMap (bodyEdit rt k)

/-- What the uploads do to the names in the field, afterwards. -/
def uploadEdits (files : Dict Text (List Upload)) (k : Text) (f : Field) : List (ListEdit Text) :=
  files.filterMap (uploadEdit rt w f k)

/-- A key of an update's payload gives the field the name, and no later key or upload takes it out.
In a field for one file, nothing that stays comes behind it. -/
def UpdateGives (row data : Row) (files : Dict Text (List Upload)) (k : Text) (f : Field)
    (n : Text) : Prop :=
  if 1 < f.maxSelect then ListEdit.Leaves (bodyEdits rt c data k) (uploadEdits rt w files k f) n
  else ListEdit.Ends (bodyEdits rt c data k) (uploadEdits rt w files k f)
    (rawFileList rt (getKey row k)) n

end

/-! ## Values and their names -/

section

variable {K : Codec} {rt : Runtime} {required : Field → Bool} {w : Writer} {c : Collection}
  {k : Text} {f : Field} {row data state state' : Row} {files : Dict Text (List Upload)}
  {v v' : Value}

theorem rawFileList_list (vs : List Value) :
    rawFileList rt (.list vs) = (vs.filter Value.truthy).map (Macros.idText rt) := rfl

theorem rawFileList_one (hv : ∀ vs, v ≠ .list vs) :
    rawFileList rt v = rawFileList rt (.list [v]) := by
  have hsingle : rawFileList rt v = if v.truthy then [Macros.idText rt v] else [] := by
    cases v with
    | list vs => exact absurd rfl (hv vs)
    | _ => rfl
  rw [hsingle, rawFileList_list, List.filter_cons]
  split_ifs <;> rfl

theorem rawFileList_text (s : Text) : rawFileList rt (.text s) = if s = [] then [] else [s] := by
  cases s with
  | nil => rfl
  | cons ch s => rfl

theorem rawFileList_texts (names : List Text) :
    rawFileList rt (.list (names.map .text)) = names.filter (· ≠ []) := by
  rw [rawFileList_list]
  induction names with
  | nil => rfl
  | cons n names ih =>
    rw [List.map_cons, List.filter_cons, List.filter_cons]
    by_cases hn : n = []
    · rw [if_neg (by simp [Value.truthy, hn]), if_neg (by simp [hn]), ih]
    · rw [if_pos (by simp [Value.truthy, hn]), if_pos (by simp [hn]), List.map_cons, ih]
      rfl

theorem rawFileList_modifierValues (v : Value) :
    rawFileList rt (.list (modifierValues v)) = rawFileList rt v := by
  cases v with
  | list vs => rfl
  | null => rfl
  | _ => exact (rawFileList_one (by simp)).symm

theorem rawFileList_coerce (v : Value) :
    rawFileList rt (.list (coerceModifierValues v)) = rawFileList rt v := by
  cases v with
  | list vs => rfl
  | null => rfl
  | text s =>
    cases s with
    | nil => rfl
    | cons ch s => rfl
  | _ => exact (rawFileList_one (by simp)).symm

/-- A modifier that adds some names, or removes some. -/
def modifierEdit (added removed : List Text) : KeyModifier → ListEdit Text
  | .append => .append added
  | .prepend => .prepend added
  | .remove => .remove removed

/-- A modifier on the values of a file field, seen on their names. -/
theorem rawFileList_applyModifier {m : KeyModifier} {new : Value} (hf : f.type = .file)
    (h : applyModifier rt f m v new = .ok v') :
    rawFileList rt v' = (modifierEdit (rawFileList rt new)
      ((modifierValues new).map (Macros.idText rt)) m).apply (rawFileList rt v) := by
  have hn : f.type ≠ .number := by
    rw [hf]
    decide
  unfold applyModifier at h
  rw [if_neg hn] at h
  dsimp only at h
  rw [← rawFileList_coerce v, ← rawFileList_modifierValues new]
  cases m with
  | append =>
    obtain rfl := Except.ok.inj h
    simp only [rawFileList_list, List.filter_append, List.map_append, modifierEdit, ListEdit.apply]
  | prepend =>
    obtain rfl := Except.ok.inj h
    simp only [rawFileList_list, List.filter_append, List.map_append, modifierEdit, ListEdit.apply]
  | remove =>
    obtain rfl := Except.ok.inj h
    simp only [rawFileList_list, modifierEdit, ListEdit.apply, List.filter_map, List.filter_filter]
    congr 1
    exact List.filter_congr fun x _ => by simp [Bool.and_comm]

/-! ## The state of a field -/

/-- A field's names while the payload is applied. -/
def Names (rt : Runtime) (k : Text) (state : Row) (names : List Text) : Prop :=
  ∃ v, state.get? k = some v ∧ rawFileList rt v = names

theorem type_of_fileField? (h : fileField? c k = some f) :
    c.fieldMap.get? k = some f ∧ f.type = .file := by
  unfold fileField? at h
  rw [Option.filter_eq_some_iff] at h
  exact ⟨h.1, of_decide_eq_true h.2⟩

theorem getKey_set_self : getKey (state.set k v) k = v := by
  rw [getKey, Dict.get?_set_self]
  rfl

theorem names_applyKey (hf : fileField? c k = some f) {names : List Text} {e : Text × Value}
    (hs : Names rt k state names) (h : applyKey rt c state e = .ok state') :
    Names rt k state' (ListEdit.run (bodyEdit rt k e).toList names) := by
  obtain ⟨hfield, htype⟩ := type_of_fileField? hf
  unfold applyKey at h
  unfold bodyEdit
  by_cases hid : e.1 = "id".toList
  · rw [if_pos hid] at h
    rw [if_pos (Or.inl hid), ← Except.ok.inj h]
    exact hs
  rw [if_neg hid] at h
  rcases hparse : parseModifierKey e.1 with ⟨name, m⟩
  rw [hparse] at h
  dsimp only at h ⊢
  by_cases hname : name = k
  · subst hname
    rw [if_neg (not_or.2 ⟨hid, not_not.2 rfl⟩)]
    rw [hfield] at h
    dsimp only at h
    rw [if_neg (by rw [htype]; decide)] at h
    obtain ⟨v, hv, rfl⟩ := hs
    cases m with
    | none =>
      obtain rfl := Except.ok.inj h
      exact ⟨e.2, Dict.get?_set_self _ _ _, rfl⟩
    | some m =>
      obtain ⟨v', hv', rfl⟩ := Failing.map_eq_ok.1 h
      rw [show getKey state name = v from by rw [getKey, hv]; rfl] at hv'
      refine ⟨v', Dict.get?_set_self _ _ _, ?_⟩
      rw [rawFileList_applyModifier htype hv']
      cases m with
      | append => rfl
      | prepend => rfl
      | remove => rfl
  · rw [if_pos (Or.inr hname)]
    obtain ⟨v, hv, hnames⟩ := hs
    have hset : ∀ v', (state.set name v').get? k = some v := fun v' => by
      rw [Dict.get?_set_ne _ _ hname, hv]
    split at h
    · rw [← Except.ok.inj h]
      exact ⟨v, hv, hnames⟩
    · split_ifs at h
      · rw [← Except.ok.inj h]
        exact ⟨v, hv, hnames⟩
      · split at h
        · obtain ⟨v', -, rfl⟩ := Failing.map_eq_ok.1 h
          exact ⟨v, hset _, hnames⟩
        · obtain rfl := Except.ok.inj h
          exact ⟨v, hset _, hnames⟩

theorem names_applyUploads (hf : fileField? c k = some f) {names : List Text}
    {e : Text × List Upload} (hs : Names rt k state names)
    (h : applyUploads w rt c state e = .ok state') :
    Names rt k state' (ListEdit.run (uploadEdit rt w f k e).toList names) := by
  obtain ⟨hfield, htype⟩ := type_of_fileField? hf
  unfold applyUploads at h
  unfold uploadEdit
  rcases hparse : parseModifierKey e.1 with ⟨name, m⟩
  rw [hparse] at h
  dsimp only at h ⊢
  obtain ⟨v, hv, rfl⟩ := hs
  by_cases hname : name = k
  · subst hname
    rw [hf] at h
    dsimp only at h
    by_cases hpass : uploadsPass w f e.2 = true
    · rw [if_neg (not_or.2 ⟨not_not.2 rfl, by rw [hpass]; decide⟩)]
      rw [if_pos hpass] at h
      have hmodified : ∀ m v', applyModifier rt f m (getKey state name)
          (.list ((w.saveFiles name e.2).map .text)) = .ok v' → rawFileList rt v' =
            (modifierEdit ((w.saveFiles name e.2).filter (· ≠ []))
              (((w.saveFiles name e.2).map Value.text).map (Macros.idText rt)) m).apply
                (rawFileList rt v) := by
        intro m v' hv'
        rw [show getKey state name = v from by rw [getKey, hv]; rfl] at hv'
        rw [rawFileList_applyModifier htype hv', rawFileList_texts]
        rfl
      cases m with
      | none =>
        obtain rfl := Except.ok.inj h
        exact ⟨_, Dict.get?_set_self _ _ _, rfl⟩
      | some m =>
        cases m with
        | append =>
          obtain ⟨v', hv', rfl⟩ := Failing.map_eq_ok.1 h
          exact ⟨v', Dict.get?_set_self _ _ _, hmodified .append v' hv'⟩
        | prepend =>
          obtain ⟨v', hv', rfl⟩ := Failing.map_eq_ok.1 h
          exact ⟨v', Dict.get?_set_self _ _ _, hmodified .prepend v' hv'⟩
        | remove =>
          obtain rfl := Except.ok.inj h
          exact ⟨_, Dict.get?_set_self _ _ _, rfl⟩
    · rw [if_pos (Or.inr (Bool.not_eq_true _ ▸ hpass))]
      rw [if_neg hpass] at h
      rw [← Except.ok.inj h]
      exact ⟨v, hv, rfl⟩
  · rw [if_pos (Or.inl hname)]
    have hset : ∀ v', (state.set name v').get? k = some v := fun v' => by
      rw [Dict.get?_set_ne _ _ hname, hv]
    split at h
    · rw [← Except.ok.inj h]
      exact ⟨v, hv, rfl⟩
    · split_ifs at h
      · split at h
        · obtain ⟨v', -, rfl⟩ := Failing.map_eq_ok.1 h
          exact ⟨v, hset _, rfl⟩
        · obtain ⟨v', -, rfl⟩ := Failing.map_eq_ok.1 h
          exact ⟨v, hset _, rfl⟩
        · obtain rfl := Except.ok.inj h
          exact ⟨v, hset _, rfl⟩
      · rw [← Except.ok.inj h]
        exact ⟨v, hv, rfl⟩

/-- A fold of steps that each make an edit makes the run of the edits. -/
theorem names_foldlM {α : Type} {step : Row → α → Except WriteError Row}
    {edit : α → Option (ListEdit Text)}
    (hstep : ∀ (state state' : Row) (e : α) (names : List Text), Names rt k state names →
      step state e = .ok state' → Names rt k state' (ListEdit.run (edit e).toList names)) :
    ∀ {es : List α} {state state' : Row} {names : List Text}, Names rt k state names →
      es.foldlM step state = .ok state' → Names rt k state' (ListEdit.run (es.filterMap edit) names)
  | [], _, _, _, hs, h => by
    rw [← Except.ok.inj h]
    exact hs
  | e :: es, state, state', names, hs, h => by
    rw [List.foldlM_cons] at h
    obtain ⟨mid, hmid, h⟩ := Failing.bind_eq_ok.1 h
    have hnext := names_foldlM hstep (hstep _ _ _ _ hs hmid) h
    rw [← ListEdit.run_append] at hnext
    rw [List.filterMap_cons]
    cases he : edit e with
    | none =>
      rw [he] at hnext
      exact hnext
    | some edit =>
      rw [he] at hnext
      exact hnext

/-- The names of a field in the end : the edits of the payload, then those of the uploads. -/
theorem names_fieldState (hf : fileField? c k = some f)
    (h : fieldState w rt c row ((updateTakenKeys c data).foldl Dict.del data) files = .ok state) :
    Names rt k state (ListEdit.run (bodyEdits rt c data k ++ uploadEdits rt w files k f)
      (rawFileList rt (getKey row k))) := by
  obtain ⟨hfield, htype⟩ := type_of_fileField? hf
  obtain ⟨hschema, rfl⟩ := SharedFiles.schema_of_fieldMap hfield
  unfold fieldState at h
  obtain ⟨mid, hmid, h⟩ := Failing.bind_eq_ok.1 h
  rw [ListEdit.run_append]
  have hstart : Names rt f.name (initialState c row) (rawFileList rt (getKey row f.name)) :=
    ⟨_, get?_initialState hfield (by rw [htype]; decide), rfl⟩
  have hbody : Names rt f.name mid
      (ListEdit.run (bodyEdits rt c data f.name) (rawFileList rt (getKey row f.name))) :=
    names_foldlM (fun _ _ _ _ hs hstep => names_applyKey hf hs hstep) hstart hmid
  exact names_foldlM (fun _ _ _ _ hs hstep => names_applyUploads hf hs hstep) hbody h

/-! ## The committed column -/

/-- The names that a field takes from its value. -/
def Takes (f : Field) (names : List Text) (n : Text) : Prop :=
  if 1 < f.maxSelect then n ∈ names else names.getLast? = some n

variable {n id : Text} {db db' : Db}

theorem Takes.mem {names : List Text} (h : Takes f names n) : n ∈ names := by
  unfold Takes at h
  split_ifs at h
  · exact h
  · exact List.mem_of_getLast? h

/-- The local names of a checked value are those that the field takes. -/
theorem of_validateFile (h : validateFile K rt required f v = .ok v') (hn : isRemote K n = false) :
    n ∈ rawFileList rt v' ↔ Takes f (rawFileList rt v) n := by
  unfold validateFile at h
  dsimp only at h
  split_ifs at h with hvalid hmulti hnone hmany hblank
  · obtain rfl := Except.ok.inj h
    have hne : n ∈ rawFileList rt v → n ≠ [] := by
      rintro hmem rfl
      have href := List.all_eq_true.1 hvalid _ hmem
      rw [hn, Bool.false_or] at href
      exact absurd href (by decide)
    rw [rawFileList_texts, Takes, if_pos hmulti, List.mem_filter, decide_eq_true_iff]
    exact and_iff_left_of_imp hne
  · obtain rfl := Except.ok.inj h
    rw [Takes, if_neg hmulti]
    cases hlast : (rawFileList rt v).getLast? with
    | none =>
      rw [List.getLast?_eq_none_iff.1 hlast]
      exact iff_of_false List.not_mem_nil fun h => by cases h
    | some m =>
      have hlastD : (rawFileList rt v).getLastD [] = m := by
        rw [List.getLastD_eq_getLast?, hlast]
        rfl
      have hne : m = n → m ≠ [] := by
        rintro rfl rfl
        have href := List.all_eq_true.1 hvalid _ (List.mem_of_getLast? hlast)
        rw [hn, Bool.false_or] at href
        exact absurd href (by decide)
      rw [hlastD, rawFileList_text]
      split_ifs with hm
      · exact iff_of_false List.not_mem_nil fun heq => hne (Option.some.inj heq) hm
      · rw [List.mem_singleton, Option.some_inj, eq_comm]

/-- The column that a creation writes for a file field. -/
theorem get?_fieldColumns {payload : Row} (hf : IsFileField c k f) {d : Draft}
    (herrors : (c.schema.foldl (fieldColumn (checking K rt required w) c payload) d).errors = []) :
    ∃ v, validateFile K rt required f (getKey payload k) = .ok v ∧
      (c.schema.foldl (fieldColumn (checking K rt required w) c payload) d).columns.get? k =
        some v := by
  obtain ⟨hfield, htype⟩ := type_of_fileField? hf.field
  obtain ⟨v, hv, hcolumn⟩ := get?_writtenFields hfield hf.written herrors
  have hcheck : (checking K rt required w).checkField f (getKey payload k) =
      validateFile K rt required f (getKey payload k) := if_pos htype
  exact ⟨v, hcheck.symm.trans hv, hcolumn⟩

/-- A field of the payload of a creation : its saved uploads, or what the payload had. -/
theorem getKey_putUploads (hf : fileField? c k = some f) :
    ∀ (files : Dict Text (List Upload)) (data : Row),
      (¬Saves w c files k ∧ getKey (putUploads w c files data) k = getKey data k) ∨
        Saves w c files k ∧
          ∀ n ∈ rawFileList rt (getKey (putUploads w c files data) k), Saved w c files n := by
  intro files
  induction files using List.reverseRecOn with
  | nil =>
    refine fun data => Or.inl ⟨?_, rfl⟩
    rintro ⟨e, he, -⟩
    cases he
  | append_singleton files e ih =>
    intro data
    have hput : putUploads w c (files ++ [e]) data = putUpload w c (putUploads w c files data) e :=
      List.foldl_append ..
    have hmono : ∀ n, Saved w c files n → Saved w c (files ++ [e]) n :=
      fun n ⟨e', he', h⟩ => ⟨e', List.mem_append_left _ he', h⟩
    rw [hput]
    by_cases hsaves : e.1 = k ∧ uploadsPass w f e.2 = true
    · obtain ⟨rfl, hpass⟩ := hsaves
      refine Or.inr ⟨⟨e, List.mem_append_right _ List.mem_cons_self, rfl, f, hf, hpass⟩, ?_⟩
      intro n hn
      refine ⟨e, List.mem_append_right _ List.mem_cons_self, f, hf, hpass, ?_⟩
      have hvalue : getKey (putUpload w c (putUploads w c files data) e) e.1 =
          savedValue f (w.saveFiles e.1 e.2) := by
        unfold putUpload
        rw [hf]
        dsimp only
        rw [if_pos hpass, getKey_set_self]
      rw [hvalue] at hn
      unfold savedValue at hn
      split_ifs at hn
      · cases hnames : w.saveFiles e.1 e.2 with
        | nil =>
          rw [hnames] at hn
          cases hn
        | cons m ms =>
          have hm : n = m := by
            rw [hnames, List.headD_cons, rawFileList_text] at hn
            split_ifs at hn
            · cases hn
            · exact List.mem_singleton.1 hn
          rw [hm]
          exact List.mem_cons_self
      · rw [rawFileList_texts] at hn
        exact (List.mem_filter.1 hn).1
    · have hsame : getKey (putUpload w c (putUploads w c files data) e) k =
          getKey (putUploads w c files data) k := by
        unfold putUpload
        cases hg : fileField? c e.1 with
        | none => rfl
        | some g =>
          dsimp only
          split_ifs with hpass
          · have hne : e.1 ≠ k := by
              rintro rfl
              obtain rfl := Option.some.inj (hf.symm.trans hg)
              exact hsaves ⟨rfl, hpass⟩
            rw [getKey, Dict.get?_set_ne _ _ hne]
            rfl
          · rfl
      rw [hsame]
      rcases ih data with ⟨hnot, hvalue⟩ | ⟨⟨e', he', h⟩, hnames⟩
      · refine Or.inl ⟨?_, hvalue⟩
        rintro ⟨e', he', hk, g, hg, hpass⟩
        obtain rfl := Option.some.inj (hf.symm.trans hg)
        rcases List.mem_append.1 he' with he' | he'
        · exact hnot ⟨e', he', hk, f, hf, hpass⟩
        · obtain rfl := List.mem_singleton.1 he'
          exact hsaves ⟨hk, hpass⟩
      · exact Or.inr ⟨⟨e', List.mem_append_left _ he', h⟩, fun n hn => hmono n (hnames n hn)⟩

/-! ## Creation -/

/-- The file fields of a created row. -/
theorem getKey_created {payload : Row} (hf : IsFileField c k f)
    (h : createRecord (checking K rt required w) rt db c data files = .ok (db', id, payload))
    (hrow : db'.rowById c.name id = some row) :
    validateFile K rt required f (getKey (createdPayload w c files data) k) =
      .ok (getKey row k) := by
  obtain ⟨d, -, hd, herrors, hnone, rfl⟩ := of_createRecord h
  rcases Db.rowById_of_insertRow hrow with hold | ⟨-, rfl, -⟩
  · rw [hnone] at hold
    cases hold
  · obtain ⟨d₁, -, rfl⟩ := Failing.map_eq_ok.1 hd
    obtain ⟨v, hv, hcolumn⟩ := get?_fieldColumns hf herrors
    refine hv.trans (congrArg Except.ok ?_)
    rw [getKey, hcolumn]
    rfl

/-- A created row names only files of its own if the payload gives no other name. -/
theorem namesStored_created_iff {payload : Row}
    (h : createRecord (checking K rt required w) rt db c data files = .ok (db', id, payload))
    (hrow : db'.rowById c.name id = some row) :
    NamesStored K rt w c files [] row ↔ ∀ k f n, IsFileField c k f →
      CreateGives rt w c data files k f n → isRemote K n = false → Saved w c files n := by
  have hpayload : ∀ {k}, k ∉ takenKeys c →
      getKey ((takenKeys c).foldl Dict.del data) k = getKey data k := fun hk => by
    rw [getKey, Dict.get?_foldl_del, if_neg hk]
    rfl
  constructor
  · intro hstored k f n hf hgives hn
    have hvalid := getKey_created hf h hrow
    rcases @getKey_putUploads rt w c k f hf.field files ((takenKeys c).foldl Dict.del data) with
      ⟨-, hvalue⟩ | ⟨hsaves, -⟩
    · rw [createdPayload, hvalue, hpayload hgives.kept] at hvalid
      exact (hstored k f hf n ((of_validateFile hvalid hn).2 hgives.given) hn).resolve_right
        List.not_mem_nil
    · exact absurd hsaves hgives.noUploads
  · intro hgives k f hf n hmem hn
    have htakes := (of_validateFile (getKey_created hf h hrow) hn).1 hmem
    rcases @getKey_putUploads rt w c k f hf.field files ((takenKeys c).foldl Dict.del data) with
      ⟨hnot, hvalue⟩ | ⟨-, hnames⟩
    · rw [createdPayload, hvalue] at htakes
      by_cases hk : k ∈ takenKeys c
      · rw [getKey, Dict.get?_foldl_del, if_pos hk] at htakes
        exact absurd htakes.mem List.not_mem_nil
      · rw [hpayload hk] at htakes
        exact Or.inl (hgives k f n hf ⟨hnot, hk, htakes⟩ hn)
    · exact Or.inl (hnames n htakes.mem)

/-! ## Updates -/

/-- A column of an updated row, written or not. -/
theorem get?_updated {row' : Row} (h : updateRecord w rt db c id data files = .ok (some db'))
    (hrow : db.rowById c.name id = some row) (hrow' : db'.rowById c.name id = some row')
    (hk : k ≠ "updated") :
    ∃ d, updateDraft w rt c row data files = .ok d ∧ d.errors = [] ∧
      row'.get? k = (d.columns.get? k).or (row.get? k) := by
  obtain ⟨row₁, d, hrow₁, hd, herrors, hwritten⟩ := of_updateRecord h
  obtain rfl := Option.some.inj (hrow.symm.trans hrow₁)
  refine ⟨d, hd, herrors, ?_⟩
  rcases hwritten with ⟨hlength, rfl⟩ | ⟨-, rfl⟩
  · obtain rfl := Option.some.inj (hrow.symm.trans hrow')
    cases hcolumn : d.columns.get? k with
    | none => rfl
    | some v => exact absurd (eq_updated (grows_updateDraft hd) hlength hcolumn) hk
  · obtain ⟨row₂, hrow₂, rfl⟩ := Db.rowById_updateRow hrow'
    obtain rfl := Option.some.inj (hrow.symm.trans hrow₂)
    exact Dict.get?_update (nodup_updateDraft hd) k

/-- The file fields of an updated row : left as they were, or written from the names that the edits
leave. -/
theorem getKey_updated {row' : Row} (hf : IsFileField c k f)
    (h : updateRecord (checking K rt required w) rt db c id data files = .ok (some db'))
    (hrow : db.rowById c.name id = some row) (hrow' : db'.rowById c.name id = some row') :
    ∃ v, rawFileList rt v = ListEdit.run (bodyEdits rt c data k ++ uploadEdits rt w files k f)
        (rawFileList rt (getKey row k)) ∧
      (sameValue v (getKey row k) = true ∧ getKey row' k = getKey row k ∨
        validateFile K rt required f v = .ok (getKey row' k)) := by
  obtain ⟨hfield, htype⟩ := type_of_fileField? hf.field
  have hupdated : k ≠ "updated" := by
    rintro rfl
    exact hf.own (List.mem_append_left _ (by decide))
  obtain ⟨d, hd, herrors, hcolumn⟩ := get?_updated h hrow hrow' hupdated
  unfold updateDraft at hd
  obtain ⟨d₁, h₁, hd⟩ := Failing.bind_eq_ok.1 hd
  obtain ⟨state, hstate, hd⟩ := Failing.bind_eq_ok.1 hd
  obtain rfl := Except.ok.inj hd
  have hsystem : d₁.columns.get? k = none := get?_startedColumns hf.own h₁
  obtain ⟨v, hv, hnames⟩ := names_fieldState hf.field hstate
  refine ⟨v, hnames, ?_⟩
  rcases get?_changedColumns hfield (by rw [htype]; decide) _ (nodup_fieldState hstate) hv herrors
    with ⟨hsame, hnot⟩ | ⟨v', hcheck, hwritten⟩
  · refine Or.inl ⟨hsame, ?_⟩
    rw [hnot, updateUploadErrors, uploadErrors_columns, hsystem, Option.none_or] at hcolumn
    rw [getKey, hcolumn]
    rfl
  · refine Or.inr ?_
    rw [hwritten, Option.some_or] at hcolumn
    rw [getKey, hcolumn]
    have hchecked : (checking K rt required w).checkField f v = validateFile K rt required f v :=
      if_pos htype
    exact hchecked.symm.trans hcheck

theorem eq_of_sameValue_of_text (hbool : ∀ b, v' ≠ .bool b) (hnum : ∀ q, v' ≠ .num q)
    (h : sameValue v v' = true) : v = v' := by
  unfold sameValue at h
  split at h
  · exact absurd rfl (hnum _)
  · exact absurd rfl (hbool _)
  · exact of_decide_eq_true h

/-- An upload that leaves a name is saved under it. -/
theorem saved_of_leaves (hf : fileField? c k = some f)
    (h : ListEdit.Leaves (uploadEdits rt w files k f) [] n) : Saved w c (byField files) n := by
  obtain ⟨a, edit, b, hedits, hputs, -⟩ := h
  have hmem : edit ∈ uploadEdits rt w files k f := by
    rw [hedits]
    exact List.mem_append_right _ List.mem_cons_self
  obtain ⟨e, he, hedit⟩ := List.mem_filterMap.1 hmem
  unfold uploadEdit at hedit
  split_ifs at hedit with hskip
  rw [not_or, not_not, Bool.not_eq_false] at hskip
  obtain ⟨rfl, hpass⟩ := hskip
  refine ⟨_, List.mem_map_of_mem he, f, hf, hpass, ?_⟩
  split at hedit
  · obtain rfl := Option.some.inj hedit
    exact (List.mem_filter.1 hputs).1
  · obtain rfl := Option.some.inj hedit
    exact (List.mem_filter.1 hputs).1
  · obtain rfl := Option.some.inj hedit
    unfold coerceFileValue ListEdit.puts at hputs
    split_ifs at hputs
    · rw [rawFileList_texts] at hputs
      exact (List.mem_filter.1 hputs).1
    · rw [rawFileList_text] at hputs
      split_ifs at hputs with hblank
      · cases hputs
      · rw [List.mem_singleton.1 hputs]
        rw [List.getLastD_eq_getLast?] at hblank ⊢
        cases hlast : (w.saveFiles (parseModifierKey e.1).1 e.2).getLast? with
        | none =>
          rw [hlast] at hblank
          exact absurd rfl hblank
        | some m => exact List.mem_of_getLast? hlast

/-- A name that a file field takes in the end was there, is given by the payload or belongs to an
upload. -/
theorem of_takes (hf : fileField? c k = some f)
    (h : Takes f (ListEdit.run (bodyEdits rt c data k ++ uploadEdits rt w files k f) (rawFileList rt (getKey row k))) n) :
    n ∈ rawFileList rt (getKey row k) ∨ UpdateGives rt w c row data files k f n ∨
      Saved w c (byField files) n := by
  unfold Takes at h
  unfold UpdateGives
  split_ifs at h ⊢
  · rw [ListEdit.run_append, ListEdit.mem_run_iff] at h
    rcases h with h | h
    · rcases ListEdit.mem_run_and_stays.1 h with h | h
      · exact Or.inl h.1
      · exact Or.inr (Or.inl h)
    · exact Or.inr (Or.inr (saved_of_leaves hf h))
  · rcases ListEdit.of_getLast?_run h with ⟨-, h⟩ | h | h
    · exact Or.inl (List.mem_filter.1 (List.mem_of_getLast? h)).1
    · exact Or.inr (Or.inl h)
    · exact Or.inr (Or.inr (saved_of_leaves hf h))

theorem takes_of_gives (h : UpdateGives rt w c row data files k f n) :
    Takes f (ListEdit.run (bodyEdits rt c data k ++ uploadEdits rt w files k f)
      (rawFileList rt (getKey row k))) n := by
  unfold UpdateGives at h
  unfold Takes
  split_ifs at h ⊢
  · rw [ListEdit.run_append, ListEdit.mem_run_iff]
    exact Or.inl (ListEdit.mem_run_and_stays.2 (Or.inr h))
  · exact h.getLast?_run

/-- An updated row names only files of its own if the payload gives no other name. -/
theorem namesStored_updated_iff {row' : Row}
    (h : updateRecord (checking K rt required w) rt db c id data files = .ok (some db'))
    (hrow : db.rowById c.name id = some row) (hrow' : db'.rowById c.name id = some row')
    (htext : TextColumns c row) :
    NamesStored K rt w c (byField files) row row' ↔ ∀ k f n, IsFileField c k f →
      UpdateGives rt w c row data files k f n → isRemote K n = false →
        Saved w c (byField files) n ∨ n ∈ rawFileList rt (getKey row k) := by
  constructor
  · intro hstored k f n hf hgives hn
    have htakes := takes_of_gives hgives
    obtain ⟨v, hnames, ⟨hsame, -⟩ | hvalid⟩ := getKey_updated hf h hrow hrow'
    · rw [← hnames, eq_of_sameValue_of_text (htext k f hf).1 (htext k f hf).2 hsame] at htakes
      exact Or.inr htakes.mem
    · rw [← hnames] at htakes
      exact hstored k f hf n ((of_validateFile hvalid hn).2 htakes) hn
  · intro hgives k f hf n hmem hn
    obtain ⟨v, hnames, ⟨-, hleft⟩ | hvalid⟩ := getKey_updated hf h hrow hrow'
    · rw [hleft] at hmem
      exact Or.inr hmem
    · have htakes := (of_validateFile hvalid hn).1 hmem
      rw [hnames] at htakes
      rcases of_takes hf.field htakes with hheld | hgiven | hsaved
      · exact Or.inr hheld
      · exact hgives k f n hf hgiven hn
      · exact Or.inl hsaved

end

/-! ## Created and updated rows -/

/-- The rows that the two calls commit name only files of their own exactly if the body gives a file
field no local name but those of the uploads and those that the field had. -/
theorem namesStored_iff (K : Codec) (rt : Runtime) (required : Field → Bool) (w : Writer)
    (c : Collection) (data : Row) (files : Dict Text (List Upload)) (db db' : Db) (id : Text) :
    (∀ payload row, createRecord (checking K rt required w) rt db c data files =
      .ok (db', id, payload) →
      db'.rowById c.name id = some row →
      (NamesStored K rt w c files [] row ↔ ∀ k f n, IsFileField c k f →
        CreateGives rt w c data files k f n → isRemote K n = false → Saved w c files n)) ∧
    ∀ row row', updateRecord (checking K rt required w) rt db c id data files = .ok (some db') →
      db.rowById c.name id = some row → db'.rowById c.name id = some row' → TextColumns c row →
      (NamesStored K rt w c (byField files) row row' ↔ ∀ k f n, IsFileField c k f →
        UpdateGives rt w c row data files k f n → isRemote K n = false →
          Saved w c (byField files) n ∨ n ∈ rawFileList rt (getKey row k)) :=
  ⟨fun _ _ => namesStored_created_iff, fun _ _ => namesStored_updated_iff⟩

/-- Documents with one file. -/
def documents : Collection where
  id := "documents"
  name := "documents"
  schema := [{ name := "doc", type := .file }]

def noDocuments : Db := ⟨[documents], [("documents", ⟨["id", "created", "updated", "doc"], []⟩)]⟩

/-- Creates a document that names a file in the body, without an upload. -/
def otherFile : Row := [("doc", .text "other.pdf")]

def documentRow : Row :=
  [("id", .text "new"), ("created", .time 0), ("updated", .time 0), ("doc", .text "other.pdf")]

def oneDocument : Db :=
  ⟨[documents], [("documents", ⟨["id", "created", "updated", "doc"], [documentRow]⟩)]⟩

def checkedWriter : Writer := checking plainCodec .simple (fun _ => false) .simple

theorem create_otherFile : createRecord checkedWriter .simple noDocuments documents otherFile [] =
    .ok (oneDocument, "new", otherFile) := rfl

theorem isFileField_doc : IsFileField documents "doc" { name := "doc", type := .file } where
  field := by decide
  own := by decide
  written := by decide

theorem not_saved_nil {w : Writer} {c : Collection} {n : Text} : ¬Saved w c [] n := by
  rintro ⟨e, he, -⟩
  cases he

/-- The body of a creation names a file that has not been stored for the record. -/
theorem body_names_other_file : ¬∀ (K : Codec) (rt : Runtime) (required : Field → Bool) (w : Writer)
    (c : Collection) (data : Row) (files : Dict Text (List Upload)) (db db' : Db) (id : Text),
    (∀ payload row, createRecord (checking K rt required w) rt db c data files =
      .ok (db', id, payload) →
      db'.rowById c.name id = some row → NamesStored K rt w c files [] row) ∧
    ∀ row row', updateRecord (checking K rt required w) rt db c id data files = .ok (some db') →
      db.rowById c.name id = some row → db'.rowById c.name id = some row' → TextColumns c row →
      NamesStored K rt w c (byField files) row row' := by
  intro h
  have hcreate := (h plainCodec .simple (fun _ => false) .simple documents otherFile [] noDocuments
    oneDocument "new").1 otherFile documentRow create_otherFile (by decide)
  rcases hcreate "doc" _ isFileField_doc "other.pdf" (by decide) (by decide) with hsaved | hheld
  · exact not_saved_nil hsaved
  · cases hheld

/-- Removes the file of a document. -/
def removeFile : Row := [("doc-", .text "other.pdf")]

def emptyRow : Row :=
  [("id", .text "new"), ("created", .time 0), ("updated", .time 0), ("doc", .text [])]

def emptyDocument : Db :=
  ⟨[documents], [("documents", ⟨["id", "created", "updated", "doc"], [emptyRow]⟩)]⟩

theorem update_removeFile :
    updateRecord checkedWriter .simple oneDocument documents "new" removeFile [] =
    .ok (some emptyDocument) := rfl

theorem isFileField_documents {k : Text} {f : Field} (h : IsFileField documents k f) :
    k = "doc" := by
  obtain ⟨hschema, rfl⟩ := SharedFiles.schema_of_fieldMap (type_of_fileField? h.field).1
  rw [List.mem_singleton.1 hschema]

theorem namesStored_document :
    (NamesStored plainCodec .simple .simple documents [] [] documentRow ↔
      ∀ k f n, IsFileField documents k f →
        CreateGives .simple .simple documents otherFile [] k f n →
        isRemote plainCodec n = false → Saved .simple documents [] n) ∧
    (NamesStored plainCodec .simple .simple documents (byField []) documentRow emptyRow ↔
      ∀ k f n, IsFileField documents k f →
        UpdateGives .simple .simple documents documentRow removeFile [] k f n →
          isRemote plainCodec n = false →
            Saved .simple documents (byField []) n ∨
              n ∈ rawFileList .simple (getKey documentRow k)) :=
  ⟨(namesStored_iff plainCodec .simple (fun _ => false) .simple documents otherFile [] noDocuments
      oneDocument "new").1 otherFile documentRow create_otherFile (by decide),
    (namesStored_iff plainCodec .simple (fun _ => false) .simple documents removeFile [] oneDocument
      emptyDocument "new").2 documentRow emptyRow update_removeFile (by decide) (by decide)
        fun k f hf => by
          obtain rfl := isFileField_documents hf
          exact ⟨fun b h => (by cases h), fun q h => (by cases h)⟩⟩

end FileNames

end PPBase
