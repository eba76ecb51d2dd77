import PPBase.SchemaManager

/-!
# Stored field definitions

A collection stores its field definitions as objects, with the options of a field under `options`
or, in the flat format, beside its other keys. Requests that create or update a collection are
normalized on the way (`fieldsToSchema`); an import into an existing collection is stored as it is
(`stored`).

Both readers build a `FieldDefinition`. The record service normalizes the object first
(`recordField`), the schema manager does not, so that it finds no options in a flat object
(`ofRaw`). They agree on whether a field has several values if and only if the object has not been
imported with a flat `maxSelect` of more than one (`multi_agrees_iff`).
-/

namespace PPBase

namespace FieldFormats

/-- A stored field definition. -/
abbrev Raw := Dict Text Value

/-- `_FIELD_CORE_KEYS` -/
def coreKeys : List Text :=
  ["id", "name", "type", "required", "system", "hidden", "presentable", "options"]

/-- The keys of an object that are core keys. -/
def core (f : Raw) : Raw := f.filter fun e => e.1 ∈ coreKeys

/-- The other keys of an object. -/
def extra (f : Raw) : Raw := f.filter fun e => e.1 ∉ coreKeys

/-- `{**extra, **existing}` -/
def merge (extra existing : Raw) : Raw :=
  extra.map (fun e => (e.1, (existing.get? e.1).getD e.2)) ++
    existing.filter fun e => e.1 ∉ extra.keys

/-- `_fields_to_schema` of one definition. -/
def fieldsToSchema (f : Raw) : Raw :=
  let merged :=
    match (core f).get? "options" with
    | some (.obj existing) => merge (extra f) existing
    | _ => extra f
  if merged = [] then (core f).del "options"
  else ((core f).del "options").set "options" (.obj merged)

/-- `_normalize_field` of the record service. Options that are no mapping raise a `TypeError`. -/
def normalizeField (f : Raw) : Option Raw :=
  if extra f = [] then some f
  else
    let existing := ((core f).get? "options").getD .null
    match existing with
    | .obj existing => some (((core f).del "options").set "options" (.obj (merge (extra f) existing)))
    | v =>
      if v.truthy then none
      else some (((core f).del "options").set "options" (.obj (extra f)))

/-! ## Field definitions -/

/-- `FieldType(value)` -/
def fieldType? (s : Text) : Option FieldType :=
  Dict.get? ([("text", .text), ("editor", .editor), ("number", .number), ("bool", .bool),
    ("email", .email), ("url", .url), ("date", .date), ("autodate", .autodate), ("select", .select),
    ("file", .file), ("relation", .relation), ("json", .json), ("password", .password),
    ("geoPoint", .geoPoint)] : Dict Text FieldType) s

/-- A text that has a default. -/
def text? (default : Option Text) : Option Value → Option Text
  | none => default
  | some (.text s) => some s
  | some _ => none

/-- A flag, in the forms that pydantic reads. -/
def flag? : Option Value → Option Bool
  | none => some false
  | some (.bool b) => some b
  | some (.num q) => if q = 0 then some false else if q = 1 then some true else none
  | some (.text s) =>
    if s.lower ∈ (["0", "off", "f", "false", "n", "no"] : List Text) then some false
    else if s.lower ∈ (["1", "on", "t", "true", "y", "yes"] : List Text) then some true
    else none
  | some _ => none

/-- The options, an object. -/
def options? : Option Value → Option (Dict Text Value)
  | none => some []
  | some (.obj options) => some options
  | some _ => none

/-- `FieldDefinition(**definition)`, which ignores other keys. -/
def ofRaw (f : Raw) : Option FieldDefinition := do
  let id ← text? (some []) (f.get? "id")
  let name ← text? none (f.get? "name")
  let type ← (text? none (f.get? "type")).bind fieldType?
  let required ← flag? (f.get? "required")
  let system ← flag? (f.get? "system")
  let hidden ← flag? (f.get? "hidden")
  let presentable ← flag? (f.get? "presentable")
  let options ← options? (f.get? "options")
  return { id, name, type, required, system, hidden, presentable, options }

/-- A field of `_get_schema_fields`, of the collection of a name. -/
def recordField (collection : Text) (f : Raw) : Option FieldDefinition := do
  let normalized ← normalizeField f
  let field ← ofRaw normalized
  if collection = "_superusers" ∧ field.name = "avatar" ∧ field.type = .number then
    return { field with options := field.options.set "onlyInt" (.bool true) }
  else
    return field

/-! ## Several values -/

/-- The types of fields that may have several values. -/
def maySelectMany : FieldType → Bool
  | .select | .file | .relation => true
  | _ => false

/-- `is_multi` of the validators, and `_is_array_field`. -/
def isMulti (f : FieldDefinition) : Option Bool :=
  if maySelectMany f.type then f.manySelected else some false

/-- The column is one of arrays. -/
def isArray (ddl : Text) : Bool := Text.contains "[]" ddl

/-- Whether the record service gives a field several values. -/
def treatedAsMulti (collection : Text) (f : Raw) : Option Bool :=
  (recordField collection f).bind isMulti

/-- `opts.get("maxSelect", 1) or 1` is less than a length. -/
def exceeded (f : FieldDefinition) (length : ℕ) : Bool :=
  match (f.options.get? "maxSelect").getD (.num 1) with
  | .num q => if q = 0 then 1 < length else q < length
  | _ => 1 < length

/-- `v in allowed`, if it does not raise, where nothing is asked of an empty `allowed`. -/
def isAllowed (allowed : Value) (v : Text) : Option Bool :=
  if allowed.truthy then
    match allowed with
    | .list vs => some (vs.contains (.text v))
    | .text s => some (Text.contains v s)
    | .obj fs => some (Dict.has fs v)
    | _ => none
  else some true

section Validators

variable (rt : Runtime) (isReference : Text → Bool) (f : FieldDefinition)

/-- `[str(v) for v in value if v]`, of a list or of one value. -/
def present : Value → List Text
  | .null => []
  | .list vs => (vs.filter Value.truthy).map rt.str
  | v => if v.truthy then [rt.str v] else []

/-- `_validate_select`. An exception is no value. -/
def validateSelect (value : Value) : Option Value :=
  let allowed := (f.options.get? "values").getD .null
  f.manySelected.bind fun many =>
    if many then
      let values := match value with
        | .null => []
        | .list vs => vs.map rt.str
        | v => [rt.str v]
      let unique := values.eraseDups
      if f.required && values = [] || exceeded f unique.length then none
      else if unique.all fun v => isAllowed allowed v = some true then
        some (.list (unique.map .text))
      else none
    else
      let val := if value = .null then [] else rt.str value
      if f.required && val = [] then none
      else if val = [] || isAllowed allowed val = some true then some (.text val)
      else none

/-- `_validate_file`, where `isReference` are the names that may be stored. -/
def validateFile (value : Value) : Option Value :=
  f.manySelected.bind fun many =>
    let values := present rt value
    if !values.all isReference then none
    else if many then
      if f.required && values = [] || exceeded f values.length then none
      else some (.list (values.map .text))
    else
      let val := values.getLastD []
      if f.required && val = [] then none else some (.text val)

/-- `_validate_relation` -/
def validateRelation (value : Value) : Option Value :=
  f.manySelected.bind fun many =>
    if many then
      let values := present rt value
      if f.required && values = [] || exceeded f values.length then none
      else some (.list (values.map .text))
    else
      let val := if value = .null then [] else rt.str value
      if f.required && val = [] then none else some (.text val)

/-- The validators of the fields that may have several values. -/
def validateFieldValue (value : Value) : Option Value :=
  match f.type with
  | .select => validateSelect rt f value
  | .file => validateFile rt isReference f value
  | .relation => validateRelation rt f value
  | _ => none

end Validators

/-! ## Reading the two formats -/

theorem get?_core (f : Raw) (k : Text) :
    (core f).get? k = if k ∈ coreKeys then f.get? k else none := by
  rw [core, Dict.get?_filter fun k => decide (k ∈ coreKeys)]
  simp only [decide_eq_true_eq]

theorem get?_extra (f : Raw) (k : Text) :
    (extra f).get? k = if k ∈ coreKeys then none else f.get? k := by
  have h := Dict.get?_filter (fun k => decide (k ∉ coreKeys)) f k
  simp only [decide_eq_true_eq] at h
  rw [extra, h]
  split_ifs <;> simp_all

theorem get?_append (a b : Raw) (k : Text) : Dict.get? (a ++ b) k = (a.get? k).or (b.get? k) := by
  induction a with
  | nil => rfl
  | cons e a ih =>
    obtain ⟨j, v⟩ := e
    by_cases hj : j = k
    · simp [hj]
    · simp [hj, ih]

theorem get?_merge (a b : Raw) (k : Text) : (merge a b).get? k = (b.get? k).or (a.get? k) := by
  have hmap := Dict.get?_map (fun j v => (b.get? j).getD v) a k
  have hnew : Dict.get? (b.filter fun e => e.1 ∉ a.keys) k =
      if k ∉ a.keys then b.get? k else none := by
    rw [Dict.get?_filter fun k => decide (k ∉ a.keys)]
    simp only [decide_eq_true_eq]
  rw [merge, get?_append, hmap, hnew]
  cases ha : a.get? k with
  | none =>
    rw [if_pos (Dict.get?_eq_none_iff.1 ha)]
    simp
  | some v =>
    cases b.get? k <;> rfl

/-- An object with other options. -/
theorem ofRaw_set_options {f : Raw} {g : FieldDefinition} (h : ofRaw f = some g)
    (options : Dict Text Value) :
    ofRaw (((core f).del "options").set "options" (.obj options)) = some { g with options } := by
  have hget : ∀ k ∈ coreKeys, k ≠ "options" →
      Dict.get? (((core f).del "options").set "options" (.obj options)) k = f.get? k := by
    intro k hk hne
    rw [Dict.get?_set_ne _ _ hne.symm, Dict.get?_del, if_neg hne.symm, get?_core, if_pos hk]
  rw [ofRaw] at h ⊢
  rw [hget "id" (by decide) (by decide), hget "name" (by decide) (by decide),
    hget "type" (by decide) (by decide), hget "required" (by decide) (by decide),
    hget "system" (by decide) (by decide), hget "hidden" (by decide) (by decide),
    hget "presentable" (by decide) (by decide), Dict.get?_set_self]
  simp only [Option.bind_eq_bind, Option.bind_eq_some_iff, Option.pure_def, Option.some.injEq,
    options?] at h ⊢
  obtain ⟨i, hi, n, hn, t, ht, r, hr, s, hs, d, hd, p, hp, o, ho, rfl⟩ := h
  exact ⟨i, hi, n, hn, t, ht, r, hr, s, hs, d, hd, p, hp, options, rfl, rfl⟩

variable {collection : Text} {f r : Raw} {g field : FieldDefinition} {ddl : Text}

/-- What the record service reads, where the schema manager reads `g`. -/
theorem recordField_eq (collection : Text) (h : ofRaw r = some g) : ∃ field,
    recordField collection r = some field ∧ field.type = g.type ∧
      field.options.get? "maxSelect" = (g.options.get? "maxSelect").or (r.get? "maxSelect") := by
  have hoptions : options? (r.get? "options") = some g.options := by
    rw [ofRaw] at h
    simp only [Option.bind_eq_bind, Option.bind_eq_some_iff, Option.pure_def,
      Option.some.injEq] at h
    obtain ⟨i, -, n, -, t, -, q, -, s, -, d, -, p, -, o, ho, rfl⟩ := h
    exact ho
  have hflat : (extra r).get? "maxSelect" = r.get? "maxSelect" := by
    rw [get?_extra, if_neg (by decide)]
  -- the options that the record service starts from
  obtain ⟨n, options, hn, hof, hget⟩ : ∃ n options, normalizeField r = some n ∧
      ofRaw n = some { g with options } ∧
      Dict.get? options "maxSelect" = (g.options.get? "maxSelect").or (r.get? "maxSelect") := by
    by_cases hextra : extra r = []
    · refine ⟨r, g.options, if_pos hextra, h, ?_⟩
      rw [← hflat, hextra, Dict.get?_nil, Option.or_none]
    · rw [normalizeField, if_neg hextra, get?_core, if_pos (by decide)]
      cases hopt : r.get? "options" with
      | none =>
        rw [hopt] at hoptions
        have hnone : g.options = [] := by simpa [options?] using hoptions.symm
        refine ⟨_, extra r, rfl, ofRaw_set_options h _, ?_⟩
        rw [hflat, hnone, Dict.get?_nil, Option.none_or]
      | some v =>
        rw [hopt] at hoptions
        cases v with
        | obj os =>
          have hos : os = g.options := by simpa [options?] using hoptions
          refine ⟨_, merge (extra r) os, rfl, ofRaw_set_options h _, ?_⟩
          rw [get?_merge, hflat, hos]
        | _ => cases hoptions
  rw [recordField]
  simp only [hn, hof, Option.bind_eq_bind, Option.bind_some, Option.pure_def]
  split_ifs
  · refine ⟨_, rfl, rfl, ?_⟩
    rw [Dict.get?_set_ne _ _ (by decide), hget]
  · exact ⟨_, rfl, rfl, hget⟩

/-- The column of a field has an array type if and only if the field has several values. -/
theorem isArray_colType (h : g.colType = some ddl) : isMulti g = some (isArray ddl) := by
  have hmany : ∀ one many : Text, isArray one = false → isArray many = true →
      (g.manySelected.map fun b => if b then many else one) = some ddl →
      g.manySelected = some (isArray ddl) := by
    intro one many hone hmany hddl
    obtain ⟨b, hb, rfl⟩ := Option.map_eq_some_iff.1 hddl
    cases b
    · rw [hb, if_neg Bool.false_ne_true, hone]
    · rw [hb, if_pos rfl, hmany]
  rw [FieldDefinition.colType] at h
  rw [isMulti]
  cases htype : g.type with
  | select | file | relation =>
    rw [htype] at h
    exact hmany _ _ (by decide) (by decide +kernel) h
  | number =>
    rw [htype] at h
    simp only at h
    split_ifs at h <;> cases h
    · refine (if_neg (by decide)).trans (congrArg some ?_)
      decide
    · refine (if_neg (by decide)).trans (congrArg some ?_)
      decide
  | _ =>
    rw [htype] at h
    cases h
    refine (if_neg (by decide)).trans (congrArg some ?_)
    decide

/-! ## Accepted values -/

/-- The value is a list. -/
def isList : Value → Bool
  | .list _ => true
  | _ => false

/-- Fields of several values accept lists, the others texts. -/
theorem isList_of_validate {rt : Runtime} {isReference : Text → Bool} {v w : Value}
    (h : validateFieldValue rt isReference field v = some w) : isMulti field = some (isList w) := by
  have hbind : ∀ F : Bool → Option Value, (∀ many w, F many = some w → isList w = many) →
      field.manySelected.bind F = some w → field.manySelected = some (isList w) := by
    intro F hF hw
    obtain ⟨many, hmany, hw⟩ := Option.bind_eq_some_iff.1 hw
    rw [hmany, hF many w hw]
  rw [validateFieldValue] at h
  rw [isMulti]
  cases htype : field.type with
  | select =>
    rw [htype] at h
    refine hbind _ (fun many w hw => ?_) h
    simp only at hw
    split_ifs at hw with hm <;> cases hw <;> simp [isList, hm]
  | file =>
    rw [htype] at h
    refine hbind _ (fun many w hw => ?_) h
    simp only at hw
    split_ifs at hw with _ hm <;> cases hw <;> simp [isList, hm]
  | relation =>
    rw [htype] at h
    refine hbind _ (fun many w hw => ?_) h
    simp only at hw
    split_ifs at hw with hm <;> cases hw <;> simp [isList, hm]
  | _ =>
    rw [htype] at h
    cases h

/-! ## Agreement -/

/-- The requests that store field definitions. -/
inductive Call where
  | create
  | update
  | importNew
  | importExisting
deriving DecidableEq

/-- The definition that a request stores. -/
def stored (call : Call) (f : Raw) : Raw :=
  if call = .importExisting then f else fieldsToSchema f

/-- A request stores the definition `f` as `r`, and the schema manager reads `g` and gives the
column its type. -/
structure Stores (call : Call) (f r : Raw) (g : FieldDefinition) (ddl : Text) : Prop where
  stored : stored call f = r
  read : ofRaw r = some g
  parsed : SchemaManager.parseFields [g] = some [g]
  column : g.colType = some ddl

/-- The record service and the column agree on whether the field has several values, and every
value that the record service accepts is one for the column. -/
def Agree (rt : Runtime) (isReference : Text → Bool) (collection : Text) (r : Raw) (ddl : Text) :
    Prop :=
  treatedAsMulti collection r = some (isArray ddl) ∧
    ∀ field v w, recordField collection r = some field →
      validateFieldValue rt isReference field v = some w → isList w = isArray ddl

/-- A flat definition says that the field has several values. -/
def FlatMulti (r : Raw) (g : FieldDefinition) : Prop :=
  maySelectMany g.type = true ∧ g.options.get? "maxSelect" = none ∧
    ∃ maxSelect, r.get? "maxSelect" = some maxSelect ∧ maxSelect.truthy = true ∧
      maxSelect.gtOne ≠ some false

/-- Definitions that are normalized on the way have no flat options. -/
theorem get?_fieldsToSchema (f : Raw) : (fieldsToSchema f).get? "maxSelect" = none := by
  have hcore : (core f).get? "maxSelect" = none := by rw [get?_core, if_neg (by decide)]
  rw [fieldsToSchema]
  split_ifs
  · rw [Dict.get?_del, if_neg (by decide), hcore]
  · rw [Dict.get?_set_ne _ _ (by decide), Dict.get?_del, if_neg (by decide), hcore]

/-- The two layers agree on a stored definition, unless it has been imported as it is with a flat
`maxSelect` of more than one. -/
theorem multi_agrees_iff {call : Call} (rt : Runtime) (isReference : Text → Bool)
    (collection : Text) (h : Stores call f r g ddl) :
    Agree rt isReference collection r ddl ↔ ¬(call = .importExisting ∧ FlatMulti r g) := by
  obtain ⟨field, hfield, htype, hget⟩ := recordField_eq collection h.read
  have hcolumn := isArray_colType h.column
  have htreated : treatedAsMulti collection r = isMulti field := by
    rw [treatedAsMulti, hfield, Option.bind_some]
  have hvalues : isMulti field = some (isArray ddl) ↔ Agree rt isReference collection r ddl := by
    refine ⟨fun hmulti => ⟨htreated.trans hmulti, fun field' v w hfield' hw => ?_⟩,
      fun hagree => htreated.symm.trans hagree.1⟩
    cases hfield.symm.trans hfield'
    have := isList_of_validate hw
    rw [hmulti] at this
    exact (Option.some.inj this).symm
  rw [← hvalues, ← hcolumn, isMulti, isMulti, htype]
  by_cases hmay : maySelectMany g.type = true
  swap
  · rw [if_neg hmay, if_neg hmay]
    exact iff_of_true rfl fun hflat => hmay hflat.2.1
  rw [if_pos hmay, if_pos hmay, FieldDefinition.manySelected, FieldDefinition.manySelected, hget]
  have hone : (if (Value.num 1).truthy then (Value.num 1).gtOne else some false) = some false := by
    decide
  cases hnested : g.options.get? "maxSelect" with
  | some maxSelect => exact iff_of_true rfl fun hflat => nomatch hnested.symm.trans hflat.2.2.1
  | none =>
    rw [Option.none_or, Option.getD_none, hone]
    cases hflat : r.get? "maxSelect" with
    | none =>
      rw [Option.getD_none, hone]
      refine iff_of_true rfl ?_
      rintro ⟨-, -, -, maxSelect, hmax, -⟩
      exact nomatch hflat.symm.trans hmax
    | some maxSelect =>
      have hcall : call = .importExisting := by
        by_contra hne
        have hr : fieldsToSchema f = r := by
          have hstored := h.stored
          rwa [FieldFormats.stored, if_neg hne] at hstored
        have hnone := get?_fieldsToSchema f
        rw [hr, hflat] at hnone
        exact nomatch hnone
      rw [Option.getD_some]
      constructor
      · rintro heq ⟨-, -, -, m, hm, htruthy, hgt⟩
        cases hflat.symm.trans hm
        rw [if_pos htruthy] at heq
        exact hgt heq
      · intro hnot
        by_contra hne
        refine hnot ⟨hcall, hmay, hnested, maxSelect, hflat, ?_, fun hgt => ?_⟩
        · by_contra hfalse
          exact hne (if_neg hfalse)
        · rw [hgt] at hne
          exact hne (ite_self _)

/-! ## A flat select field -/

/-- A select field of up to three values, in the flat format. -/
def flatTags : Raw := [("name", .text "tags"), ("type", .text "select"), ("maxSelect", .num 3)]

/-- What the schema manager reads of it. -/
def tagsField : FieldDefinition where
  name := "tags"
  type := .select

theorem stores_flatTags : Stores .importExisting flatTags flatTags tagsField
    "TEXT NOT NULL DEFAULT ''" where
  stored := rfl
  read := by decide
  parsed := by decide
  column := by decide

/-- An import into an existing collection gives the field a column of one text. -/
theorem agree_flatTags :
    Agree .simple (fun _ => true) "posts" flatTags "TEXT NOT NULL DEFAULT ''" ↔
      ¬(Call.importExisting = .importExisting ∧ FlatMulti flatTags tagsField) :=
  multi_agrees_iff .simple (fun _ => true) "posts" stores_flatTags

theorem imported_flat_field_disagrees : ¬∀ (rt : Runtime) (isReference : Text → Bool)
    (collection : Text) (call : Call) (f r : Raw) (g : FieldDefinition) (ddl : Text),
    Stores call f r g ddl → Agree rt isReference collection r ddl := by
  intro h
  have hagree := (h .simple (fun _ => true) "posts" _ _ _ _ _ stores_flatTags).1
  exact absurd hagree (by decide)

end FieldFormats

end PPBase
