import PPBase.Failing
import PPBase.Macros

/-!
# Creating and updating records

`create_record` and `update_record`. Both work on the payload they are given : `create_record`
takes the keys it handles itself out of it and puts the names of saved uploads in
(`createdPayload`), and `update_record` applies plain and modifier keys in the order of the
payload to a copy of the row's fields (`fieldState`). What they take from elsewhere (the time,
fresh ids and keys, field validation, file storage) is the `Writer` of the call.
-/

namespace PPBase

/-- An uploaded file. -/
structure Upload where
  filename : Text
  content : List UInt8

/-- The error of one field. -/
structure FieldError where
  code : Text
  message : Text
  deriving DecidableEq

/-- `_ValidationErrors` with the errors by field, or another exception. -/
inductive WriteError
  | validation (errors : Dict Text FieldError)
  | exception
  deriving DecidableEq

/-- What one call takes from elsewhere. -/
structure Writer where
  /-- `datetime.now` -/
  now : Int
  /-- `generate_id()` -/
  newId : Text
  /-- `generate_token_key()` -/
  tokenKey : Text
  hashPassword : Text → Text
  /-- `validate_record_id` -/
  recordId? : Value → Option Text
  /-- `validate_field_value`, then `_serialize_for_pg` -/
  checkField : Field → Value → Except FieldError Value
  /-- `_validate_uploaded_file_constraints` -/
  checkUpload : Field → Upload → Option FieldError
  /-- `save_files` -/
  saveFiles : Text → List Upload → List Text
  /-- The constraints of the table, beyond its primary key. -/
  accepts : Text → Row → Bool

/-- A writer that accepts every value and upload. -/
def Writer.simple : Writer where
  now := 0
  newId := "new"
  tokenKey := "key"
  hashPassword p := p
  recordId?
    | .text s => some s
    | _ => none
  checkField _ v := .ok v
  checkUpload _ _ := none
  saveFiles _ uploads := uploads.map Upload.filename
  accepts _ _ := true

namespace FieldError

def required : FieldError := ⟨"validation_required", "Cannot be blank."⟩

def passwordLength : FieldError :=
  ⟨"validation_length_out_of_range", "The length must be between 8 and 72."⟩

def mismatch : FieldError := ⟨"validation_values_mismatch", "Values don't match."⟩

def invalidEmail : FieldError := ⟨"validation_invalid_email", "Must be a valid email address."⟩

def notUnique : FieldError := ⟨"validation_not_unique", "The email is already in use."⟩

def invalidRecordId : FieldError := ⟨"validation_invalid_record_id", "Must be a valid record ID."⟩

end FieldError

/-- `_EMAIL_RE.match`, on a stripped text. -/
def isEmail (s : Text) : Bool :=
  !s.any Text.isSpace &&
    match Text.split '@' s with
    | [user, domain] => user ≠ [] && (domain.drop 1).dropLast.contains '.'
    | _ => false

/-- `{f.name: f for f in schema_fields}` -/
def Collection.fieldMap (c : Collection) : Dict Text Field :=
  c.schema.foldl (fun d f => d.set f.name f) []

namespace Table

def insert (t : Table) (row : Row) : Table := { t with rows := t.rows ++ [row] }

/-- The updates written to the row with this id. -/
def setById (t : Table) (id : Text) (updates : Row) : Table :=
  { t with rows := t.rows.map fun r => if r.get? "id" = some (.text id) then Dict.update r updates else r }

end Table

namespace Db

def mapTable (db : Db) (table : Text) (g : Table → Table) : Db :=
  { db with tables := db.tables.map fun e => if e.1 = table then (e.1, g e.2) else e }

/-- `INSERT INTO table` -/
def insertRow (db : Db) (table : Text) (row : Row) : Db := db.mapTable table fun t => t.insert row

/-- `UPDATE table SET .. WHERE "id" = :id` -/
def updateRow (db : Db) (table id : Text) (updates : Row) : Db :=
  db.mapTable table fun t => t.setById id updates

/-- `DELETE FROM table WHERE "id" = :id` -/
def deleteRow (db : Db) (table id : Text) : Db :=
  db.mapTable table fun t => { t with rows := t.rows.filter fun r => r.get? "id" ≠ some (.text id) }

end Db

namespace Db

section

variable {db : Db} {table id : Text} {updates row' : Row}

theorem get?_mapTable (g : Table → Table) :
    (db.mapTable table g).tables.get? table = (db.tables.get? table).map g := by
  obtain ⟨colls, tables⟩ := db
  show Dict.get? (tables.map _) table = (Dict.get? tables table).map g
  induction tables with
  | nil => rfl
  | cons e tables ih =>
    obtain ⟨k, t⟩ := e
    rw [List.map_cons]
    by_cases hk : k = table
    · rw [if_pos hk, Dict.get?_cons, if_pos hk, Dict.get?_cons, if_pos hk, Option.map_some]
    · rw [if_neg hk, Dict.get?_cons, if_neg hk, Dict.get?_cons, if_neg hk, ih]

variable {table' : Text}

theorem get?_mapTable_of_ne (g : Table → Table) (h : table' ≠ table) :
    (db.mapTable table g).tables.get? table' = db.tables.get? table' := by
  obtain ⟨colls, tables⟩ := db
  show Dict.get? (tables.map _) table' = Dict.get? tables table'
  induction tables with
  | nil => rfl
  | cons e tables ih =>
    obtain ⟨k, t⟩ := e
    rw [List.map_cons]
    by_cases hk : k = table
    · rw [if_pos hk, Dict.get?_cons, if_neg (hk ▸ h.symm), Dict.get?_cons, if_neg (hk ▸ h.symm), ih]
    · rw [if_neg hk, Dict.get?_cons, Dict.get?_cons, ih]

/-- The tables stay the same ones. -/
theorem exists_mapTable {t : Table} (g : Table → Table) (h : db.tables.get? table' = some t) :
    ∃ t', (db.mapTable table g).tables.get? table' = some t' := by
  by_cases hname : table' = table
  · subst hname
    exact ⟨g t, by rw [get?_mapTable, h, Option.map_some]⟩
  · exact ⟨t, by rw [get?_mapTable_of_ne g hname, h]⟩

theorem rows_mapTable_of_ne (g : Table → Table) (h : table' ≠ table) :
    (db.mapTable table g).rows table' = db.rows table' := by
  unfold rows
  rw [get?_mapTable_of_ne g h]

theorem rows_insertRow {t : Table} {row : Row} (h : db.tables.get? table = some t) :
    (db.insertRow table row).rows table = db.rows table ++ [row] := by
  unfold insertRow rows
  rw [get?_mapTable, h]
  rfl

/-- A row found after an insertion was there before, or is the new one. -/
theorem rowById_of_insertRow {row : Row} (h : (db.insertRow table row).rowById table id = some row') :
    db.rowById table id = some row' ∨
      db.rowById table id = none ∧ row' = row ∧ row.get? "id" = some (.text id) := by
  cases htbl : db.tables.get? table with
  | none =>
    unfold insertRow rowById rows at h
    rw [get?_mapTable, htbl] at h
    cases h
  | some t =>
    unfold rowById at h ⊢
    rw [rows_insertRow htbl, List.find?_append] at h
    cases hold : (db.rows table).find? fun r => r.get? "id" = some (.text id) with
    | some r =>
      rw [hold, Option.some_or] at h
      exact Or.inl h
    | none =>
      rw [hold, Option.none_or] at h
      have hmem : row' = row := by simpa using List.mem_of_find?_eq_some h
      have hid : row'.get? "id" = some (.text id) := by simpa using List.find?_some h
      exact Or.inr ⟨rfl, hmem, hmem ▸ hid⟩

theorem rowById_mapTable_of_ne (g : Table → Table) (h : table' ≠ table) :
    (db.mapTable table g).rowById table' id = db.rowById table' id := by
  unfold rowById
  rw [rows_mapTable_of_ne g h]

theorem rows_deleteRow : (db.deleteRow table id).rows table =
    (db.rows table).filter fun r => r.get? "id" ≠ some (.text id) := by
  unfold deleteRow rows
  rw [get?_mapTable]
  cases db.tables.get? table with
  | none => rfl
  | some t => rfl

/-- A row found after a deletion was there before, and is another. -/
theorem rowById_deleteRow {id' : Text} (h : (db.deleteRow table id).rowById table id' = some row') :
    id' ≠ id ∧ db.rowById table id' = some row' := by
  unfold rowById at h ⊢
  rw [rows_deleteRow, List.find?_filter] at h
  have hid : id' ≠ id := by
    rintro rfl
    have hfound := List.find?_some h
    simp at hfound
  refine ⟨hid, ?_⟩
  rw [← h]
  congr 1
  funext r
  by_cases hr : r.get? "id" = some (.text id')
  · have hne : ¬r.get? "id" = some (.text id) := by
      rw [hr]
      exact fun heq => hid (Value.text.inj (Option.some.inj heq))
    rw [decide_eq_true hr, decide_eq_true hne]
    rfl
  · rw [decide_eq_false hr]
    exact (decide_eq_false (by simp)).symm

theorem rows_updateRow : (db.updateRow table id updates).rows table =
    (db.rows table).map fun r =>
      if r.get? "id" = some (.text id) then Dict.update r updates else r := by
  unfold updateRow rows
  rw [get?_mapTable]
  cases db.tables.get? table with
  | none => rfl
  | some t => rfl

/-- An update that leaves the ids alone, seen from any id. -/
theorem rowById_updateRow_eq {id' : Text} (hid : "id".toList ∉ updates.keys) :
    (db.updateRow table id updates).rowById table id' =
      (db.rowById table id').map fun r =>
        if r.get? "id" = some (.text id) then Dict.update r updates else r := by
  have hkeeps : ∀ r : Row, (if r.get? "id" = some (.text id) then Dict.update r updates else r).get?
      "id" = r.get? "id" := by
    intro r
    split_ifs
    · exact Dict.get?_foldl_set_of_notMem Prod.fst Prod.snd updates r hid
    · rfl
  unfold rowById
  rw [rows_updateRow, List.find?_map]
  congr 2
  funext r
  rw [Function.comp_apply, hkeeps]

/-- Whether the updated row still has the id does not depend on the row. -/
theorem update_id {r s : Row} (hr : r.get? "id" = some (.text id)) (hs : s.get? "id" = some (.text id))
    (hupd : (Dict.update r updates).get? "id" = some (.text id)) :
    (Dict.update s updates).get? "id" = some (.text id) := by
  have hsame : (Dict.update r updates).get? "id" = (Dict.update s updates).get? "id" := by
    unfold Dict.update
    have hstart : r.get? "id" = s.get? "id" := hr.trans hs.symm
    clear hr hs hupd
    induction updates generalizing r s with
    | nil => exact hstart
    | cons e updates ih =>
      rw [List.foldl_cons, List.foldl_cons]
      refine ih ?_
      rw [Dict.get?_set, Dict.get?_set, hstart]
  rw [← hsame, hupd]

/-- A row found after an update is the row found before, updated. -/
theorem rowById_updateRow (h : (db.updateRow table id updates).rowById table id = some row') :
    ∃ row, db.rowById table id = some row ∧ row' = Dict.update row updates := by
  unfold rowById at h ⊢
  rw [rows_updateRow] at h
  generalize db.rows table = rows at h ⊢
  induction rows with
  | nil => cases h
  | cons r rows ih =>
    rw [List.map_cons, List.find?_cons] at h
    rw [List.find?_cons]
    by_cases hr : r.get? "id" = some (.text id)
    · rw [decide_eq_true hr]
      rw [if_pos hr] at h
      refine ⟨r, rfl, ?_⟩
      by_cases hupd : (Dict.update r updates).get? "id" = some (.text id)
      · rw [decide_eq_true hupd] at h
        exact (Option.some.inj h).symm
      · -- No row keeps the id, so nothing is found.
        rw [decide_eq_false hupd] at h
        have hmem := List.mem_of_find?_eq_some h
        have hid : row'.get? "id" = some (.text id) := by simpa using List.find?_some h
        obtain ⟨s, -, rfl⟩ := List.mem_map.1 hmem
        split_ifs at hid with hs
        · exact absurd (update_id hs hr hid) hupd
        · exact absurd hid hs
    · rw [decide_eq_false hr]
      rw [if_neg hr, decide_eq_false hr] at h
      exact ih h

end

end Db

namespace RecordStore

/-- The columns collected so far, and the errors. -/
structure Draft where
  columns : Row
  errors : Dict Text FieldError

namespace Draft

def setColumn (d : Draft) (name : Text) (v : Value) : Draft :=
  { d with columns := d.columns.set name v }

def addError (d : Draft) (field : Text) (e : FieldError) : Draft :=
  { d with errors := d.errors.set field e }

/-- The columns, unless there are errors. -/
def checked (d : Draft) : Except WriteError Row :=
  if d.errors = [] then .ok d.columns else .error (.validation d.errors)

end Draft

/-- `len(v)` -/
def pyLen : Value → Option ℕ
  | .text s => some s.length
  | .list vs => some vs.length
  | .obj fs => some fs.length
  | _ => none

/-- `data.get(key)` -/
def getKey (data : Row) (key : Text) : Value := (data.get? key).getD .null

/-- The password and its confirmation, once one is given. -/
def passwordColumns (w : Writer) (data : Row) (d : Draft) : Except WriteError Draft :=
  match pyLen (getKey data "password") with
  | none => .error .exception
  | some n =>
    if n < 8 then .ok (d.addError "password" .passwordLength)
    else if getKey data "passwordConfirm" ≠ getKey data "password" then
      .ok (d.addError "passwordConfirm" .mismatch)
    else
      match getKey data "password" with
      | .text p =>
        .ok ((d.setColumn "password_hash" (.text (w.hashPassword p))).setColumn "token_key"
          (.text w.tokenKey))
      | _ => .error .exception

/-- The email of the payload. -/
def emailColumn (rt : Runtime) (v : Value) (d : Draft) : Draft :=
  let email := Text.strip (Macros.idText rt v)
  match v with
  | .null => d.addError "email" .required
  | .text s =>
    if Text.strip s = [] then d.addError "email" .required
    else if isEmail email then d.setColumn "email" (.text email)
    else d.addError "email" .invalidEmail
  | _ => if isEmail email then d.setColumn "email" (.text email) else d.addError "email" .invalidEmail

/-! ## Creation -/

/-- `_AUTH_COLUMNS_HANDLED_SEPARATELY` -/
def authColumnsHandledSeparately : List Text :=
  ["email", "email_visibility", "emailVisibility", "verified"]

/-- The keys `create_record` takes out of the payload. -/
def takenKeys (c : Collection) : List Text :=
  let auth : List Text := ["password_hash", "token_key", "password", "passwordConfirm", "email",
    "email_visibility", "verified"]
  let superusers : List Text := if c.name = "_superusers".toList then ["emailVisibility"] else []
  "id".toList :: if c.type = .auth then auth ++ superusers else []

/-- The uploads of one field may be saved. -/
def uploadsPass (w : Writer) (f : Field) (uploads : List Upload) : Bool :=
  uploads.all fun u => (w.checkUpload f u).isNone

/-- The value of a field for the names its uploads were saved under. -/
def savedValue (f : Field) (names : List Text) : Value :=
  if f.maxSelect = 1 then .text (names.headD []) else .list (names.map .text)

/-- The file field a key of the uploads is for. -/
def fileField? (c : Collection) (key : Text) : Option Field :=
  (c.fieldMap.get? key).filter fun f => f.type = .file

/-- The uploads of one key, saved and named in the payload. -/
def putUpload (w : Writer) (c : Collection) (data : Row) (e : Text × List Upload) : Row :=
  match fileField? c e.1 with
  | some f =>
    if uploadsPass w f e.2 then data.set e.1 (savedValue f (w.saveFiles e.1 e.2)) else data
  | none => data

/-- The payload with the names of the saved uploads. -/
def putUploads (w : Writer) (c : Collection) (files : Dict Text (List Upload)) (data : Row) : Row :=
  files.foldl (putUpload w c) data

/-- The payload as `create_record` leaves it. -/
def createdPayload (w : Writer) (c : Collection) (files : Dict Text (List Upload)) (data : Row) :
    Row :=
  putUploads w c files ((takenKeys c).foldl Dict.del data)

/-- The errors of the uploads. -/
def uploadErrors (w : Writer) (c : Collection) (files : Dict Text (List Upload)) (d : Draft) :
    Draft :=
  files.foldl (fun d e =>
    match fileField? c e.1 with
    | some f => (e.2.filterMap (w.checkUpload f)).foldl (fun d err => d.addError f.name err) d
    | none => d) d

/-- The visibility of the email and the verification, of any auth collection but the
superusers'. -/
def flagColumns (c : Collection) (data : Row) (d : Draft) : Draft :=
  if c.name = "_superusers".toList then d
  else
    (d.setColumn "email_visibility" (.bool (getKey data "email_visibility").truthy)).setColumn
      "verified" (.bool (getKey data "verified").truthy)

/-- The system columns of an auth record. -/
def authColumns (w : Writer) (rt : Runtime) (c : Collection) (data : Row) (d : Draft) :
    Except WriteError Draft :=
  let password :=
    if (getKey data "password").truthy then passwordColumns w data d
    else .ok (d.addError "password" .required)
  password.map fun d => flagColumns c data (emailColumn rt (getKey data "email") d)

/-- A field of the schema is written from the payload. -/
def writesField (c : Collection) (f : Field) : Bool :=
  f.type ≠ .autodate && !(c.type = .auth && f.name ∈ authColumnsHandledSeparately)

/-- One field of the schema. -/
def fieldColumn (w : Writer) (c : Collection) (payload : Row) (d : Draft) (f : Field) : Draft :=
  if writesField c f then
    match w.checkField f (getKey payload f.name) with
    | .ok v => d.setColumn f.name v
    | .error e => d.addError f.name e
  else d

/-- The id of a new record. -/
def createdId (w : Writer) (data : Row) : Except WriteError Text :=
  match getKey data "id" with
  | .null | .text [] => .ok w.newId
  | v =>
    match w.recordId? v with
    | some id => .ok id
    | none => .error (.validation [("id", .invalidRecordId)])

/-- The columns of every new record. -/
def newColumns (w : Writer) (id : Text) : Draft :=
  ⟨[("id", .text id), ("created", .time w.now), ("updated", .time w.now)], []⟩

/-- The columns of a new record and its errors. -/
def createDraft (w : Writer) (rt : Runtime) (c : Collection) (id : Text) (data : Row)
    (files : Dict Text (List Upload)) : Except WriteError Draft :=
  let system :=
    if c.type = .auth then authColumns w rt c data (newColumns w id) else .ok (newColumns w id)
  system.map fun d =>
    c.schema.foldl (fieldColumn w c (createdPayload w c files data)) (uploadErrors w c files d)

/-- A record has the email, one other than `except` if an id is given. -/
def emailTaken (db : Db) (c : Collection) (except : Option Text) (email : Value) : Bool :=
  (db.rows c.name).any fun r => r.get? "email" = some email &&
    match except with
    | none => true
    | some id => r.get? "id" ≠ some (.text id)

/-- The email of a new or changed auth record is in use already. -/
def emailConflict (db : Db) (c : Collection) (except : Option Text) (columns : Row) : Bool :=
  c.type = .auth && (columns.get? "email").any fun email => email.truthy && emailTaken db c except email

/-- `create_record`. The result is the new state, the id, and the payload as it is left. -/
def createRecord (w : Writer) (rt : Runtime) (db : Db) (c : Collection) (data : Row)
    (files : Dict Text (List Upload)) : Except WriteError (Db × Text × Row) := do
  let id ← createdId w data
  let d ← createDraft w rt c id data files
  let columns ← d.checked
  if emailConflict db c none columns then .error (.validation [("email", .notUnique)])
  else if (db.rowById c.name id).isSome ∨ w.accepts c.name columns = false then .error .exception
  else .ok (db.insertRow c.name columns, id, createdPayload w c files data)

/-! ## Updates -/

/-- The modifier of a payload key. -/
inductive KeyModifier
  | append | prepend | remove
  deriving DecidableEq

/-- `_parse_modifier_key` -/
def parseModifierKey (key : Text) : Text × Option KeyModifier :=
  match key with
  | '+' :: name => (name, some .prepend)
  | key =>
    if key.getLast? = some '+' then (key.dropLast, some .append)
    else if key.getLast? = some '-' then (key.dropLast, some .remove)
    else (key, none)

/-- `q * 2 ^ e` -/
def scale (q : Rat) (e : ℤ) : Rat :=
  if 0 ≤ e then q * (2 ^ e.toNat : ℕ) else q / (2 ^ (-e).toNat : ℕ)

/-- The integer nearest to a number, the even one if there are two. -/
def roundHalfEven (q : Rat) : ℤ :=
  if 1 < 2 * (q - q.floor) ∨ 2 * (q - q.floor) = 1 ∧ q.floor % 2 = 1 then q.floor + 1 else q.floor

/-- The exponent of the last bit of a double next to the number. -/
def lastBit (q : Rat) : ℤ :=
  let e : ℤ := q.num.natAbs.log2 - q.den.log2
  max ((if scale (if q < 0 then -q else q) (-e) < 1 then e - 1 else e) - 52) (-1074)

/-- The double nearest to a number, if it is not too large. -/
def double (q : Rat) : Option Rat :=
  let d := scale (roundHalfEven (scale q (-lastBit q))) (lastBit q)
  if -(2 ^ 1024 : ℕ) < d ∧ d < (2 ^ 1024 : ℕ) then some d else none

/-- A tie is broken towards the even number. -/
example : double (2 ^ 53 + 1) = some (2 ^ 53) := by decide +kernel

/-- `float(v)`, with 0 for `None`. -/
def floatOr0 (rt : Runtime) : Value → Except WriteError Rat
  | .null => .ok 0
  | .num q =>
    match double q with
    | some d => .ok d
    | none => .error .exception
  | .bool b => .ok (if b then 1 else 0)
  | .text s =>
    match rt.float s with
    | some q => .ok q
    | none => .error .exception
  | _ => .error .exception

/-- `_coerce_modifier_values` -/
def coerceModifierValues : Value → List Value
  | .list vs => vs
  | .null | .text [] => []
  | v => [v]

/-- The values a modifier adds or removes. -/
def modifierValues : Value → List Value
  | .list vs => vs
  | .null => []
  | v => [v]

/-- `_apply_append`, `_apply_prepend` and `_apply_remove` -/
def applyModifier (rt : Runtime) (f : Field) (m : KeyModifier) (current new : Value) :
    Except WriteError Value :=
  if f.type = .number then do
    let cur ← floatOr0 rt current
    let step ← floatOr0 rt new
    match double (if m = .remove then cur - step else cur + step) with
    | some d => .ok (.num d)
    -- An infinity is not a `Value`.
    | none => .error .exception
  else
    let cur := coerceModifierValues current
    match m with
    | .append => .ok (.list (cur ++ modifierValues new))
    | .prepend => .ok (.list (modifierValues new ++ cur))
    | .remove =>
      let removed := (modifierValues new).map (Macros.idText rt)
      .ok (.list (cur.filter fun v => Macros.idText rt v ∉ removed))

/-- One key of the payload. -/
def applyKey (rt : Runtime) (c : Collection) (state : Row) (e : Text × Value) :
    Except WriteError Row :=
  if e.1 = "id".toList then .ok state
  else
    let (name, modifier) := parseModifierKey e.1
    match c.fieldMap.get? name with
    | none => .ok state
    | some f =>
      if f.type = .autodate then .ok state
      else
        match modifier with
        | some m => (applyModifier rt f m (getKey state name) e.2).map (state.set name)
        | none => .ok (state.set name e.2)

/-- `_coerce_file_value` -/
def coerceFileValue (f : Field) (names : List Text) : Value :=
  if 1 < f.maxSelect then .list (names.map .text) else .text (names.getLastD [])

/-- The uploads of one key. -/
def applyUploads (w : Writer) (rt : Runtime) (c : Collection) (state : Row)
    (e : Text × List Upload) : Except WriteError Row :=
  let (name, modifier) := parseModifierKey e.1
  match fileField? c name with
  | none => .ok state
  | some f =>
    if uploadsPass w f e.2 then
      let names := w.saveFiles name e.2
      match modifier with
      | some .append | some .prepend =>
        (applyModifier rt f (modifier.getD .append) (getKey state name)
          (.list (names.map .text))).map (state.set name)
      | _ => .ok (state.set name (coerceFileValue f names))
    else .ok state

/-- The fields of the row, before the payload is applied. -/
def initialState (c : Collection) (row : Row) : Row :=
  c.fieldMap.filterMap fun e =>
    if e.2.type = .autodate then none else some (e.1, getKey row e.1)

/-- The fields of the row once payload and uploads are applied. -/
def fieldState (w : Writer) (rt : Runtime) (c : Collection) (row data : Row)
    (files : Dict Text (List Upload)) : Except WriteError Row := do
  let state ← data.foldlM (applyKey rt c) (initialState c row)
  files.foldlM (applyUploads w rt c) state

/-- The keys `update_record` takes out of the payload. -/
def updateTakenKeys (c : Collection) (data : Row) : List Text :=
  let auth : List Text := ["password_hash", "token_key", "password", "passwordConfirm", "email",
    "email_visibility", "verified"]
  let camel : List Text :=
    if c.name = "_superusers".toList ∨ !data.has "email_visibility" then ["emailVisibility"] else []
  if c.type = .auth then auth ++ camel else []

/-- The visibility of the email, under either of its names, and the verification. -/
def flagUpdates (c : Collection) (data : Row) (d : Draft) : Draft :=
  if c.name = "_superusers".toList then d
  else
    let d :=
      if data.has "email_visibility" then
        d.setColumn "email_visibility" (.bool (getKey data "email_visibility").truthy)
      else if data.has "emailVisibility" then
        d.setColumn "email_visibility" (.bool (getKey data "emailVisibility").truthy)
      else d
    if data.has "verified" then d.setColumn "verified" (.bool (getKey data "verified").truthy) else d

/-- `update_record` : the system columns of an auth record. -/
def authUpdates (w : Writer) (rt : Runtime) (c : Collection) (data : Row) (d : Draft) :
    Except WriteError Draft :=
  let password := if getKey data "password" = .null then .ok d else passwordColumns w data d
  password.map fun d =>
    flagUpdates c data (if data.has "email" then emailColumn rt (getKey data "email") d else d)

/-- Python's `==` of a field's value and the column. -/
def sameValue : Value → Value → Bool
  | .bool b, .num q | .num q, .bool b => q = if b then 1 else 0
  | v, w => v = w

/-- One field of the final state. -/
def changedColumn (w : Writer) (c : Collection) (row : Row) (d : Draft) (e : Text × Value) : Draft :=
  match c.fieldMap.get? e.1 with
  | none => d
  | some f =>
    if f.type = .autodate ∨ sameValue e.2 (getKey row e.1) = true then d
    else
      match w.checkField f e.2 with
      | .ok v => d.setColumn e.1 v
      | .error err => d.addError f.name err

/-- The errors of the uploads, by the fields their keys name. -/
def updateUploadErrors (w : Writer) (c : Collection) (files : Dict Text (List Upload)) (d : Draft) :
    Draft :=
  uploadErrors w c (files.map fun e => ((parseModifierKey e.1).1, e.2)) d

/-- The columns an update writes and its errors. -/
def updateDraft (w : Writer) (rt : Runtime) (c : Collection) (row data : Row)
    (files : Dict Text (List Upload)) : Except WriteError Draft := do
  let d : Draft := ⟨[("updated", .time w.now)], []⟩
  let d ← (if c.type = .auth then authUpdates w rt c data d else .ok d : Except WriteError Draft)
  let state ← fieldState w rt c row ((updateTakenKeys c data).foldl Dict.del data) files
  return state.foldl (changedColumn w c row) (updateUploadErrors w c files d)

/-- The columns of an update written to the database. -/
def writeUpdates (w : Writer) (db : Db) (c : Collection) (id : Text) (row columns : Row) :
    Except WriteError Db :=
  if emailConflict db c (some id) columns then .error (.validation [("email", .notUnique)])
  else if columns.length ≤ 1 then .ok db
  else if w.accepts c.name (Dict.update row columns) then .ok (db.updateRow c.name id columns)
  else .error .exception

/-- `update_record` -/
def updateRecord (w : Writer) (rt : Runtime) (db : Db) (c : Collection) (id : Text) (data : Row)
    (files : Dict Text (List Upload)) : Except WriteError (Option Db) :=
  if (w.recordId? (.text id)).isNone then .error .exception
  else
    match db.rowById c.name id with
    | none => .ok none
    | some row => do
      let d ← updateDraft w rt c row data files
      let columns ← d.checked
      let db' ← writeUpdates w db c id row columns
      return some db'

/-! ## What a write leaves alone -/

section

variable {w : Writer} {rt : Runtime} {c : Collection} {data row : Row}
  {files : Dict Text (List Upload)} {k : Text}

/-- The uploads of a field are saved. -/
def Saves (w : Writer) (c : Collection) (files : Dict Text (List Upload)) (k : Text) : Prop :=
  ∃ e ∈ files, e.1 = k ∧ ∃ f, fileField? c k = some f ∧ uploadsPass w f e.2 = true

theorem has_putUploads : ∀ (files : Dict Text (List Upload)) (data : Row),
    (putUploads w c files data).has k = true ↔ Saves w c files k ∨ data.has k = true
  | [], data => by simp [putUploads, Saves]
  | e :: files, data => by
    have hcons : Saves w c (e :: files) k ↔
        (e.1 = k ∧ ∃ f, fileField? c k = some f ∧ uploadsPass w f e.2 = true) ∨
          Saves w c files k := by
      simp only [Saves, List.mem_cons, exists_eq_or_imp]
    have hhas : ∀ v : Value, (data.set e.1 v).has k = true ↔ e.1 = k ∨ data.has k = true := by
      intro v
      unfold Dict.has
      rw [Dict.get?_set]
      split_ifs with hk <;> simp [hk]
    have hstep : putUploads w c (e :: files) data = putUploads w c files (putUpload w c data e) :=
      rfl
    rw [hstep, has_putUploads files, hcons]
    unfold putUpload
    cases hf : fileField? c e.1 with
    | none =>
      have hnot : ¬(e.1 = k ∧ ∃ f, fileField? c k = some f ∧ uploadsPass w f e.2 = true) := by
        rintro ⟨rfl, f, hk, -⟩
        rw [hf] at hk
        cases hk
      rw [or_iff_right hnot]
    | some f =>
      dsimp only
      split_ifs with hpass
      · have hsaved : (e.1 = k ∧ ∃ f, fileField? c k = some f ∧ uploadsPass w f e.2 = true) ↔
            e.1 = k := ⟨And.left, fun hk => ⟨hk, f, hk ▸ hf, hpass⟩⟩
        rw [hsaved, hhas]
        tauto
      · have hnot : ¬(e.1 = k ∧ ∃ f, fileField? c k = some f ∧ uploadsPass w f e.2 = true) := by
          rintro ⟨rfl, f', hk, hp⟩
          obtain rfl := Option.some.inj (hf.symm.trans hk)
          exact hpass hp
        rw [or_iff_right hnot]

theorem get?_putUploads : ∀ {files : Dict Text (List Upload)} (data : Row),
    (∀ e ∈ files, e.1 ≠ k) → (putUploads w c files data).get? k = data.get? k
  | [], _, _ => rfl
  | e :: files, data, h => by
    have hstep : putUploads w c (e :: files) data = putUploads w c files (putUpload w c data e) :=
      rfl
    rw [hstep, get?_putUploads _ fun e' he' => h e' (List.mem_cons_of_mem _ he')]
    have hk := h e List.mem_cons_self
    unfold putUpload
    split
    · split_ifs
      · exact Dict.get?_set_ne _ _ hk
      · rfl
    · rfl

/-- What the payload of a creation holds in the end : what was saved, and what was not
taken out. -/
theorem has_createdPayload : (createdPayload w c files data).has k = true ↔
    Saves w c files k ∨ (data.has k = true ∧ k ∉ takenKeys c) := by
  unfold createdPayload
  rw [has_putUploads]
  refine or_congr Iff.rfl ?_
  unfold Dict.has
  rw [Dict.get?_foldl_del]
  split_ifs with hk <;> simp [hk]

theorem get?_createdPayload (hfiles : ∀ e ∈ files, e.1 ≠ k) (hk : k ∉ takenKeys c) :
    (createdPayload w c files data).get? k = data.get? k := by
  unfold createdPayload
  rw [get?_putUploads _ hfiles, Dict.get?_foldl_del, if_neg hk]

theorem uploadErrors_columns (files : Dict Text (List Upload)) (d : Draft) :
    (uploadErrors w c files d).columns = d.columns := by
  unfold uploadErrors
  induction files generalizing d with
  | nil => rfl
  | cons e files ih =>
    rw [List.foldl_cons, ih]
    split
    · rename_i f _
      induction e.2.filterMap (w.checkUpload f) generalizing d with
      | nil => rfl
      | cons err errs ih' => rw [List.foldl_cons, ih', Draft.addError]
    · rfl

/-- What a plain key or a modifier key leaves alone. -/
def Spares (c : Collection) (key k : Text) : Prop :=
  (parseModifierKey key).1 = k → c.fieldMap.get? k = none

theorem applyKey_other {state state' : Row} {e : Text × Value} (h : applyKey rt c state e = .ok state')
    (hk : e.1 ≠ "id".toList → Spares c e.1 k) {x : Text × Value} (hx : x ∈ state') (hxk : x.1 = k) :
    x ∈ state := by
  unfold applyKey at h
  split_ifs at h with hid
  · rw [Except.ok.inj h]
    exact hx
  dsimp only at h
  split at h
  · rw [Except.ok.inj h]
    exact hx
  · rename_i f hf
    have hset : ∀ v, x ∈ state.set (parseModifierKey e.1).1 v → x ∈ state := by
      intro v hv
      rcases Dict.mem_set hv with rfl | hv
      · have hnone := hk hid hxk
        rw [← hxk, hf] at hnone
        cases hnone
      · exact hv
    split_ifs at h
    · rw [Except.ok.inj h]
      exact hx
    · split at h
      · obtain ⟨v, -, rfl⟩ := Failing.map_eq_ok.1 h
        exact hset v hx
      · obtain rfl := Except.ok.inj h
        exact hset _ hx

theorem fileField?_eq_none {key : Text} (h : c.fieldMap.get? key = none) : fileField? c key = none := by
  unfold fileField?
  rw [h]
  rfl

theorem applyUploads_other {state state' : Row} {e : Text × List Upload}
    (h : applyUploads w rt c state e = .ok state') (hk : Spares c e.1 k)
    {x : Text × Value} (hx : x ∈ state') (hxk : x.1 = k) : x ∈ state := by
  unfold applyUploads at h
  dsimp only at h
  split at h
  · rw [Except.ok.inj h]
    exact hx
  · rename_i f hf
    have hset : ∀ v, x ∈ state.set (parseModifierKey e.1).1 v → x ∈ state := by
      intro v hv
      rcases Dict.mem_set hv with rfl | hv
      · have hnone := fileField?_eq_none (hk hxk)
        rw [← hxk, hf] at hnone
        cases hnone
      · exact hv
    split_ifs at h
    · split at h
      · obtain ⟨v, -, rfl⟩ := Failing.map_eq_ok.1 h
        exact hset v hx
      · obtain ⟨v, -, rfl⟩ := Failing.map_eq_ok.1 h
        exact hset v hx
      · obtain rfl := Except.ok.inj h
        exact hset _ hx
    · rw [Except.ok.inj h]
      exact hx

/-- A field no key and no upload names keeps the value of the row. -/
theorem fieldState_other {state : Row} (h : fieldState w rt c row data files = .ok state)
    (hdata : ∀ e ∈ data, e.1 ≠ "id".toList → Spares c e.1 k)
    (hfiles : ∀ e ∈ files, Spares c e.1 k) :
    ∀ x ∈ state, x.1 = k → x.2 = getKey row k := by
  unfold fieldState at h
  obtain ⟨mid, hmid, h⟩ := Failing.bind_eq_ok.1 h
  have hinit : ∀ x ∈ initialState c row, x.1 = k → x.2 = getKey row k := by
    intro x hx hxk
    obtain ⟨e, -, he⟩ := List.mem_filterMap.1 hx
    split_ifs at he
    obtain rfl := Option.some.inj he
    exact congrArg (getKey row) hxk
  have hkeys : ∀ x ∈ mid, x.1 = k → x.2 = getKey row k := by
    refine Failing.foldlM_invariant (P := fun s : Row => ∀ x ∈ s, x.1 = k → x.2 = getKey row k) ?_
      hinit hmid
    intro e he s s' hs hstep x hx hxk
    exact hs x (applyKey_other hstep (hdata e he) hx hxk) hxk
  refine Failing.foldlM_invariant (P := fun s : Row => ∀ x ∈ s, x.1 = k → x.2 = getKey row k) ?_
    hkeys h
  intro e he s s' hs hstep x hx hxk
  exact hs x (applyUploads_other hstep (hfiles e he) hx hxk) hxk

theorem sameValue_self (v : Value) : sameValue v v = true := by
  cases v <;> simp [sameValue]

/-- A field that kept its value is not written. -/
theorem changedColumns_other : ∀ {state : Row} (d : Draft),
    (∀ x ∈ state, x.1 = k → x.2 = getKey row k) →
      (state.foldl (changedColumn w c row) d).columns.get? k = d.columns.get? k
  | [], _, _ => rfl
  | x :: state, d, h => by
    rw [List.foldl_cons, changedColumns_other _ fun y hy => h y (List.mem_cons_of_mem _ hy)]
    unfold changedColumn
    split
    · rfl
    · split_ifs with hsame
      · rfl
      · have hxk : x.1 ≠ k := by
          intro hxk
          refine hsame (Or.inr ?_)
          rw [h x List.mem_cons_self hxk, hxk]
          exact sameValue_self _
        split
        · exact Dict.get?_set_ne _ _ hxk
        · rfl

variable {d : Draft}

theorem passwordColumns_other {d' : Draft} (h : passwordColumns w data d = .ok d')
    (hk : k ≠ "password_hash" ∧ k ≠ "token_key") : d'.columns.get? k = d.columns.get? k := by
  unfold passwordColumns at h
  split at h
  · cases h
  split_ifs at h
  · obtain rfl := Except.ok.inj h
    rfl
  · obtain rfl := Except.ok.inj h
    rfl
  · split at h
    · obtain rfl := Except.ok.inj h
      exact (Dict.get?_set_ne _ _ (Ne.symm hk.2)).trans (Dict.get?_set_ne _ _ (Ne.symm hk.1))
    · cases h

theorem emailColumn_other (v : Value) (d : Draft) (hk : k ≠ "email") :
    (emailColumn rt v d).columns.get? k = d.columns.get? k := by
  have hset : ∀ v, (d.setColumn "email" v).columns.get? k = d.columns.get? k :=
    fun v => Dict.get?_set_ne _ _ (Ne.symm hk)
  unfold emailColumn
  dsimp only
  split
  · rfl
  · split_ifs
    · rfl
    · exact hset _
    · rfl
  · split_ifs
    · exact hset _
    · rfl

/-! ### What a draft without errors holds -/

/-- A draft with more columns written and more errors. -/
inductive Draft.Grows (d : Draft) : Draft → Prop
  | refl : Grows d d
  | setColumn {d' : Draft} (name : Text) (v : Value) (h : Grows d d') : Grows d (d'.setColumn name v)
  | addError {d' : Draft} (field : Text) (e : FieldError) (h : Grows d d') :
      Grows d (d'.addError field e)

namespace Draft.Grows

variable {d d₁ d' : Draft}

theorem trans (h : d.Grows d₁) (h' : d₁.Grows d') : d.Grows d' := by
  induction h' with
  | refl => exact h
  | setColumn name v _ ih => exact ih.setColumn name v
  | addError field e _ ih => exact ih.addError field e

theorem errors (h : d.Grows d') (herrors : d'.errors = []) : d.errors = [] := by
  induction h with
  | refl => exact herrors
  | setColumn name v _ ih => exact ih herrors
  | addError field e _ _ => exact absurd herrors (Dict.set_ne_nil _ _ _)

/-- A column is written once at most. -/
theorem nodup (h : d.Grows d') (hd : d.columns.keys.Nodup) : d'.columns.keys.Nodup := by
  induction h with
  | refl => exact hd
  | setColumn name v _ ih => exact Dict.nodup_keys_set ih name v
  | addError field e _ ih => exact ih

/-- A column that is written stays. -/
theorem has {k : Text} (h : d.Grows d') (hd : d.columns.has k = true) : d'.columns.has k = true := by
  induction h with
  | refl => exact hd
  | setColumn name v _ ih =>
    unfold Dict.has
    rw [show (Draft.setColumn _ name v).columns = Dict.set _ name v from rfl, Dict.get?_set]
    split_ifs
    · rfl
    · exact ih
  | addError field e _ ih => exact ih

theorem foldl {α : Type} {f : Draft → α → Draft} (h : ∀ (d : Draft) (x : α), d.Grows (f d x)) :
    ∀ (xs : List α) (d : Draft), d.Grows (xs.foldl f d)
  | [], _ => .refl
  | x :: xs, d => (h d x).trans (foldl h xs (f d x))

end Draft.Grows

section

variable {d d' : Draft}

theorem errors_addError {field : Text} {e : FieldError} : (d.addError field e).errors ≠ [] :=
  Dict.set_ne_nil _ _ _

theorem grows_fieldColumn (payload : Row) (d : Draft) (f : Field) :
    d.Grows (fieldColumn w c payload d f) := by
  unfold fieldColumn
  split_ifs
  · split
    · exact .setColumn _ _ .refl
    · exact .addError _ _ .refl
  · exact .refl

theorem grows_uploadErrors : d.Grows (uploadErrors w c files d) := by
  unfold uploadErrors
  refine Draft.Grows.foldl (fun d e => ?_) files d
  split
  · exact Draft.Grows.foldl (fun d err => .addError _ err .refl) _ d
  · exact .refl

theorem grows_emailColumn {v : Value} : d.Grows (emailColumn rt v d) := by
  unfold emailColumn
  dsimp only
  split
  · exact .addError _ _ .refl
  · split_ifs
    · exact .addError _ _ .refl
    · exact .setColumn _ _ .refl
    · exact .addError _ _ .refl
  · split_ifs
    · exact .setColumn _ _ .refl
    · exact .addError _ _ .refl

theorem grows_passwordColumns (h : passwordColumns w data d = .ok d') : d.Grows d' := by
  unfold passwordColumns at h
  split at h
  · cases h
  split_ifs at h
  · obtain rfl := Except.ok.inj h
    exact .addError _ _ .refl
  · obtain rfl := Except.ok.inj h
    exact .addError _ _ .refl
  · split at h
    · obtain rfl := Except.ok.inj h
      exact .setColumn _ _ (.setColumn _ _ .refl)
    · cases h

/-- The columns of a given password. -/
theorem of_passwordColumns (h : passwordColumns w data d = .ok d') (herrors : d'.errors = []) :
    ∃ p, getKey data "password" = .text p ∧
      d'.columns.get? "password_hash" = some (.text (w.hashPassword p)) ∧
      d'.columns.get? "token_key" = some (.text w.tokenKey) := by
  unfold passwordColumns at h
  split at h
  · cases h
  split_ifs at h
  · obtain rfl := Except.ok.inj h
    exact absurd herrors errors_addError
  · obtain rfl := Except.ok.inj h
    exact absurd herrors errors_addError
  · split at h
    · rename_i p hp
      obtain rfl := Except.ok.inj h
      refine ⟨p, hp, ?_, Dict.get?_set_self _ _ _⟩
      exact (Dict.get?_set_ne _ _ (by decide)).trans (Dict.get?_set_self _ _ _)
    · cases h

theorem get?_flagColumns (hk : k ≠ "email_visibility".toList ∧ k ≠ "verified".toList) :
    (flagColumns c data d).columns.get? k = d.columns.get? k := by
  unfold flagColumns
  split_ifs
  · rfl
  · exact (Dict.get?_set_ne _ _ (Ne.symm hk.2)).trans (Dict.get?_set_ne _ _ (Ne.symm hk.1))

theorem grows_flagColumns : d.Grows (flagColumns c data d) := by
  unfold flagColumns
  split_ifs
  · exact .refl
  · exact .setColumn _ _ (.setColumn _ _ .refl)

theorem get?_flagUpdates (hk : k ≠ "email_visibility".toList ∧ k ≠ "verified".toList) :
    (flagUpdates c data d).columns.get? k = d.columns.get? k := by
  have hvisibility : ∀ v, (d.setColumn "email_visibility" v).columns.get? k = d.columns.get? k :=
    fun v => Dict.get?_set_ne _ _ (Ne.symm hk.1)
  have hverified : ∀ (d : Draft) (v : Value),
      (d.setColumn "verified" v).columns.get? k = d.columns.get? k :=
    fun d v => Dict.get?_set_ne _ _ (Ne.symm hk.2)
  unfold flagUpdates
  split_ifs
  · rfl
  · exact (hverified _ _).trans (hvisibility _)
  · exact hvisibility _
  · exact (hverified _ _).trans (hvisibility _)
  · exact hvisibility _
  · exact hverified _ _
  · rfl

theorem grows_flagUpdates : d.Grows (flagUpdates c data d) := by
  unfold flagUpdates
  split_ifs
  · exact .refl
  · exact .setColumn _ _ (.setColumn _ _ .refl)
  · exact .setColumn _ _ .refl
  · exact .setColumn _ _ (.setColumn _ _ .refl)
  · exact .setColumn _ _ .refl
  · exact .setColumn _ _ .refl
  · exact .refl

theorem grows_authUpdates (h : authUpdates w rt c data d = .ok d') : d.Grows d' := by
  obtain ⟨d₁, h₁, rfl⟩ := Failing.map_eq_ok.1 h
  have hpassword : d.Grows d₁ := by
    split_ifs at h₁
    · obtain rfl := Except.ok.inj h₁
      exact .refl
    · exact grows_passwordColumns h₁
  have hemail : d₁.Grows (if data.has "email" then emailColumn rt (getKey data "email") d₁ else d₁) := by
    split_ifs
    · exact grows_emailColumn
    · exact .refl
  exact hpassword.trans (hemail.trans grows_flagUpdates)

/-- A password that is given is written, with a new key. -/
theorem authUpdates_credentials (h : authUpdates w rt c data d = .ok d') (herrors : d'.errors = [])
    (hgiven : getKey data "password" ≠ .null) :
    ∃ p, getKey data "password" = .text p ∧
      d'.columns.get? "password_hash" = some (.text (w.hashPassword p)) ∧
      d'.columns.get? "token_key" = some (.text w.tokenKey) := by
  obtain ⟨d₁, h₁, rfl⟩ := Failing.map_eq_ok.1 h
  rw [if_neg hgiven] at h₁
  replace herrors := grows_flagUpdates.errors herrors
  rw [get?_flagUpdates (by decide), get?_flagUpdates (by decide)]
  split_ifs at herrors ⊢
  · obtain ⟨p, hp, hhash, hkey⟩ := of_passwordColumns h₁ (grows_emailColumn.errors herrors)
    refine ⟨p, hp, ?_, ?_⟩
    · rw [emailColumn_other _ _ (by decide), hhash]
    · rw [emailColumn_other _ _ (by decide), hkey]
  · exact of_passwordColumns h₁ herrors

theorem grows_changedColumn (d : Draft) (e : Text × Value) : d.Grows (changedColumn w c row d e) := by
  unfold changedColumn
  split
  · exact .refl
  · split_ifs
    · exact .refl
    · split
      · exact .setColumn _ _ .refl
      · exact .addError _ _ .refl

/-- What an update starts from. -/
theorem grows_updateDraft (h : updateDraft w rt c row data files = .ok d) :
    Draft.Grows ⟨[("updated", .time w.now)], []⟩ d := by
  unfold updateDraft at h
  obtain ⟨d₁, h₁, h⟩ := Failing.bind_eq_ok.1 h
  obtain ⟨state, -, h⟩ := Failing.bind_eq_ok.1 h
  obtain rfl := Except.ok.inj h
  have hgrows : Draft.Grows ⟨[("updated", .time w.now)], []⟩ d₁ := by
    split_ifs at h₁
    · exact grows_authUpdates h₁
    · obtain rfl := Except.ok.inj h₁
      exact .refl
  have huploads : d₁.Grows (updateUploadErrors w c files d₁) := grows_uploadErrors
  exact (hgrows.trans huploads).trans (Draft.Grows.foldl grows_changedColumn state _)

/-- An update writes a column once at most. -/
theorem nodup_updateDraft (h : updateDraft w rt c row data files = .ok d) : d.columns.keys.Nodup :=
  (grows_updateDraft h).nodup (List.nodup_singleton _)

end

/-- The payload has no key that `update_record` writes this system column from. -/
structure NoAuthKey (data : Row) (k : Text) : Prop where
  password : k = "password_hash" ∨ k = "token_key" → getKey data "password" = .null
  email : k = "email" → data.has "email" = false
  visibility : k = "email_visibility" →
    data.has "email_visibility" = false ∧ data.has "emailVisibility" = false
  verified : k = "verified" → data.has "verified" = false

theorem setColumn_other (d : Draft) {name : Text} (v : Value) (hk : k ≠ name) :
    (d.setColumn name v).columns.get? k = d.columns.get? k :=
  Dict.get?_set_ne _ _ (Ne.symm hk)

theorem flagUpdates_other (d : Draft) (hk : NoAuthKey data k) :
    (flagUpdates c data d).columns.get? k = d.columns.get? k := by
  have hverified : ∀ d : Draft, (if data.has "verified" then
      d.setColumn "verified" (.bool (getKey data "verified").truthy) else d).columns.get? k =
        d.columns.get? k := by
    intro d
    split_ifs with hhas
    · refine setColumn_other d _ fun hkk => ?_
      rw [hk.verified hkk] at hhas
      cases hhas
    · rfl
  unfold flagUpdates
  by_cases hsuper : c.name = "_superusers".toList
  · rw [if_pos hsuper]
  rw [if_neg hsuper]
  dsimp only
  rw [hverified]
  split_ifs with hsnake hcamel
  · refine setColumn_other d _ fun hkk => ?_
    rw [(hk.visibility hkk).1] at hsnake
    cases hsnake
  · refine setColumn_other d _ fun hkk => ?_
    rw [(hk.visibility hkk).2] at hcamel
    cases hcamel
  · rfl

theorem authUpdates_other {d' : Draft} (h : authUpdates w rt c data d = .ok d')
    (hk : NoAuthKey data k) : d'.columns.get? k = d.columns.get? k := by
  obtain ⟨d₁, h₁, rfl⟩ := Failing.map_eq_ok.1 h
  rw [flagUpdates_other _ hk]
  have hpassword : d₁.columns.get? k = d.columns.get? k := by
    split_ifs at h₁ with hnull
    · obtain rfl := Except.ok.inj h₁
      rfl
    · refine passwordColumns_other h₁ ⟨?_, ?_⟩
      · exact fun hkk => hnull (hk.password (Or.inl hkk))
      · exact fun hkk => hnull (hk.password (Or.inr hkk))
  split_ifs with hhas
  · rw [emailColumn_other, hpassword]
    intro hkk
    rw [hk.email hkk] at hhas
    cases hhas
  · exact hpassword

/-- Plain and modifier keys and uploads that are not for a column leave it as the system
columns have it. -/
theorem updateDraft_fields (h : updateDraft w rt c row data files = .ok d)
    (hdata : ∀ e ∈ data, e.1 ∉ updateTakenKeys c data → e.1 ≠ "id".toList → Spares c e.1 k)
    (hfiles : ∀ e ∈ files, Spares c e.1 k) :
    ∃ d₁, (if c.type = .auth then authUpdates w rt c data ⟨[("updated", .time w.now)], []⟩
        else .ok ⟨[("updated", .time w.now)], []⟩) = .ok d₁ ∧
      d.columns.get? k = d₁.columns.get? k ∧ (d.errors = [] → d₁.errors = []) := by
  unfold updateDraft at h
  obtain ⟨d₁, h₁, h⟩ := Failing.bind_eq_ok.1 h
  obtain ⟨state, hstate, h⟩ := Failing.bind_eq_ok.1 h
  obtain rfl := Except.ok.inj h
  have hrest : ∀ e ∈ (updateTakenKeys c data).foldl Dict.del data,
      e.1 ≠ "id".toList → Spares c e.1 k := by
    intro e he
    obtain ⟨hmem, hnot⟩ := Dict.mem_foldl_del.1 he
    exact hdata e hmem hnot
  refine ⟨d₁, h₁, ?_, fun herrors =>
    grows_uploadErrors.errors ((Draft.Grows.foldl grows_changedColumn state _).errors herrors)⟩
  rw [changedColumns_other _ (fieldState_other hstate hrest hfiles)]
  unfold updateUploadErrors
  rw [uploadErrors_columns]

/-- An update does not write a column that nothing in the request is for. -/
theorem updateDraft_other (h : updateDraft w rt c row data files = .ok d) (hupdated : k ≠ "updated")
    (hauth : c.type = .auth → NoAuthKey data k)
    (hdata : ∀ e ∈ data, e.1 ∉ updateTakenKeys c data → e.1 ≠ "id".toList → Spares c e.1 k)
    (hfiles : ∀ e ∈ files, Spares c e.1 k) : d.columns.get? k = none := by
  obtain ⟨d₁, h₁, hcolumn, -⟩ := updateDraft_fields h hdata hfiles
  rw [hcolumn]
  have hfirst : d₁.columns.get? k = Dict.get? [("updated".toList, Value.time w.now)] k := by
    split_ifs at h₁ with ha
    · exact authUpdates_other h₁ (hauth ha)
    · obtain rfl := Except.ok.inj h₁
      rfl
  rw [hfirst]
  exact if_neg (Ne.symm hupdated)

/-- What a successful creation is : the row of its draft. -/
theorem of_createRecord {db db' : Db} {id : Text} {payload : Row}
    (h : createRecord w rt db c data files = .ok (db', id, payload)) :
    ∃ d, createdId w data = .ok id ∧ createDraft w rt c id data files = .ok d ∧ d.errors = [] ∧
      db.rowById c.name id = none ∧ db' = db.insertRow c.name d.columns := by
  unfold createRecord at h
  obtain ⟨id₁, hid, h⟩ := Failing.bind_eq_ok.1 h
  obtain ⟨d, hd, h⟩ := Failing.bind_eq_ok.1 h
  obtain ⟨columns, hcolumns, h⟩ := Failing.bind_eq_ok.1 h
  unfold Draft.checked at hcolumns
  split_ifs at hcolumns with herrors
  obtain rfl := Except.ok.inj hcolumns
  split_ifs at h with hconflict htaken
  obtain ⟨rfl, hrest⟩ := Prod.mk.inj (Except.ok.inj h)
  obtain ⟨rfl, -⟩ := Prod.mk.inj hrest
  rw [not_or, Bool.not_eq_true, Option.isSome_eq_false_iff, Option.isNone_iff_eq_none] at htaken
  exact ⟨d, hid, hd, herrors, htaken.1, rfl⟩

/-- What a successful update is : the written columns, or nothing if the time is the only one. -/
theorem of_updateRecord {db db' : Db} {id : Text}
    (h : updateRecord w rt db c id data files = .ok (some db')) :
    ∃ row d, db.rowById c.name id = some row ∧ updateDraft w rt c row data files = .ok d ∧
      d.errors = [] ∧
        (d.columns.length ≤ 1 ∧ db' = db ∨
          1 < d.columns.length ∧ db' = db.updateRow c.name id d.columns) := by
  unfold updateRecord at h
  split_ifs at h
  split at h
  · cases h
  · rename_i row hrow
    obtain ⟨d, hd, h⟩ := Failing.bind_eq_ok.1 h
    obtain ⟨columns, hcolumns, h⟩ := Failing.bind_eq_ok.1 h
    obtain ⟨db₁, hwrite, h⟩ := Failing.bind_eq_ok.1 h
    obtain rfl := Option.some.inj (Except.ok.inj h)
    unfold Draft.checked at hcolumns
    split_ifs at hcolumns with herrors
    obtain rfl := Except.ok.inj hcolumns
    refine ⟨row, d, hrow, hd, herrors, ?_⟩
    unfold writeUpdates at hwrite
    split_ifs at hwrite with _ hlength
    · exact Or.inl ⟨hlength, (Except.ok.inj hwrite).symm⟩
    · exact Or.inr ⟨not_le.1 hlength, (Except.ok.inj hwrite).symm⟩

/-- A column that is not written stays as it is. -/
theorem get?_of_updateRecord {db db' : Db} {id : Text} {row' : Row}
    (h : updateRecord w rt db c id data files = .ok (some db'))
    (hrow : db.rowById c.name id = some row) (hrow' : db'.rowById c.name id = some row')
    (hk : ∀ d, updateDraft w rt c row data files = .ok d → d.columns.get? k = none) :
    row'.get? k = row.get? k := by
  obtain ⟨row₁, d, hrow₁, hd, -, ⟨-, rfl⟩ | ⟨-, rfl⟩⟩ := of_updateRecord h
  · rw [hrow] at hrow'
    rw [Option.some.inj hrow']
  · obtain rfl := Option.some.inj (hrow.symm.trans hrow₁)
    obtain ⟨row₂, hrow₂, rfl⟩ := Db.rowById_updateRow hrow'
    obtain rfl := Option.some.inj (hrow.symm.trans hrow₂)
    exact Dict.get?_foldl_set_of_notMem Prod.fst Prod.snd _ _ (Dict.get?_eq_none_iff.1 (hk d hd))

end

end RecordStore

end PPBase
