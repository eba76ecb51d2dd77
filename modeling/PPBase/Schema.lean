import PPBase.Dict
import PPBase.Text

/-!
# Values, collections and tables

`Value` is what a column, a request body or a bound parameter can hold. A collection
record carries the fields of its schema, its five rules and the options the modelled code
reads. A table has named columns and rows keyed by them; the physical table of a
collection is named after it.

`RequestContext` is the dictionary a rule is evaluated with. `resolved` holds the macros
`resolve_request_macros` looked up in the database beforehand. `Runtime` is what the
interpreter's number and date parsers and `str` compute; every result holds for any.
-/

namespace PPBase

/-- JSON values, and instants in microseconds. -/
inductive Value
  | null
  | bool (b : Bool)
  | num (q : Rat)
  | text (s : Text)
  | time (micros : Int)
  | list (vs : List Value)
  | obj (fs : List (Text × Value))

namespace Value

mutual

def decEq : (v w : Value) → Decidable (v = w)
  | .null, w => by cases w <;> first | exact .isTrue rfl | exact .isFalse Value.noConfusion
  | .bool b, w =>
    match w with
    | .bool c => decidable_of_iff (b = c) (by simp)
    | .null | .num _ | .text _ | .time _ | .list _ | .obj _ => .isFalse Value.noConfusion
  | .num b, w =>
    match w with
    | .num c => decidable_of_iff (b = c) (by simp)
    | .null | .bool _ | .text _ | .time _ | .list _ | .obj _ => .isFalse Value.noConfusion
  | .text b, w =>
    match w with
    | .text c => decidable_of_iff (b = c) (by simp)
    | .null | .bool _ | .num _ | .time _ | .list _ | .obj _ => .isFalse Value.noConfusion
  | .time b, w =>
    match w with
    | .time c => decidable_of_iff (b = c) (by simp)
    | .null | .bool _ | .num _ | .text _ | .list _ | .obj _ => .isFalse Value.noConfusion
  | .list vs, w =>
    match w with
    | .list ws => @decidable_of_iff _ (vs = ws) (by simp) (decEqList vs ws)
    | .null | .bool _ | .num _ | .text _ | .time _ | .obj _ => .isFalse Value.noConfusion
  | .obj fs, w =>
    match w with
    | .obj gs => @decidable_of_iff _ (fs = gs) (by simp) (decEqFields fs gs)
    | .null | .bool _ | .num _ | .text _ | .time _ | .list _ => .isFalse Value.noConfusion

def decEqList : (vs ws : List Value) → Decidable (vs = ws)
  | [], [] => .isTrue rfl
  | [], _ :: _ => .isFalse (List.cons_ne_nil _ _).symm
  | _ :: _, [] => .isFalse (List.cons_ne_nil _ _)
  | v :: vs, w :: ws =>
    @decidable_of_iff _ (v = w ∧ vs = ws) (by simp)
      (@instDecidableAnd _ _ (decEq v w) (decEqList vs ws))

def decEqFields : (fs gs : List (Text × Value)) → Decidable (fs = gs)
  | [], [] => .isTrue rfl
  | [], _ :: _ => .isFalse (List.cons_ne_nil _ _).symm
  | _ :: _, [] => .isFalse (List.cons_ne_nil _ _)
  | (k, v) :: fs, (l, w) :: gs =>
    @decidable_of_iff _ (k = l ∧ v = w ∧ fs = gs) (by simp [and_assoc])
      (@instDecidableAnd _ _ inferInstance
        (@instDecidableAnd _ _ (decEq v w) (decEqFields fs gs)))

end

instance : DecidableEq Value := decEq

instance : Coe Text Value := ⟨.text⟩

/-- Python's `bool(v)`. -/
def truthy : Value → Bool
  | .null => false
  | .bool b => b
  | .num q => q ≠ 0
  | .text s => s ≠ []
  | .time _ => true
  | .list vs => !vs.isEmpty
  | .obj fs => !fs.isEmpty

end Value

/-- `FieldType` -/
inductive FieldType
  | text | editor | number | bool | email | url | date | autodate | select | file | relation
  | json | password | geoPoint
  deriving DecidableEq, Repr

/-- The option keys of a field that the modelled code reads. -/
structure FieldOptions where
  collectionId : Option Text := none
  maxSelect : Option Nat := none
  isProtected : Option Bool := none
  cascadeDelete : Option Bool := none
  deriving DecidableEq

/-- A field of a stored schema. `flat` holds option keys that a legacy schema keeps beside
`options` instead of inside it. -/
structure Field where
  name : Text
  type : FieldType
  hidden : Bool := false
  options : FieldOptions := {}
  flat : FieldOptions := {}
  deriving DecidableEq

inductive CollectionType
  | base | auth | view
  deriving DecidableEq, Repr

/-- The purposes of the tokens a collection has a secret for. -/
inductive TokenType
  | authToken | passwordResetToken | verificationToken | emailChangeToken | fileToken
  deriving DecidableEq, Repr

/-- The options of a collection record that the modelled code reads. -/
structure CollectionOptions where
  secret : TokenType → Option Text := fun _ => none
  authRule : Option Text := none
  manageRule : Option Text := none
  passwordAuthEnabled : Bool := true
  identityFields : List Text := ["email"]
  oauth2Enabled : Bool := false
  mappedFields : Dict Text Text := []
  query : Text := []
  viewQuery : Text := []

/-- A row of `_collections`. -/
structure Collection where
  id : Text
  name : Text
  type : CollectionType := .base
  schema : List Field := []
  listRule : Option Text := none
  viewRule : Option Text := none
  createRule : Option Text := none
  updateRule : Option Text := none
  deleteRule : Option Text := none
  options : CollectionOptions := {}

abbrev Row := Dict Text Value

/-- A table or view : its columns and its rows. -/
structure Table where
  columns : List Text
  rows : List Row

/-- The `_collections` table and the tables by name. -/
structure Db where
  collections : List Collection
  tables : Dict Text Table

namespace Db

/-- `resolve_collection` : the first collection whose id or name is `val`. -/
def resolveCollection (db : Db) (val : Text) : Option Collection :=
  db.collections.find? fun c => c.id = val ∨ c.name = val

def rows (db : Db) (table : Text) : List Row :=
  ((db.tables.get? table).map Table.rows).getD []

/-- `SELECT * FROM table WHERE "id" = :id LIMIT 1` -/
def rowById (db : Db) (table id : Text) : Option Row :=
  (db.rows table).find? fun r => r.get? "id" = some (.text id)

end Db

/-! ## Requests and the Python runtime -/

/-- Conversions of the Python runtime that the filter parser calls. -/
structure Runtime where
  /-- `float(raw)`, if it is finite. -/
  float : Text → Option Rat
  /-- `int(raw)` -/
  int : Text → Option Int
  str : Value → Text
  lower : Text → Text
  /-- `datetime.fromisoformat(raw)` as an instant, UTC where the text names no zone. -/
  fromIsoFormat : Text → Option Int
  /-- `json.dumps(v)` -/
  dumps : Value → Text
  /-- An instant as `%Y-%m-%d %H:%M:%S.mmmZ`. -/
  formatTime : Int → Text

namespace Runtime

/-- A number of decimal digits. -/
def digits? (s : Text) : Option ℕ :=
  if s ≠ [] ∧ s.all Char.isDigit then
    some (s.foldl (fun n c => 10 * n + (c.toNat - '0'.toNat)) 0)
  else none

/-- The conversions on natural numbers and texts. -/
def simple : Runtime where
  float s := (digits? s).map fun n => (n : Rat)
  int s := (digits? s).map fun n => (n : Int)
  str
    | .text s => s
    | .num q => (toString q.num).toList
    | .bool true => "True"
    | .bool false => "False"
    | _ => "None"
  lower := Text.lower
  fromIsoFormat _ := none
  dumps _ := []
  formatTime _ := []

end Runtime

/-- `request_context` -/
structure RequestContext where
  context : Text := "default"
  method : Text := "GET"
  headers : Dict Text Value := []
  auth : Dict Text Value := []
  data : Row := []
  query : Dict Text Value := []
  resolved : Dict Text Value := []

end PPBase
