import Mathlib.Data.List.Sort
import Mathlib.Data.Char
import Mathlib.Data.List.Lex
import PPBase.AlterTable
import PPBase.Schema

/-!
# The tables of collections

How a collection's fields become the columns of its table. `colType` is the definition of a
field's column and `alterColumns` the commands by which an update of a collection changes
its table : the fields are compared under their identity keys, removed columns are dropped,
new ones added, and the fields found in both lists renamed and, when their type options
changed, dropped and added again.

Comparing a `maxSelect` option that is no number raises a `TypeError`, and a column name
longer than PostgreSQL stores a `ValueError`; both are `none` here. Names are identifiers in
this module.
-/

namespace PPBase

namespace Value

mutual

/-- Python's `v == w` : booleans are numbers, and objects compare without their order. -/
def pyEq : Value → Value → Bool
  | .null, .null => true
  | .bool b, .bool c => b == c
  | .bool b, .num q => (if b then 1 else 0) == q
  | .num q, .bool b => q == (if b then 1 else 0)
  | .num q, .num r => q == r
  | .text s, .text t => s == t
  | .time s, .time t => s == t
  | .list vs, .list ws => pyEqList vs ws
  | .obj fs, .obj gs => fs.length == gs.length && pyEqFields fs gs
  | _, _ => false

def pyEqList : List Value → List Value → Bool
  | [], [] => true
  | v :: vs, w :: ws => pyEq v w && pyEqList vs ws
  | _, _ => false

def pyEqFields : List (Text × Value) → Dict Text Value → Bool
  | [], _ => true
  | (k, v) :: fs, gs =>
    (match gs.get? k with
      | some w => pyEq v w
      | none => false) && pyEqFields fs gs

end

theorem truthy_eq_of_pyEq {v w : Value} (h : pyEq v w = true) : v.truthy = w.truthy := by
  cases v <;> cases w <;> simp only [pyEq, truthy, beq_iff_eq, Bool.false_eq_true] at h ⊢
  · exact h
  · subst h
    split_ifs with hb <;> simp [hb]
  · subst h
    split_ifs with hb <;> simp [hb]
  · rw [h]
  · rw [h]
  · rename_i vs ws
    cases vs <;> cases ws <;> simp [pyEqList] at h ⊢
  · rename_i fs gs
    cases fs <;> cases gs <;> simp at h ⊢

/-- `v > 1`, if the comparison does not raise. -/
def gtOne : Value → Option Bool
  | .bool _ => some false
  | .num q => some (1 < q)
  | .null | .text _ | .time _ | .list _ | .obj _ => none

end Value

/-- `FieldDefinition` -/
structure FieldDefinition where
  id : Text := []
  name : Text
  type : FieldType
  required : Bool := false
  system : Bool := false
  hidden : Bool := false
  presentable : Bool := false
  options : Dict Text Value := []
  deriving DecidableEq

namespace FieldDefinition

/-- `opts.get("onlyInt")` -/
def onlyInt (f : FieldDefinition) : Value := (f.options.get? "onlyInt").getD .null

/-- `(opts.get("maxSelect", 1) or 1) > 1` -/
def manySelected (f : FieldDefinition) : Option Bool :=
  let maxSelect := (f.options.get? "maxSelect").getD (.num 1)
  if maxSelect.truthy then maxSelect.gtOne else some false

/-- `_col_ddl` after the column's quoted name. -/
def colType (f : FieldDefinition) : Option Text :=
  match f.type with
  | .text | .editor => some ("TEXT NOT NULL DEFAULT ''" : Text)
  | .number =>
    if f.onlyInt.truthy then some ("INTEGER NOT NULL DEFAULT 0" : Text)
    else some ("DOUBLE PRECISION NOT NULL DEFAULT 0" : Text)
  | .bool => some ("BOOLEAN NOT NULL DEFAULT FALSE" : Text)
  | .email => some ("VARCHAR(255) NOT NULL DEFAULT ''" : Text)
  | .url => some ("TEXT NOT NULL DEFAULT ''" : Text)
  | .date => some ("TIMESTAMPTZ NULL" : Text)
  | .autodate => some ("TIMESTAMPTZ NOT NULL DEFAULT NOW()" : Text)
  | .select | .file =>
    f.manySelected.map fun many =>
      if many then ("TEXT[] NOT NULL DEFAULT '\x7b\x7d'" : Text)
      else ("TEXT NOT NULL DEFAULT ''" : Text)
  | .relation =>
    f.manySelected.map fun many =>
      if many then ("VARCHAR(15)[] NOT NULL DEFAULT '\x7b\x7d'" : Text)
      else ("VARCHAR(15) NOT NULL DEFAULT ''" : Text)
  | .json => some ("JSONB NOT NULL DEFAULT 'null'::jsonb" : Text)
  | .password => some ("TEXT NOT NULL DEFAULT ''" : Text)
  | .geoPoint =>
    some ("JSONB NOT NULL DEFAULT '\x7b\"lon\":0,\"lat\":0\x7d'::jsonb" : Text)

/-- The identity key of a field : its id if it has one, else its name. -/
def key (f : FieldDefinition) : Text := if f.id = [] then f.name else f.id

/-- `_type_options_changed` -/
def typeOptionsChanged (old new : FieldDefinition) : Option Bool :=
  if old.type ≠ new.type then some true
  else
    match old.type with
    | .number => some (!(old.onlyInt.pyEq new.onlyInt))
    | .select | .file | .relation => do
      let oldMany ← old.manySelected
      let newMany ← new.manySelected
      return oldMany != newMany
    | _ => some false

end FieldDefinition

/-- A collection as the schema manager reads it. -/
structure CollectionDef where
  name : Text
  type : Text
  schema : List FieldDefinition
  options : Dict Text Value := []

namespace CollectionDef

/-- `_collection_type` -/
def collectionType (c : CollectionDef) : Text := if c.type = [] then "base" else c.type

end CollectionDef

namespace SchemaManager

open FieldDefinition

/-- The columns every collection table starts with. -/
def baseColumns : List (Text × Text) :=
  [("id", "VARCHAR(15) PRIMARY KEY"), ("created", "TIMESTAMPTZ NOT NULL DEFAULT NOW()"),
    ("updated", "TIMESTAMPTZ NOT NULL DEFAULT NOW()")]

/-- `_AUTH_SYSTEM_COLUMN_DEFINITIONS` -/
def authSystemColumns : List (Text × Text) :=
  [("email", "VARCHAR(255) NOT NULL DEFAULT ''"),
    ("email_visibility", "BOOLEAN NOT NULL DEFAULT FALSE"),
    ("verified", "BOOLEAN NOT NULL DEFAULT FALSE"), ("password_hash", "TEXT NOT NULL DEFAULT ''"),
    ("token_key", "VARCHAR(50) NOT NULL DEFAULT ''")]

/-- The columns of a collection's table besides those of its fields. -/
def systemColumns (type : Text) : List (Text × Text) :=
  baseColumns ++ if type = "auth" then authSystemColumns else []

/-- `sorted(keys)` -/
def sorted (ks : List Text) : List Text := ks.insertionSort (· ≤ ·)

/-- `_parse_fields` : a name of more than 63 bytes is refused. -/
def parseFields (raw : List FieldDefinition) : Option (List FieldDefinition) :=
  if raw.all fun f => (f.name.map Char.utf8Size).sum ≤ 63 then some raw else none

/-- `_fields_by_identity` of parsed fields. -/
def fieldsByIdentity (fields : List FieldDefinition) : Dict Text FieldDefinition :=
  fields.foldl (fun d f => d.set f.key f) []

/-- The columns of the `CREATE TABLE` of `create_collection_table`. -/
def createColumns (c : CollectionDef) : Option (List (Text × Text)) := do
  let fields ← parseFields c.schema
  let columns ← fields.mapM fun f => f.colType.map (f.name, ·)
  return systemColumns c.collectionType ++ columns

/-- The table with the given columns, before an update. -/
def startingTable (columns : List (Text × Text)) : List (Column Text Text) :=
  columns.map fun c => .initial c.1 c.2

/-- A column without the data it holds. -/
def spec (c : Column Text Text) : Text × Text := (c.name, c.spec)

/-- The commands that turn a table into one with the columns of an auth collection, or
back. -/
def authAlters (oldType newType : Text) : List (Alter Text Text) :=
  if oldType ≠ "auth" ∧ newType = "auth" then
    authSystemColumns.map fun c => .add c.1 c.2
  else if oldType = "auth" ∧ newType ≠ "auth" then
    authSystemColumns.map fun c => .drop c.1
  else []

/-- The commands for a field that both lists have under one key. -/
def changeField (old new : FieldDefinition) : Option (List (Alter Text Text)) := do
  let rename : List (Alter Text Text) :=
    if old.name ≠ new.name then [.rename old.name new.name] else []
  if ← typeOptionsChanged old new then
    let ddl ← new.colType
    return rename ++ [.drop new.name, .add new.name ddl]
  else return rename

/-- The `ALTER TABLE` commands of `update_collection_table` for the columns, in order. -/
def alterColumns (old new : CollectionDef) : Option (List (Alter Text Text)) := do
  let oldFields := fieldsByIdentity (← parseFields old.schema)
  let newFields := fieldsByIdentity (← parseFields new.schema)
  let removed := sorted (oldFields.keys.filter fun k => !newFields.has k)
  let added := sorted (newFields.keys.filter fun k => !oldFields.has k)
  let common := sorted (oldFields.keys.filter newFields.has)
  let adds ← (added.filterMap newFields.get?).mapM fun f => f.colType.map (.add f.name ·)
  let changes ← (common.filterMap fun k => (oldFields.get? k).bind fun f =>
    (newFields.get? k).map fun g => (f, g)).mapM fun p => changeField p.1 p.2
  return authAlters old.collectionType new.collectionType ++
    (removed.filterMap oldFields.get?).map (fun f => .drop f.name) ++ adds ++ changes.flatten

end SchemaManager

end PPBase
