import PPBase.CollectionService
import PPBase.IndexSql

/-!
# The statements of the schema manager

The text of every statement that `create_collection_table` and `update_collection_table` issue,
except those that read the catalog or try a view's query. A `Statement` is a text with places for
names : a name is put between quotes as it is, or with its quotes doubled (`_quote_identifier`).
The statement of an index is rewritten before it is issued, so a statement comes with the text
that is issued for it.

A step that raises is `none`. What the database answers is a `Database`, and SHA-256 and `uuid4`
give hexadecimal digits.
-/

namespace PPBase

namespace Ddl

open SchemaManager IndexSql

inductive Piece
  | raw (s : Text)
  /-- `"{name}"` -/
  | ident (n : Text)
  /-- `_quote_identifier(name)` -/
  | quoted (n : Text)
  deriving DecidableEq

def Piece.text : Piece → Text
  | raw s => s
  | ident n => '"' :: (n ++ ['"'])
  | quoted n => quoteIdentifier n

abbrev Statement := List Piece

def Statement.text (s : Statement) : Text := s.flatMap Piece.text

/-- A statement with the text that is issued for it. -/
structure Issued where
  statement : Statement
  text : Text

/-- A statement that is issued as it is. -/
def own (s : Statement) : Issued := ⟨s, s.text⟩

/-- A name that can be an identifier, between quotes. -/
def Storable (n : Text) : Prop := n ≠ [] ∧ '\x00' ∉ n

instance (n : Text) : Decidable (Storable n) := inferInstanceAs (Decidable (_ ∧ _))

/-- What the database answers, and what `uuid4` returns for the name of an index. -/
structure Database where
  indexExists : Text → Bool
  storable : ∀ n, indexExists n = true → Storable n
  isView : Text → Bool
  /-- PostgreSQL can replace the view of this name. -/
  replacesView : Text → Bool
  uuid : Text → List (Fin 16)

/-! ## Names -/

/-- The longest beginning of at most so many bytes. -/
def takeBytes : ℕ → Text → Text
  | _, [] => []
  | n, c :: s => if c.utf8Size ≤ n then c :: takeBytes (n - c.utf8Size) s else []

/-- `_truncate_postgres_identifier` -/
def truncatePostgresIdentifier (name : Text) : Text := takeBytes 63 name

def hexDigit (d : Fin 16) : Char := "0123456789abcdef".toList.get d

variable (sha256 : Text → List (Fin 16))

/-- `_bounded_index_name` -/
def boundedIndexName (name : Text) : Text :=
  if (name.map Char.utf8Size).sum ≤ 63 then name
  else takeBytes 46 name ++ '_' :: ((sha256 name).take 16).map hexDigit

/-- `_managed_index_name` -/
def managedIndexName (table suffix : Text) : Text :=
  boundedIndexName sha256 (("idx_" : Text) ++ table ++ '_' :: suffix)

/-! ## Tables -/

/-- The columns of a `CREATE TABLE`, joined by commas. -/
def joinColumns : List (Text × Text) → Statement
  | [] => [.raw "\n)"]
  | [c] => [.ident c.1, .raw (' ' :: c.2 ++ ("\n)" : Text))]
  | c :: cs => .ident c.1 :: .raw (' ' :: c.2 ++ (",\n    " : Text)) :: joinColumns cs

def createTable (table : Text) (columns : List (Text × Text)) : Statement :=
  .raw "CREATE TABLE IF NOT EXISTS " :: .ident table :: .raw " (\n    " :: joinColumns columns

def renameTable (table new : Text) : Statement :=
  [.raw "ALTER TABLE ", .ident table, .raw " RENAME TO ", .ident new]

def alterTable (table : Text) : Alter Text Text → Statement
  | .add n d =>
    [.raw "ALTER TABLE ", .ident table, .raw " ADD COLUMN ", .ident n, .raw (' ' :: d)]
  | .drop n =>
    [.raw "ALTER TABLE ", .ident table, .raw " DROP COLUMN IF EXISTS ", .ident n]
  | .rename n n' =>
    [.raw "ALTER TABLE ", .ident table, .raw " RENAME COLUMN ", .ident n, .raw " TO ", .ident n']

def createView (replace : Bool) (table query : Text) : Statement :=
  [.raw (if replace then "CREATE OR REPLACE VIEW " else "CREATE VIEW "), .ident table,
    .raw ((" AS " : Text) ++ query)]

def dropRelation (isView : Bool) (table : Text) : Statement :=
  [.raw (if isView then "DROP VIEW IF EXISTS " else "DROP TABLE IF EXISTS "), .ident table]

/-! ## Indexes -/

/-- An index that PPBase manages. -/
structure ManagedIndex where
  unique : Bool
  name : Text
  table : Text
  /-- The method, the keys and the condition. -/
  keys : Statement
  deriving DecidableEq

namespace ManagedIndex

def statement (i : ManagedIndex) : Statement :=
  .raw (managedHead i.unique) :: .ident i.name :: .raw " ON \"public\"." :: .ident i.table :: i.keys

/-- The same index, on a temporary table. -/
def probe (i : ManagedIndex) (name table : Text) : Statement :=
  .raw (managedHead i.unique) :: .quoted name :: .raw " ON \"pg_temp\"." :: .quoted table :: i.keys

end ManagedIndex

def btreeKeys (column : Text) : Statement := [.raw " (", .ident column, .raw ")"]

def ginKeys (column : Text) : Statement := [.raw " USING GIN (", .ident column, .raw ")"]

def partialKeys (column : Text) : Statement :=
  [.raw " (", .ident column, .raw ") WHERE ", .ident column, .raw " != ''"]

/-- `_is_array_field` -/
def isArrayField (f : FieldDefinition) : Option Bool :=
  match f.type with
  | .select | .file | .relation => f.manySelected
  | _ => some false

/-- `_is_jsonb_field` -/
def isJsonbField (f : FieldDefinition) : Bool := f.type = .json || f.type = .geoPoint

/-- The keys of the index of a field, if it has one. -/
def fieldKeys (f : FieldDefinition) : Option (Option Statement) := do
  if (← isArrayField f) || isJsonbField f then return some (ginKeys f.name)
  else if f.type = .relation then return some (partialKeys f.name)
  else return none

def setIndex (table : Text) (unique : Bool) (column : Text) (keys : Statement)
    (indexes : Dict Text ManagedIndex) : Dict Text ManagedIndex :=
  let name := managedIndexName sha256 table column
  indexes.set name { unique, name, table, keys }

/-- `_field_indexes`, after the indexes there are. -/
def fieldIndexes (table : Text) (fields : List FieldDefinition)
    (indexes : Dict Text ManagedIndex) : Option (Dict Text ManagedIndex) :=
  fields.foldlM (fun d f => do
    match ← fieldKeys f with
    | some keys => return setIndex sha256 table false f.name keys d
    | none => return d) indexes

/-- The indexes on the columns PPBase adds. -/
def systemIndexes (table type : Text) : Dict Text ManagedIndex :=
  let created := setIndex sha256 table false "created" (btreeKeys "created") []
  if type = "auth" then
    setIndex sha256 table false "token_key" (btreeKeys "token_key")
      (setIndex sha256 table true "email" (partialKeys "email") created)
  else created

/-- `_managed_indexes` -/
def managedIndexes (r : CollectionRecord) : Option (Dict Text ManagedIndex) := do
  let table ← safeName r.name
  fieldIndexes sha256 table (← parseFields r.schema) (systemIndexes sha256 table
    r.toDef.collectionType)

/-- `_custom_indexes` -/
def customIndexes (r : CollectionRecord) : List Text :=
  r.indexes.filter fun s => s.any fun c => !isSpace c

variable (isAlnum : Char → Bool)

/-- `_custom_index_name` -/
def customIndexName (statement : Text) : Option Text :=
  (indexName isAlnum statement).head?.map fun q => q.1.2.value

/-- `_custom_indexes_by_stored_name` -/
def customIndexesByStoredName (statements : List Text) : Option (Dict Text Text) :=
  statements.foldlM (fun d s => do
    let stored := truncatePostgresIdentifier (← customIndexName isAlnum s)
    if d.has stored then none else return d.set stored s) []

/-- `_validate_managed_custom_index_names` -/
def validateManagedCustomIndexNames (managed : Dict Text ManagedIndex)
    (custom : Dict Text Text) : Option Unit :=
  guard (∀ n ∈ managed.keys, !custom.has (truncatePostgresIdentifier n))

variable (db : Database)

def probeTable (name : Text) : Text :=
  boundedIndexName sha256 (("_ppbase_index_table_" : Text) ++ (db.uuid name).map hexDigit)

def probeIndex (name : Text) : Text :=
  boundedIndexName sha256 (("_ppbase_index_probe_" : Text) ++ (db.uuid name).map hexDigit)

/-- The temporary table of `_expected_index_definition`. -/
def createProbeTable (probe table : Text) : Statement :=
  [.raw "CREATE TEMP TABLE ", .quoted probe, .raw " (LIKE \"public\".", .quoted table,
    .raw ") ON COMMIT DROP"]

/-- The statement of `_expected_index_definition` for a statement on the collection's table. -/
def probeStatement (statement name : Text) : Option Text := do
  let moved ← rewriteIndexTarget isAlnum statement
    (("\"pg_temp\"." : Text) ++ quoteIdentifier (probeTable sha256 db name))
  rewriteIndexName isAlnum moved (probeIndex sha256 db name)

/-- `_create_index_if_owned` for a managed index. -/
def createManagedIndex (i : ManagedIndex) (table : Text) : Option (List Issued) := do
  let text ← normalizeIndexStatementTarget isAlnum i.statement.text table
  let name := truncatePostgresIdentifier i.name
  if db.indexExists name then
    let probed ← probeStatement sha256 isAlnum db text name
    return [own (createProbeTable (probeTable sha256 db name) table),
      ⟨i.probe (probeIndex sha256 db name) (probeTable sha256 db name), probed⟩]
  else return [⟨i.statement, text⟩]

/-- A custom index statement on the collection's table. -/
def customStatement (p : Parts) (table : Text) : Statement :=
  [.raw (p.head ++ p.name.text ++ p.middle ++ ("\"public\"." : Text)), .quoted table, .raw p.tail]

/-- `_create_index_if_owned` for a custom index. -/
def createCustomIndex (statement name table : Text) : Option (List Issued) := do
  let p ← indexStatementParts isAlnum statement
  let text ← normalizeIndexStatementTarget isAlnum statement table
  if db.indexExists name then
    let probed ← probeStatement sha256 isAlnum db text name
    return [own (createProbeTable (probeTable sha256 db name) table), own [.raw probed]]
  else return [⟨customStatement p table, text⟩]

/-- `_drop_index_if_owned` -/
def dropIndex (name : Text) : List Issued :=
  let stored := truncatePostgresIdentifier name
  if db.indexExists stored then
    [own [.raw "DROP INDEX IF EXISTS \"public\".", .quoted stored]]
  else []

/-! ## Collections -/

/-- The statements for all indexes of a collection, the custom ones with their names. -/
def createIndexes (managed : Dict Text ManagedIndex) (custom : List (Text × Text)) (table : Text) :
    Option (List Issued) := do
  let managedStmts ← managed.mapM fun p => createManagedIndex sha256 isAlnum db p.2 table
  let customStmts ← custom.mapM fun p => createCustomIndex sha256 isAlnum db p.2 p.1 table
  return managedStmts.flatten ++ customStmts.flatten

/-- The statements of `create_collection_table`. -/
def createStatements (r : CollectionRecord) : Option (List Issued) := do
  let table ← safeName r.name
  if r.toDef.collectionType = "view" then
    guard (r.toDef.viewQuery ≠ [])
    return [own (createView true table r.toDef.viewQuery)]
  else
    let columns ← createColumns r.toDef
    let managed ← managedIndexes sha256 r
    let custom ← customIndexesByStoredName isAlnum (customIndexes r)
    validateManagedCustomIndexNames managed custom
    let named ← (customIndexes r).mapM fun s => (customIndexName isAlnum s).map (·, s)
    let indexes ← createIndexes sha256 isAlnum db managed named table
    return own (createTable table columns) :: indexes

/-- The statements of `_replace_collection_object`. -/
def replaceStatements (old new : CollectionRecord) : Option (List Issued) := do
  let oldName ← safeName old.name
  let isView := new.toDef.collectionType = "view"
  let query := new.toDef.viewQuery
  guard (isView → query ≠ [])
  let replacing := old.toDef.collectionType = "view" ∧ isView ∧ oldName = new.name
  let replace := if replacing then [own (createView true oldName query)] else []
  if replacing ∧ db.replacesView oldName then return replace
  else
    let drop := own (dropRelation (db.isView oldName) oldName)
    if isView then
      let table ← safeName new.name
      return replace ++ [drop, own (createView false table query)]
    else return replace ++ drop :: (← createStatements sha256 isAlnum db new)

/-- The managed indexes whose statement changed or went. -/
def managedDrops (oldManaged newManaged : Dict Text ManagedIndex) : List Text :=
  (oldManaged.filter fun p => decide ((newManaged.get? p.1).map (·.statement.text) ≠
    some p.2.statement.text)).map Prod.fst

/-- The custom indexes whose statement changed or went. -/
def customDrops (old new : CollectionRecord) (newCustom : Dict Text Text) : Option (List Text) :=
  if customIndexes old = customIndexes new then some []
  else
    (customIndexesByStoredName isAlnum (customIndexes old)).map fun oldCustom =>
      (oldCustom.filter fun p => decide (newCustom.get? p.1 ≠ some p.2)).map Prod.fst

/-- The statements of `_sync_collection_indexes`. -/
def syncIndexes (old new : CollectionRecord) : Option (List Issued) := do
  let oldManaged ← managedIndexes sha256 old
  let newManaged ← managedIndexes sha256 new
  let newCustom ← customIndexesByStoredName isAlnum (customIndexes new)
  validateManagedCustomIndexNames newManaged newCustom
  let drops ← customDrops isAlnum old new newCustom
  let table ← safeName new.name
  let created ← createIndexes sha256 isAlnum db newManaged newCustom table
  return (sorted (managedDrops oldManaged newManaged ++ drops).dedup).flatMap (dropIndex db) ++ created

/-- The statements of `update_collection_table`. -/
def updateStatements (old new : CollectionRecord) : Option (List Issued) := do
  let oldName ← safeName old.name
  let newName ← safeName new.name
  if old.toDef.collectionType = "view" ∨ new.toDef.collectionType = "view" then
    if oldName ≠ newName ∨ old.toDef.collectionType ≠ new.toDef.collectionType ∨
        old.toDef.viewQuery ≠ new.toDef.viewQuery then
      replaceStatements sha256 isAlnum db old new
    else return []
  else
    let rename := if oldName ≠ newName then [own (renameTable oldName newName)] else []
    let alters ← alterColumns old.toDef new.toDef
    let indexes ← syncIndexes sha256 isAlnum db old new
    return rename ++ alters.map (fun a => own (alterTable newName a)) ++ indexes

end Ddl

end PPBase
