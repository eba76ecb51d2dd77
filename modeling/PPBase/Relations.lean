import PPBase.SchemaManager

/-!
# The relations behind the collections

The schema manager on the tables and views of the database : a collection's relation is
created, updated, replaced and dropped under the collection's name. The catalog also
remembers the relations that statements have changed or dropped.

What is left to PostgreSQL is `Postgres.accepts` : whether it takes a view's query, the index
statements, and a drop in the face of dependent views. A step that fails is `none`.
-/

namespace PPBase

open SchemaManager

/-- A table with the names and definitions of its columns, or a view. -/
inductive Relation
  | table (columns : List (Text × Text))
  | view (query : Text)
  deriving DecidableEq

/-- The relations of the `public` schema, and the names of those that statements changed. -/
structure Catalog where
  relations : Dict Text Relation
  changed : List Text := []

namespace Catalog

/-- A relation is created or replaced. -/
def put (cat : Catalog) (n : Text) (r : Relation) : Catalog :=
  { relations := cat.relations.set n r, changed := n :: cat.changed }

/-- Statements on a relation, such as those for its indexes. -/
def touch (cat : Catalog) (n : Text) : Catalog := { cat with changed := n :: cat.changed }

def drop (cat : Catalog) (n : Text) : Catalog :=
  { relations := cat.relations.del n, changed := n :: cat.changed }

/-- `ALTER TABLE n RENAME TO n'` -/
def rename (cat : Catalog) (n n' : Text) : Option Catalog :=
  match cat.relations.get? n with
  | none => none
  | some r => if cat.relations.has n' then none else some ((cat.drop n).put n' r)

end Catalog

/-- The batches of statements that PostgreSQL may refuse for reasons of its own. -/
inductive Ddl
  | create (c : CollectionDef)
  | update (old new : CollectionDef)
  | drop (name : Text)

structure Postgres where
  accepts : Catalog → Ddl → Bool

namespace CollectionDef

/-- `_view_query` -/
def viewQuery (c : CollectionDef) : Text :=
  match c.options.get? "query" with
  | some (.text q) => q
  | _ => []

end CollectionDef

namespace SchemaManager

/-- The names `[a-zA-Z_][a-zA-Z0-9_]*`. -/
def isName : Text → Bool
  | [] => false
  | c :: cs => Text.isIdentStart c && cs.all Text.isIdentChar

/-- `re.match(r'^[a-zA-Z_][a-zA-Z0-9_]*$', s)` : Python's `$` also stands before a newline at
the end. -/
def matchesName (s : Text) : Bool := isName s || (s.getLast? = some '\n' && isName s.dropLast)

/-- `_safe_name` -/
def safeName (s : Text) : Option Text :=
  if matchesName s ∧ (s.map Char.utf8Size).sum ≤ 63 then some s else none

variable (pg : Postgres)

/-- `create_collection_table` -/
def createCollectionTable (c : CollectionDef) (cat : Catalog) : Option Catalog := do
  let table ← safeName c.name
  if c.collectionType = "view" then
    guard (c.viewQuery ≠ [] ∧ pg.accepts cat (.create c))
    -- `CREATE OR REPLACE VIEW`
    match cat.relations.get? table with
    | some (.table _) => none
    | _ => some (cat.put table (.view c.viewQuery))
  else
    let columns ← createColumns c
    guard (pg.accepts cat (.create c))
    -- `CREATE TABLE IF NOT EXISTS`
    if cat.relations.has table then some (cat.touch table)
    else
      guard (columns.map Prod.fst).Nodup
      some (cat.put table (.table columns))

/-- `_drop_collection_object` -/
def dropCollectionObject (name : Text) (cat : Catalog) : Option Catalog := do
  let table ← safeName name
  guard (pg.accepts cat (.drop table))
  some (cat.drop table)

/-- `_replace_collection_object` -/
def replaceCollectionObject (old new : CollectionDef) (cat : Catalog) : Option Catalog := do
  let oldName ← safeName old.name
  guard (new.collectionType = "view" → new.viewQuery ≠ [] ∧ pg.accepts cat (.update old new))
  if old.collectionType = "view" ∧ new.collectionType = "view" ∧ oldName = new.name then
    match cat.relations.get? oldName with
    | some (.table _) => none
    | _ => some (cat.put oldName (.view new.viewQuery))
  else
    let cat ← dropCollectionObject pg old.name cat
    if new.collectionType = "view" then
      let table ← safeName new.name
      if cat.relations.has table then none else some (cat.put table (.view new.viewQuery))
    else createCollectionTable pg new cat

/-- The column commands on the collection's table. -/
def alterTable (table : Text) (cmds : List (Alter Text Text)) (cat : Catalog) : Option Catalog :=
  if cmds = [] then some cat
  else
    match cat.relations.get? table with
    | some (.table columns) =>
      (Alter.exec cmds (startingTable columns)).map fun t => cat.put table (.table (t.map spec))
    | _ => none

/-- `update_collection_table` -/
def updateCollectionTable (old new : CollectionDef) (cat : Catalog) : Option Catalog := do
  let oldName ← safeName old.name
  let newName ← safeName new.name
  if old.collectionType = "view" ∨ new.collectionType = "view" then
    if oldName ≠ newName ∨ old.collectionType ≠ new.collectionType ∨
        old.viewQuery ≠ new.viewQuery then
      replaceCollectionObject pg old new cat
    else some cat
  else
    let cmds ← alterColumns old new
    let renamed ← if oldName ≠ newName then cat.rename oldName newName else some cat
    let altered ← alterTable newName cmds renamed
    -- the indexes are dropped and created again
    guard (pg.accepts altered (.update old new))
    some (altered.touch newName)

end SchemaManager

end PPBase
