import PPBase.Relations

/-!
# The schema contract of a backup

The columns and tables a backup can describe. A `ColumnSpec` has an identifier for its name, a
type of the closed list and a default that PPBase writes; a `TableSpec` has distinct columns
and a primary key and unique constraints over them. `ColumnSpec.make` and `TableSpec.make` are
their constructors, which refuse anything else.

Digits in a length are those of ASCII.
-/

namespace PPBase

namespace SchemaContract

open SchemaManager

/-- `_identifier` -/
def isIdentifier (s : Text) : Bool := isName s && decide ((s.map Char.utf8Size).sum ≤ 63)

/-- `_SCALAR_TYPES` -/
def scalarTypes : List Text :=
  ["text", "integer", "bigint", "smallint", "double precision", "real", "boolean",
    "timestamp with time zone", "jsonb", "json"]

/-- The text after a length `\(\d+\)`. -/
def afterLength? : Text → Option Text
  | '(' :: s =>
    match s.takeWhile Char.isDigit, s.dropWhile Char.isDigit with
    | _ :: _, ')' :: rest => some rest
    | _, _ => none
  | _ => none

/-- `_VARCHAR_PATTERN` -/
def isVarchar (s : Text) : Bool :=
  (Text.afterPrefix? "character varying" s).bind afterLength? = some []

/-- `_ARRAY_PATTERN` -/
def isArray (s : Text) : Bool :=
  ([("text" : Text), ("character varying" : Text)].filterMap fun t => Text.afterPrefix? t s).any
    fun r => r = ("[]" : Text) || afterLength? r = some ("[]" : Text)

/-- `normalize_column_type` accepts the type. -/
def isColumnType (s : Text) : Bool := s ∈ scalarTypes || isVarchar s || isArray s

/-- `_ALLOWED_DEFAULTS` -/
def allowedDefaults : List Text :=
  ["''::text", "''::character varying", "0", "'0'::double precision", "false", "now()",
    "'\x7b\x7d'::text[]", "'\x7b\x7d'::character varying[]", "'null'::jsonb", "'[]'::jsonb",
    "'\x7b\x7d'::jsonb", "'\x7b\"lat\": 0, \"lon\": 0\x7d'::jsonb", "'base'::character varying"]

/-- `_TABLE_KINDS` -/
def tableKinds : List Text := ["system", "base", "auth"]

/-- `_column_tuple` accepts the names, and the table has them all. -/
def isKey (known names : List Text) : Bool :=
  names.all isIdentifier && decide names.Nodup && names.all fun n => n ∈ known

theorem isIdentifier_id : isIdentifier "id" = true := by decide

theorem isColumnType_text : isColumnType "text" = true := by decide

theorem allowed_none : ∀ d ∈ (none : Option Text), d ∈ allowedDefaults := by
  rintro _ ⟨⟩

end SchemaContract

open SchemaContract

/-- A physical column. -/
structure ColumnSpec where
  name : Text
  type : Text
  nullable : Bool
  default : Option Text
  name_ok : isIdentifier name = true
  type_ok : isColumnType type = true
  default_ok : ∀ d ∈ default, d ∈ allowedDefaults

namespace ColumnSpec

/-- `ColumnSpec(...)` with its `__post_init__`. -/
def make (name type : Text) (nullable : Bool) (default : Option Text) : Option ColumnSpec :=
  if h : isIdentifier name = true ∧ isColumnType type = true ∧ ∀ d ∈ default, d ∈ allowedDefaults
  then some ⟨name, type, nullable, default, h.1, h.2.1, h.2.2⟩
  else none

/-- What a column is : its name, type, nullability and default. -/
def row (c : ColumnSpec) : Text × Text × Bool × Option Text :=
  (c.name, c.type, c.nullable, c.default)

theorem make_eq_some {name type : Text} {nullable : Bool} {default : Option Text}
    (hn : isIdentifier name = true) (ht : isColumnType type = true)
    (hd : ∀ d ∈ default, d ∈ allowedDefaults) :
    ∃ c, make name type nullable default = some c ∧ c.row = (name, type, nullable, default) :=
  ⟨⟨name, type, nullable, default, hn, ht, hd⟩, by rw [make, dif_pos ⟨hn, ht, hd⟩], rfl⟩

end ColumnSpec

/-- A table with its keys. -/
structure TableSpec where
  name : Text
  kind : Text
  columns : List ColumnSpec
  primaryKey : List Text
  uniqueConstraints : List (List Text)
  name_ok : isIdentifier name = true
  kind_ok : kind ∈ tableKinds
  columns_ne_nil : columns ≠ []
  nodup_names : (columns.map ColumnSpec.name).Nodup
  primaryKey_ok : isKey (columns.map ColumnSpec.name) primaryKey = true
  unique_ok : ∀ u ∈ uniqueConstraints, isKey (columns.map ColumnSpec.name) u = true

namespace TableSpec

/-- `column_names` -/
def columnNames (t : TableSpec) : List Text := t.columns.map ColumnSpec.name

/-- `TableSpec(...)` with its `__post_init__`. -/
def make (name kind : Text) (columns : List ColumnSpec) (primaryKey : List Text)
    (uniqueConstraints : List (List Text)) : Option TableSpec :=
  if h : isIdentifier name = true ∧ kind ∈ tableKinds ∧ columns ≠ [] ∧
      (columns.map ColumnSpec.name).Nodup ∧
      isKey (columns.map ColumnSpec.name) primaryKey = true ∧
      ∀ u ∈ uniqueConstraints, isKey (columns.map ColumnSpec.name) u = true
  then
    some ⟨name, kind, columns, primaryKey, uniqueConstraints, h.1, h.2.1, h.2.2.1, h.2.2.2.1,
      h.2.2.2.2.1, h.2.2.2.2.2⟩
  else none

theorem make_eq_some {name kind : Text} {columns : List ColumnSpec} {primaryKey : List Text}
    (hn : isIdentifier name = true) (hk : kind ∈ tableKinds) (hc : columns ≠ [])
    (hnd : (columns.map ColumnSpec.name).Nodup)
    (hp : isKey (columns.map ColumnSpec.name) primaryKey = true) :
    ∃ t, make name kind columns primaryKey [] = some t ∧ t.columns = columns := by
  have hu : ∀ u ∈ ([] : List (List Text)), isKey (columns.map ColumnSpec.name) u = true :=
    fun u hu => absurd hu List.not_mem_nil
  exact ⟨⟨name, kind, columns, primaryKey, [], hn, hk, hc, hnd, hp, hu⟩,
    by rw [make, dif_pos ⟨hn, hk, hc, hnd, hp, hu⟩], rfl⟩

end TableSpec

end PPBase
