import PPBase.Failing
import PPBase.Relations
import PPBase.Storage

/-!
# Collections and their registry

`_collections` as a list of records beside the catalog of relations, and the four operations
that write it : a collection is created, updated or deleted, and a list of entries imported.
Each runs in one transaction, so an error leaves the registry as it was (`step`).

`str.lower` is a parameter, as names in an import may hold any letters. The values that
`generate_id` and `generate_token_key` return come with the operation.
-/

namespace PPBase

/-- The rules of a collection. -/
structure Rules where
  listRule : Option Text := none
  viewRule : Option Text := none
  createRule : Option Text := none
  updateRule : Option Text := none
  deleteRule : Option Text := none
  deriving DecidableEq

/-- The rules a payload sets. -/
structure RuleChanges where
  listRule : Option (Option Text) := none
  viewRule : Option (Option Text) := none
  createRule : Option (Option Text) := none
  updateRule : Option (Option Text) := none
  deleteRule : Option (Option Text) := none
  deriving DecidableEq

def RuleChanges.apply (c : RuleChanges) (r : Rules) : Rules where
  listRule := c.listRule.getD r.listRule
  viewRule := c.viewRule.getD r.viewRule
  createRule := c.createRule.getD r.createRule
  updateRule := c.updateRule.getD r.updateRule
  deleteRule := c.deleteRule.getD r.deleteRule

/-- `CollectionRecord` -/
structure CollectionRecord where
  id : Text
  name : Text
  type : Text
  system : Bool
  schema : List FieldDefinition
  indexes : List Text
  rules : Rules
  options : Dict Text Value
  deriving DecidableEq

/-- What the schema manager reads of a record. -/
def CollectionRecord.toDef (r : CollectionRecord) : CollectionDef :=
  ⟨r.name, r.type, r.schema, r.options⟩

/-- `_collections` and the relations of the database. -/
structure Registry where
  records : List CollectionRecord
  catalog : Catalog

/-- What `generate_id` and `generate_token_key` return in one operation. -/
structure Generated where
  id : Text
  tokenKey : TokenType → Text

/-- `CollectionCreate` -/
structure CollectionCreate where
  id : Option Text := none
  name : Text
  type : Text := "base"
  system : Bool := false
  schema : List FieldDefinition := []
  indexes : List Text := []
  rules : Rules := {}
  options : Dict Text Value := []

/-- `CollectionUpdate` -/
structure CollectionUpdate where
  name : Option Text := none
  type : Option Text := none
  system : Option Bool := none
  schema : Option (List FieldDefinition) := none
  indexes : Option (List Text) := none
  rules : RuleChanges := {}
  options : Option (Dict Text Value) := none

/-- An entry of an import. -/
structure ImportEntry where
  id : Option Text := none
  name : Text
  type : Option Text := none
  system : Option Bool := none
  schema : Option (List FieldDefinition) := none
  indexes : Option (List Text) := none
  rules : RuleChanges := {}
  options : Option (Dict Text Value) := none
  generated : Generated

mutual

/-- `_deep_merge_dicts` -/
def deepMergeDicts (base : Dict Text Value) : List (Text × Value) → Dict Text Value
  | [] => base
  | (k, v) :: rest => deepMergeDicts (base.set k (mergeValue (base.get? k) v)) rest

def mergeValue (old : Option Value) : Value → Value
  | .obj fs =>
    match old with
    | some (.obj gs) => .obj (deepMergeDicts gs fs)
    | _ => .obj fs
  | v => v

end

namespace CollectionService

open SchemaManager

/-- `generate_default_auth_options` -/
def generateDefaultAuthOptions (tokenKey : TokenType → Text) (isSuperusers : Bool) :
    Dict Text Value :=
  let token (t : TokenType) (duration : Rat) : Value :=
    .obj [("secret", .text (tokenKey t)), ("duration", .num duration)]
  [("authToken", token .authToken (if isSuperusers then 86400 else 604800)),
    ("passwordResetToken", token .passwordResetToken 1800),
    ("verificationToken", token .verificationToken 259200),
    ("emailChangeToken", token .emailChangeToken 1800),
    ("fileToken", token .fileToken 180),
    ("passwordAuth", .obj [("enabled", .bool true),
      ("identityFields", .list [.text ("email" : Text)])]),
    ("oauth2", .obj [("enabled", .bool false), ("providers", .list []), ("mappedFields", .obj [])]),
    ("mfa", .obj [("enabled", .bool false), ("duration", .num 1800)]),
    ("otp", .obj [("enabled", .bool false), ("duration", .num 180), ("length", .num 8)]),
    ("authRule", .text []), ("manageRule", .null)]

/-- `_RESERVED_NAMES` -/
def reservedNames : List Text :=
  ["id", "created", "updated", "expand", "collectionid", "collectionname", "_collections",
    "_params", "_external_auths", "_externalauths", "_superusers", "_mfas", "_otps",
    "_authorigins", "_migrations", "users", "import"]

/-- The tables of `system_tables`. -/
def systemTables : List Text :=
  ["_collections", "_superusers", "_params", "_external_auths", "_requests", "_migrations"]

variable (lower : Text → Text) (pg : Postgres)

/-- `_validate_collection_name` -/
def validateCollectionName (name : Text) : Except Text Unit :=
  if name = [] then .error "Collection name is required."
  else if !matchesName name then
    .error ("Collection name must start with a letter or underscore " ++
      "and contain only alphanumeric characters or underscores.").toList
  else if lower name ∈ reservedNames then
    .error (("Collection name '" : Text) ++ name ++ ("' is reserved." : Text))
  else .ok ()

/-- The id of a new collection. -/
def collectionId (id : Option Text) (g : Generated) : Except Text Text :=
  match id with
  | none | some [] => .ok g.id
  | some id =>
    match Storage.validateRecordId (.text id) with
    | some id => .ok id
    | none => .error "Invalid collection_id."

/-- What PostgreSQL refuses. -/
def ddl (r : Option Catalog) : Except Text Catalog :=
  match r with
  | some cat => .ok cat
  | none => .error "The schema change failed."

/-- `session.add(record)` and its flush : the id is the primary key and names are unique. -/
def insert (r : CollectionRecord) (records : List CollectionRecord) :
    Except Text (List CollectionRecord) :=
  if records.any fun q => q.id = r.id || q.name = r.name then
    .error "duplicate key value violates unique constraint"
  else .ok (records ++ [r])

/-- The flush of a changed record. -/
def save (r : CollectionRecord) (records : List CollectionRecord) :
    Except Text (List CollectionRecord) :=
  if records.any fun q => q.id ≠ r.id && q.name = r.name then
    .error "duplicate key value violates unique constraint"
  else .ok (records.map fun q => if q.id = r.id then r else q)

/-- A record is inserted and its relation created. -/
def addCollection (r : CollectionRecord) (s : Registry) : Except Text Registry := do
  let records ← insert r s.records
  let catalog ← ddl (createCollectionTable pg r.toDef s.catalog)
  return ⟨records, catalog⟩

/-- The condition under which an update changes the relation. -/
def physicalSchemaChanged (old new : CollectionRecord) : Bool :=
  old.name ≠ new.name || old.type ≠ new.type || old.schema ≠ new.schema ||
    old.indexes ≠ new.indexes ||
    ((old.type = "view" || new.type = "view") && old.options ≠ new.options)

/-- A changed record is saved and its relation updated. -/
def changeCollection (old new : CollectionRecord) (s : Registry) : Except Text Registry := do
  let records ← save new s.records
  if physicalSchemaChanged old new then
    let catalog ← ddl (updateCollectionTable pg old.toDef new.toDef s.catalog)
    return ⟨records, catalog⟩
  else return ⟨records, s.catalog⟩

/-- A record is deleted and its relation dropped. -/
def dropCollection (r : CollectionRecord) (s : Registry) : Except Text Registry := do
  let catalog ← ddl (dropCollectionObject pg r.name s.catalog)
  return ⟨s.records.filter (·.id ≠ r.id), catalog⟩

/-- `_find_collection` -/
def findCollection (s : Registry) (idOrName : Text) : Except Text CollectionRecord :=
  match s.records.find? fun r => r.id = idOrName || lower r.name = lower idOrName with
  | some r => .ok r
  | none => .error (("Collection '" : Text) ++ idOrName ++ ("' not found." : Text))

/-- The options of a new collection. -/
def createOptions (g : Generated) (type : Text) (options : Dict Text Value) : Dict Text Value :=
  if type = "auth" then deepMergeDicts (generateDefaultAuthOptions g.tokenKey false) options
  else options

/-- `create_collection` -/
def createCollection (g : Generated) (data : CollectionCreate) (s : Registry) :
    Except Text Registry := do
  validateCollectionName lower data.name
  if s.records.any fun r => lower r.name = lower data.name then
    .error (("Collection with name '" : Text) ++ data.name ++ ("' already exists." : Text))
  else
    let id ← collectionId data.id g
    addCollection pg ⟨id, data.name, data.type, data.system, data.schema, data.indexes,
      data.rules, createOptions g data.type data.options⟩ s

/-- The name an update gives a record. -/
def newName (s : Registry) (record : CollectionRecord) (name : Option Text) : Except Text Text :=
  match name with
  | none => .ok record.name
  | some name =>
    if lower name = lower record.name then .ok record.name
    else do
      validateCollectionName lower name
      if s.records.any fun r => lower r.name = lower name && r.id ≠ record.id then
        .error (("Collection with name '" : Text) ++ name ++ ("' already exists." : Text))
      else .ok name

/-- The options an update of a record to type `type` leaves. -/
def newOptions (g : Generated) (record : CollectionRecord) (type : Text)
    (options : Option (Dict Text Value)) : Dict Text Value :=
  match options with
  | some incoming =>
    if type = "auth" then
      deepMergeDicts (deepMergeDicts
        (generateDefaultAuthOptions g.tokenKey (record.name =
          "_superusers")) record.options) incoming
    else incoming
  | none =>
    if type = "auth" ∧ record.type ≠ "auth" then
      deepMergeDicts (generateDefaultAuthOptions g.tokenKey (record.name = "_superusers"))
        record.options
    else record.options

/-- A record with the changes of an update. -/
def updatedRecord (g : Generated) (record : CollectionRecord) (name : Text)
    (data : CollectionUpdate) : CollectionRecord :=
  let type := data.type.getD record.type
  { id := record.id, name, type
    system := data.system.getD record.system
    schema := data.schema.getD record.schema
    indexes := data.indexes.getD record.indexes
    rules := data.rules.apply record.rules
    options := newOptions g { record with name } type data.options }

/-- `update_collection` -/
def updateCollection (g : Generated) (idOrName : Text) (data : CollectionUpdate) (s : Registry) :
    Except Text Registry := do
  let record ← findCollection lower s idOrName
  if record.system then .error "Cannot modify a system collection."
  else
    let name ← newName lower s record data.name
    changeCollection pg record (updatedRecord g record name data) s

/-- `delete_collection` -/
def deleteCollection (idOrName : Text) (s : Registry) : Except Text Registry := do
  let record ← findCollection lower s idOrName
  if record.system then .error "Cannot delete a system collection."
  else dropCollection pg record s

/-- A record with the changes of an import entry. -/
def importedRecord (e : ImportEntry) (record : CollectionRecord) : CollectionRecord :=
  let type := e.type.getD record.type
  let incoming := e.options.getD record.options
  { record with
    type
    schema := e.schema.getD record.schema
    indexes := e.indexes.getD record.indexes
    rules := e.rules.apply record.rules
    options :=
      if type = "auth" then
        deepMergeDicts (deepMergeDicts (generateDefaultAuthOptions e.generated.tokenKey
          (record.name = "_superusers")) record.options) incoming
      else incoming }

/-- The create branch of an import. -/
def importCreate (e : ImportEntry) (s : Registry) : Except Text Registry := do
  let type := e.type.getD "base"
  let id ← collectionId e.id e.generated
  addCollection pg ⟨id, e.name, type, e.system.getD false, e.schema.getD [], e.indexes.getD [],
    e.rules.apply {}, createOptions e.generated type (e.options.getD [])⟩ s

/-- One entry of an import. `existing` has the ids of the collections there were at its start
under their names in lower case. -/
def importEntry (existing : Dict Text Text) (s : Registry) (e : ImportEntry) :
    Except Text Registry :=
  if e.name = [] then .ok s
  else
    match existing.get? (lower e.name) with
    | some id =>
      match s.records.find? (·.id = id) with
      | some record => changeCollection pg record (importedRecord e record) s
      | none => .ok s
    | none => importCreate pg e s

/-- The deletion of one collection that an import does not name. -/
def deleteMissingOne (imported : List Text) (s : Registry) (entry : Text × Text) :
    Except Text Registry :=
  if entry.1 ∈ imported then .ok s
  else
    match s.records.find? (·.id = entry.2) with
    | some record => if record.system then .ok s else dropCollection pg record s
    | none => .ok s

/-- `_import_collections_impl` -/
def importCollections (entries : List ImportEntry) (deleteMissing : Bool) (s : Registry) :
    Except Text Registry := do
  let existing : Dict Text Text := s.records.foldl (fun d r => d.set (lower r.name) r.id) []
  let s ← entries.foldlM (importEntry lower pg existing) s
  let imported := (entries.filter (·.name ≠ [])).map fun e => lower e.name
  if deleteMissing then existing.foldlM (deleteMissingOne pg imported) s else return s

/-- The operations on the registry. -/
inductive Op
  | create (g : Generated) (data : CollectionCreate)
  | update (g : Generated) (idOrName : Text) (data : CollectionUpdate)
  | delete (idOrName : Text)
  | importAll (entries : List ImportEntry) (deleteMissing : Bool)

/-- An operation in its transaction : an error rolls it back. -/
def step (s : Registry) (op : Op) : Registry :=
  let result :=
    match op with
    | .create g data => createCollection lower pg g data s
    | .update g idOrName data => updateCollection lower pg g idOrName data s
    | .delete idOrName => deleteCollection lower pg idOrName s
    | .importAll entries deleteMissing => importCollections lower pg entries deleteMissing s
  match result with
  | .ok s' => s'
  | .error _ => s

/-- Operations one after the other. -/
def run (s : Registry) (ops : List Op) : Registry := ops.foldl (step lower pg) s

end CollectionService

end PPBase
