import PPBase.FilterCongr
import PPBase.Session
import PPBase.Storage

/-!
# Batches

`/api/batch` runs a list of create, update, upsert and delete requests in one transaction.
-/

namespace PPBase

namespace Batch

open RecordStore RecordApi Files Storage Cleanup

/-- What the endpoints run with. -/
structure Server where
  codec : Storage.Codec
  rt : Runtime
  pg : Pg
  /-- How deep a deletion may recurse. -/
  depth : ℕ

/-- The database and the stored files. -/
structure World where
  db : Db
  files : Store Location (List UInt8)

/-- A request that went through, and the files it hands over for removal. -/
structure Done where
  db : Db
  status : ℕ
  removed : List Location := []

/-- What a request comes to within a transaction, and the files it has written by then. -/
structure Work where
  result : Except ErrorResponse Done
  written : List (Location × List UInt8) := []

def refuse (e : ErrorResponse) : Work := { result := .error e }

/-! ## The requests -/

/-- What the URL and the method of a request ask for. -/
inductive Action
  | create
  | upsert
  | update (id : Text)
  | delete (id : Text)
  deriving DecidableEq

structure Target where
  action : Action
  collection : Text
  query : Dict Text Text
  deriving DecidableEq

/-- `_BATCH_RECORDS_RE` and `_BATCH_RECORD_RE` : the collection, and the record if one is named. -/
def recordsPath? (path : Text) : Option (Text × Option Text) :=
  match Text.split '/' path with
  | root :: api :: collections :: c :: records :: rest =>
    if root = [] ∧ api = "api" ∧ collections = "collections" ∧ c ≠ [] ∧ records = "records" then
      match rest with
      | [] | [[]] => some (c, none)
      | [id] | [id, []] => if id = [] then none else some (c, some id)
      | _ => none
    else none
  | _ => none

/-- `_parse_batch_target` -/
def parseBatchTarget (S : Server) (item : Dict Text Value) : Option Target :=
  let method := Text.strip (S.codec.upper (Macros.idText S.rt ((item.get? "method").getD (.text []))))
  match item.get? "url" with
  | some (.text url) =>
    if method = [] ∨ Text.strip url = [] then none
    else do
      let parts ← Url.urlsplit S.codec.toCodec url
      let query : Dict Text Text :=
        (Url.parseQsl S.codec.toCodec parts.query).foldl (fun d e => Dict.set d e.1 e.2) []
      let (c, id?) ← recordsPath? parts.path
      let c := S.codec.unquote c
      match id? with
      | none =>
        if method = "POST" then some ⟨.create, c, query⟩
        else if method = "PUT" then some ⟨.upsert, c, query⟩
        else none
      | some id =>
        let id := S.codec.unquote id
        if method = "PATCH" then some ⟨.update id, c, query⟩
        else if method = "DELETE" then some ⟨.delete id, c, query⟩
        else none
  | _ => none

/-- `_build_batch_headers`, where `outer` are the headers of the batch. -/
def batchHeaders (rt : Runtime) (outer : Dict Text Text) (v : Value) : Option (Dict Text Text) :=
  let merged : Dict Text Text := outer.foldl (fun d e => Dict.set d (rt.lower e.1) e.2) []
  let own : Option (Dict Text Value) :=
    match v with
    | .null => some []
    | .obj d => some d
    | _ => none
  own.bind fun own =>
    (own.foldlM (fun (d : Dict Text Text) (e : Text × Value) =>
      match e.2 with
      | .text s =>
        if rt.lower e.1 = "authorization" then some d else some (Dict.set d (rt.lower e.1) s)
      | _ => none) merged).map fun d => Dict.set d "content-type" "multipart/form-data".toList

/-- The body of a request. -/
def bodyOf (action : Action) (item : Dict Text Value) : Except ErrorResponse Row :=
  match action with
  | .delete _ => .ok []
  | _ =>
    match getKey item "body" with
    | .null => .ok []
    | .obj d => .ok d
    | _ => .error ⟨400, "Request body must be a JSON object.", []⟩

/-- The index and the field of an upload's key : `requests.0.field` or `requests[0].field`. -/
def fileKey? (key : Text) : Option (ℕ × Text) :=
  match Text.afterPrefix? "requests" key with
  | some (c :: rest) =>
    if c = '.' ∨ c = '[' then
      let field := rest.dropWhile Char.isDigit
      match (if field.head? = some ']' then field.tail else field) with
      | '.' :: field => (Runtime.digits? (rest.takeWhile Char.isDigit)).map fun i => (i, field)
      | _ => none
    else none
  | _ => none

/-- A field of word characters, `[A-Za-z0-9_]+`. -/
def isWord (field : Text) : Bool := field ≠ [] && field.all Text.isIdentChar

/-- `_BATCH_FILE_KEY_RE`, whose `$` also stands before a final newline. -/
def batchFileKey? (key : Text) : Option (ℕ × Text) :=
  (fileKey? key).bind fun e =>
    let field := if e.2.getLast? = some '\n' then e.2.dropLast else e.2
    if isWord field then some (e.1, field) else none

/-- `files_by_request`, for the keys that `read` can read. -/
def filesOf (read : Text → Option (ℕ × Text)) (form : Dict Text (List Upload)) (i : ℕ) :
    Dict Text (List Upload) :=
  form.foldl (fun d e =>
    match read e.1 with
    | some (j, field) =>
      if j = i ∧ e.2 ≠ [] then Dict.set d field ((Dict.get? d field).getD [] ++ e.2) else d
    | none => d) []

/-! ## The handlers -/

/-- A creation. -/
def createWork (S : Server) (w : Writer) (db : Db) (c : Collection) (route : Route)
    (req : RecordRequest) (opts : Options) : Work where
  result := (createHandler w S.rt S.pg db c route req opts).map fun r => ⟨r.1, 200, []⟩
  written :=
    if checkRule c.createRule (isAdminPayload req.auth) = .deny then []
    else createWrites w S.rt c req.data req.files

/-- The checks before an update. -/
def updateChecks (S : Server) (w : Writer) (db : Db) (c : Collection) (id : Text) (route : Route)
    (req : RecordRequest) : Except ErrorResponse Unit := do
  let isAdmin := isAdminPayload req.auth
  let ctx := ruleContext w c .update route req
  updateAllowed S.rt S.pg db c id ctx (checkRule c.updateRule isAdmin)
  updateManaged S.rt S.pg db c id isAdmin ctx req.auth req.data

/-- An update. -/
def updateWork (S : Server) (w : Writer) (db : Db) (c : Collection) (id : Text) (route : Route)
    (req : RecordRequest) (opts : Options) : Work where
  result := (updateHandler w S.rt S.pg db c id route req opts).map fun r =>
    ⟨r.1, 200, updateRemoves S.codec w S.rt db c id req.data req.files⟩
  written :=
    match updateChecks S w db c id route req with
    | .error _ => []
    | .ok _ => updateWrites w S.rt db c id req.data req.files

/-- `_default_delete_handler`, and the one of a batch. The rule is evaluated as for an update. -/
def deleteHandler (S : Server) (w : Writer) (collections : List Collection) (db : Db)
    (c : Collection) (id : Text) (route : Route) (req : RecordRequest) :
    Except ErrorResponse (Db × List Location) := do
  let ctx := ruleContext w c .update route req
  updateAllowed S.rt S.pg db c id ctx (checkRule c.deleteRule (isAdminPayload req.auth))
  match ← (deleteRecord S.codec S.rt collections S.depth db c id).mapError fun _ => serverError with
  | none => .error notFound
  | some r => .ok r

def deleteWork (S : Server) (w : Writer) (collections : List Collection) (db : Db)
    (c : Collection) (id : Text) (route : Route) (req : RecordRequest) : Work where
  result := (deleteHandler S w collections db c id route req).map fun r => ⟨r.1, 204, r.2⟩

/-- A request of a list, with what its writes take from elsewhere and its uploads. -/
structure Item where
  writer : Writer
  request : Value
  files : Dict Text (List Upload)

/-- The options in the query. -/
def optionsOf (query : Dict Text Text) : Options where
  fields := (query.get? "fields").getD []
  expand := (query.get? "expand").getD []

/-- The record to update or create under the id of an upsert. -/
def upsertId (w : Writer) (body : Row) : Except ErrorResponse (Option Text) :=
  match getKey body "id" with
  | .null | .text [] => .ok none
  | v =>
    match w.recordId? v with
    | some id => .ok (some id)
    | none => .error ⟨400, "Failed to create or update record.", [("id", .invalidRecordId)]⟩

section

variable (S : Server) (collections : List Collection) (headers : Dict Text Text)
  (auth : Option TokenPayload) (db : Db) (c : Collection) (t : Target) (body : Row) (x : Item)

/-- The request with a method. -/
def requestOf (method : Text) (body : Row) : RecordRequest :=
  ⟨⟨method, headers, t.query⟩, auth, body, x.files⟩

/-- A request of a batch, once it is read. -/
def applyBatch : Work :=
  let post (body : Row) := createWork S x.writer db c .batch
    (requestOf headers auth t x "POST" body) (optionsOf t.query)
  let patch (id : Text) := updateWork S x.writer db c id .batch
    (requestOf headers auth t x "PATCH" body) (optionsOf t.query)
  match t.action with
  | .create => post body
  | .update id => patch id
  | .delete id => deleteWork S x.writer collections db c id .batch
      { requestOf headers auth t x "DELETE" [] with files := [] }
  | .upsert =>
    match upsertId x.writer body with
    | .error e => refuse e
    | .ok none => post body
    | .ok (some id) =>
      if (db.rowById c.name id).isSome then patch id else post (body.set "id" (.text id))

/-- The same request at its own endpoint. An upsert is an update if there is a record with its
id, and a creation otherwise. -/
def applySingle : Work :=
  let post := createWork S x.writer db c .single
    (requestOf headers auth t x "POST" body) (optionsOf t.query)
  let patch (id : Text) := updateWork S x.writer db c id .single
    (requestOf headers auth t x "PATCH" body) (optionsOf t.query)
  match t.action with
  | .create => post
  | .update id => patch id
  | .delete id => deleteWork S x.writer collections db c id .single
      { requestOf headers auth t x "DELETE" [] with files := [] }
  | .upsert =>
    match getKey body "id" with
    | .text id => if id ≠ [] ∧ (db.rowById c.name id).isSome then patch id else post
    | _ => post

end

def invalidBatchRequest : ErrorResponse := ⟨400, "Invalid batch request.", []⟩

def missingCollection : ErrorResponse := ⟨404, "Missing collection context.", []⟩

/-- `_execute_batch_request` -/
def executeBatchRequest (S : Server) (collections : List Collection) (outer : Dict Text Text)
    (auth : Option TokenPayload) (db : Db) (x : Item) : Work :=
  match x.request with
  | .obj item =>
    match parseBatchTarget S item, batchHeaders S.rt outer (getKey item "headers") with
    | some t, some headers =>
      match db.resolveCollection t.collection with
      | none => refuse missingCollection
      | some c =>
        match bodyOf t.action item with
        | .error e => refuse e
        | .ok body => applyBatch S collections headers auth db c t body x
    | _, _ => refuse invalidBatchRequest
  | _ => refuse invalidBatchRequest

/-- The request sent to its own endpoint, with any headers. What a batch cannot read is no
request. -/
def sendRequest (S : Server) (outer headers : Dict Text Text) (auth : Option TokenPayload) (db : Db)
    (x : Item) : Work :=
  match x.request with
  | .obj item =>
    match parseBatchTarget S item, batchHeaders S.rt outer (getKey item "headers") with
    | some t, some _ =>
      match db.resolveCollection t.collection with
      | none => refuse missingCollection
      | some c =>
        match bodyOf t.action item with
        | .error e => refuse e
        | .ok body => applySingle S db.collections headers auth db c t body x
    | _, _ => refuse invalidBatchRequest
  | _ => refuse invalidBatchRequest

/-! ## The transactions -/

/-- The files after a transaction that went through. -/
def settled (S : Server) (db : Db) (files : Store Location (List UInt8))
    (e : Effects Location (List UInt8)) : World :=
  ⟨db, commit (references S.codec S.rt db) files e⟩

/-- `_run_storage_transaction` -/
def runTransaction (S : Server) (W : World) (k : Work) : Except ErrorResponse ℕ × World :=
  match k.result with
  | .error e => (.error e, { W with files := rollback W.files k.written })
  | .ok d => (.ok d.status, settled S d.db W.files ⟨k.written, d.removed⟩)

/-- The requests sent one after another, each in a transaction of its own, until one fails. -/
def sendEach (S : Server) (outer headers : Dict Text Text)
    (auth : Db → Except ErrorResponse (Option TokenPayload)) :
    World → List Item → Except ErrorResponse (List ℕ × World)
  | W, [] => .ok ([], W)
  | W, x :: xs =>
    match auth W.db with
    | .error e => .error e
    | .ok p =>
      match runTransaction S W (sendRequest S outer headers p W.db x) with
      | (.error e, _) => .error e
      | (.ok status, W') => (sendEach S outer headers auth W' xs).map fun r => (status :: r.1, r.2)

/-- A batch that is still going. -/
structure Progress where
  db : Db
  statuses : List ℕ := []
  effects : Effects Location (List UInt8) := {}

/-- A batch that failed : the index of the request, its response, and all files written. -/
structure Failure where
  index : ℕ
  response : ErrorResponse
  written : List (Location × List UInt8)

/-- The loop of `_run_batch`. -/
def runBatch (S : Server) (collections : List Collection) (outer : Dict Text Text)
    (auth : Option TokenPayload) : Progress → List Item → Except Failure Progress
  | P, [] => .ok P
  | P, x :: xs =>
    let k := executeBatchRequest S collections outer auth P.db x
    match k.result with
    | .error e => .error ⟨P.statuses.length, e, P.effects.written ++ k.written⟩
    | .ok d =>
      runBatch S collections outer auth
        ⟨d.db, P.statuses ++ [d.status], P.effects.append ⟨k.written, d.removed⟩⟩ xs

/-- `api_batch_records`, once the payload is read : the index and response of the request that
failed, or the statuses. -/
def apiBatchRecords (S : Server) (outer : Dict Text Text)
    (auth : Db → Except ErrorResponse (Option TokenPayload)) (W : World) (items : List Item) :
    Except (ℕ × ErrorResponse) (List ℕ) × World :=
  match auth W.db with
  | .error e => (.error (0, e), W)
  | .ok p =>
    match runBatch S W.db.collections outer p { db := W.db } items with
    | .error f => (.error (f.index, f.response), { W with files := rollback W.files f.written })
    | .ok P => (.ok P.statuses, settled S P.db W.files P.effects)

/-- The requests of a batch with their uploads. -/
def itemsOf (read : Text → Option (ℕ × Text)) (form : Dict Text (List Upload))
    (requests : List (Writer × Value)) : List Item :=
  requests.zipIdx.map fun e => ⟨e.1.1, e.1.2, filesOf read form e.2⟩

end Batch

end PPBase
