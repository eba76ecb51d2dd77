import PPBase.BodyMacros
import PPBase.Expand

/-!
# The record endpoints

The create, update and view handlers, alone (`Route.single`) and in a batch. A creation writes
first and evaluates its rule afterwards, in the new state; an update evaluates first. The
record of a mutation's response is read without a request context, so nothing is withheld from
it for the client's sake; in a batch with a `fields` parameter it is read once more, with the
context.
-/

namespace PPBase

open RecordStore

/-- `_error_response` -/
structure ErrorResponse where
  status : ℕ
  message : Text
  data : Dict Text FieldError := []
  deriving DecidableEq

namespace RecordApi

/-- `_AUTH_MANAGED_CREATE_FIELDS` -/
def authManagedCreateFields : List Text := ["emailVisibility", "email_visibility", "verified"]

/-- `_AUTH_MANAGED_UPDATE_FIELDS` -/
def authManagedUpdateFields : List Text :=
  ["email", "emailVisibility", "email_visibility", "verified", "password", "passwordConfirm"]

/-- `_AUTH_SELF_ALLOWED_UPDATE_FIELDS` -/
def authSelfAllowedUpdateFields : List Text := ["password", "passwordConfirm"]

/-- The keys of the payload that need manage access. -/
def managedKeys (c : Collection) (fields : List Text) (data : Row) : List Text :=
  if c.type = .auth then data.keys.filter (· ∈ fields) else []

/-- `_validation_message` -/
def validationMessage (base : Text) (errors : Dict Text FieldError) : Text :=
  if errors = [] then base
  else base ++ " Validation failed for: ".toList ++
    (", ".toList).intercalate errors.keys ++ ".".toList

def superusersOnly : ErrorResponse := ⟨403, "Only superusers can perform this action.", []⟩

def notAllowed : ErrorResponse :=
  ⟨403, "The authorized record model is not allowed to perform this action.", []⟩

def notFound : ErrorResponse := ⟨404, "The requested resource wasn't found.", []⟩

def ruleFailed : ErrorResponse :=
  ⟨400, "Failed to create record.", [("rule", ⟨"validation_rule_failed", "Action not allowed."⟩)]⟩

/-- An exception that no handler catches. -/
def serverError : ErrorResponse := ⟨500, "Internal Server Error", []⟩

/-- The response for a write that failed. -/
def writeFailed (base : Text) : WriteError → ErrorResponse
  | .validation errors => ⟨400, validationMessage base errors, errors⟩
  | .exception => ⟨400, base, []⟩

/-- `check_record_rule`, where a rule that cannot be evaluated raises. -/
def recordRule (rt : Runtime) (pg : Pg) (db : Db) (c : Collection) (id rule : Text)
    (ctx : RequestContext) : Except ErrorResponse Bool :=
  (checkRecordRule rt pg db c id rule ctx).mapError fun _ => serverError

/-- `_has_manage_access_for_auth_record` -/
def hasManageAccess (rt : Runtime) (pg : Pg) (db : Db) (c : Collection) (id : Text)
    (isAdmin : Bool) (ctx : RequestContext) : Except ErrorResponse Bool :=
  if isAdmin then .ok true
  else
    match checkRule c.options.manageRule isAdmin with
    | .allow => .ok true
    | .deny => .ok false
    | .expression rule => recordRule rt pg db c id rule ctx

/-- `_is_self_auth_target` -/
def isSelfAuthTarget (auth : Option TokenPayload) (c : Collection) (id : Text) : Bool :=
  match auth with
  | none => false
  | some p => p ≠ [] && p.get? "type" = some (.text "authRecord") &&
      p.get? "collectionId" = some (.text c.id) && p.get? "id" = some (.text id)

/-- The `fields` and `expand` parameters. -/
structure Options where
  fields : Text := []
  expand : Text := []

/-- Who the response is for, by the context of the request. -/
def viewer (auth : Option TokenPayload) : Viewer := .request (some ((auth.map TokenPayload.authInfo).getD []))

/-- The record of a mutation's response, before expansion. -/
def mutationRecord (rt : Runtime) (db : Db) (c : Collection) (id : Text) (route : Route)
    (auth : Option TokenPayload) (opts : Options) : Option (Dict Text Value) :=
  if route = .batch ∧ opts.fields ≠ [] then getRecord rt db c id opts.fields (viewer auth)
  else getRecord rt db c id [] .anyone

/-- The response with what `expand` places. -/
def expanded (rt : Runtime) (db : Db) (c : Collection) (auth : Option TokenPayload)
    (opts : Options) (row : Row) (record : Dict Text Value) : ExpandedRecord :=
  if opts.expand = [] ∨ record = [] then Expand.root c row record
  else Expand.expandRecord rt db (viewer auth) opts.expand (Expand.root c row record)

/-- The response of a mutation. -/
def mutationResponse (rt : Runtime) (db : Db) (c : Collection) (id : Text) (route : Route)
    (auth : Option TokenPayload) (opts : Options) : Option ExpandedRecord :=
  (db.rowById c.name id).bind fun row =>
    (mutationRecord rt db c id route auth opts).map (expanded rt db c auth opts row)

/-- The rule of a creation, evaluated in the new state. -/
def createAllowed (rt : Runtime) (pg : Pg) (db : Db) (c : Collection) (id : Text)
    (ctx : RequestContext) : RuleResult → Except ErrorResponse Unit
  | .deny => .error superusersOnly
  | .allow => .ok ()
  | .expression rule => do
    if ← recordRule rt pg db c id rule ctx then .ok () else .error ruleFailed

/-- The managed fields of a creation. -/
def createManaged (rt : Runtime) (pg : Pg) (db : Db) (c : Collection) (id : Text) (isAdmin : Bool)
    (ctx : RequestContext) (data : Row) : Except ErrorResponse Unit :=
  if managedKeys c authManagedCreateFields data = [] then .ok ()
  else do
    if ← hasManageAccess rt pg db c id isAdmin ctx then .ok () else .error notAllowed

/-- `_default_create_handler`, and the one of a batch : the new state, the id and the response.
An error undoes the creation. -/
def createHandler (w : Writer) (rt : Runtime) (pg : Pg) (db : Db) (c : Collection) (route : Route)
    (req : RecordRequest) (opts : Options) : Except ErrorResponse (Db × Text × ExpandedRecord) :=
  let isAdmin := isAdminPayload req.auth
  let rule := checkRule c.createRule isAdmin
  let ctx := ruleContext w c .create route req
  if rule = .deny then .error superusersOnly
  else do
    let (db', id, _) ← (createRecord w rt db c req.data req.files).mapError
      (writeFailed "Failed to create record.")
    createAllowed rt pg db' c id ctx rule
    createManaged rt pg db' c id isAdmin ctx req.data
    match mutationResponse rt db' c id route req.auth opts with
    | some m => .ok (db', id, m)
    -- Without a table the row has not been inserted.
    | none => .error (writeFailed "Failed to create record." .exception)

/-- The rule of an update, evaluated in the old state. -/
def updateAllowed (rt : Runtime) (pg : Pg) (db : Db) (c : Collection) (id : Text)
    (ctx : RequestContext) : RuleResult → Except ErrorResponse Unit
  | .deny => .error superusersOnly
  | .allow => .ok ()
  | .expression rule => do
    if ← recordRule rt pg db c id rule ctx then .ok () else .error notFound

/-- The managed fields of an update. -/
def updateManaged (rt : Runtime) (pg : Pg) (db : Db) (c : Collection) (id : Text) (isAdmin : Bool)
    (ctx : RequestContext) (auth : Option TokenPayload) (data : Row) : Except ErrorResponse Unit :=
  let managed := managedKeys c authManagedUpdateFields data
  if managed = [] then .ok ()
  else do
    let access ← hasManageAccess rt pg db c id isAdmin ctx
    if access ∨ (isSelfAuthTarget auth c id = true ∧ managed.all (· ∈ authSelfAllowedUpdateFields)) then
      .ok ()
    else .error notAllowed

/-- `_default_update_handler`, and the one of a batch. -/
def updateHandler (w : Writer) (rt : Runtime) (pg : Pg) (db : Db) (c : Collection) (id : Text)
    (route : Route) (req : RecordRequest) (opts : Options) :
    Except ErrorResponse (Db × ExpandedRecord) := do
  let isAdmin := isAdminPayload req.auth
  let ctx := ruleContext w c .update route req
  updateAllowed rt pg db c id ctx (checkRule c.updateRule isAdmin)
  updateManaged rt pg db c id isAdmin ctx req.auth req.data
  match ← (updateRecord w rt db c id req.data req.files).mapError
      (writeFailed "Failed to update record.") with
  | none => .error notFound
  | some db' =>
    match mutationResponse rt db' c id route req.auth opts with
    | some m => .ok (db', m)
    | none => .error notFound

/-- `_default_view_handler` -/
def viewHandler (rt : Runtime) (pg : Pg) (db : Db) (c : Collection) (id : Text)
    (http : HttpRequest) (auth : Option TokenPayload) (fields : Text) :
    Except ErrorResponse (Dict Text Value) :=
  match checkRule c.viewRule (isAdminPayload auth) with
  | .deny => .error superusersOnly
  | .allow =>
    match getRecord rt db c id fields (viewer auth) with
    | none => .error notFound
    | some record => .ok record
  | .expression rule =>
    match getRecord rt db c id fields (viewer auth) with
    | none => .error notFound
    | some record => do
      if ← recordRule rt pg db c id rule (prepareRequestContext http auth []) then .ok record
      else .error notFound

/-! ## What goes through -/

section

variable {w : Writer} {rt : Runtime} {pg : Pg} {db db' : Db} {c : Collection} {route : Route}
  {req : RecordRequest} {opts : Options} {id : Text} {m : ExpandedRecord} {ctx : RequestContext}
  {data : Row}

theorem of_createHandler (h : createHandler w rt pg db c route req opts = .ok (db', id, m)) :
    (∃ payload, createRecord w rt db c req.data req.files = .ok (db', id, payload)) ∧
      createAllowed rt pg db' c id (ruleContext w c .create route req)
        (checkRule c.createRule (isAdminPayload req.auth)) = .ok () ∧
      createManaged rt pg db' c id (isAdminPayload req.auth) (ruleContext w c .create route req)
        req.data = .ok () ∧
      mutationResponse rt db' c id route req.auth opts = some m := by
  unfold createHandler at h
  dsimp only at h
  split_ifs at h
  obtain ⟨⟨db₁, id₁, payload⟩, hcreate, h⟩ := Failing.bind_eq_ok.1 h
  obtain ⟨⟨⟩, hallowed, h⟩ := Failing.bind_eq_ok.1 h
  obtain ⟨⟨⟩, hmanaged, h⟩ := Failing.bind_eq_ok.1 h
  split at h
  · rename_i m' hm'
    cases h
    exact ⟨⟨payload, Failing.mapError_eq_ok.1 hcreate⟩, hallowed, hmanaged, hm'⟩
  · cases h

theorem of_updateHandler (h : updateHandler w rt pg db c id route req opts = .ok (db', m)) :
    updateRecord w rt db c id req.data req.files = .ok (some db') ∧
      updateAllowed rt pg db c id (ruleContext w c .update route req)
        (checkRule c.updateRule (isAdminPayload req.auth)) = .ok () ∧
      updateManaged rt pg db c id (isAdminPayload req.auth) (ruleContext w c .update route req)
        req.auth req.data = .ok () ∧
      mutationResponse rt db' c id route req.auth opts = some m := by
  obtain ⟨⟨⟩, hallowed, h⟩ := Failing.bind_eq_ok.1 h
  obtain ⟨⟨⟩, hmanaged, h⟩ := Failing.bind_eq_ok.1 h
  obtain ⟨db₁?, hupdate, h⟩ := Failing.bind_eq_ok.1 h
  cases db₁? with
  | none => cases h
  | some db₁ =>
    dsimp only at h
    split at h
    · rename_i m' hm'
      cases h
      exact ⟨Failing.mapError_eq_ok.1 hupdate, hallowed, hmanaged, hm'⟩
    · cases h

/-- The response is about a row. -/
theorem row_of_mutationResponse {auth : Option TokenPayload}
    (h : mutationResponse rt db c id route auth opts = some m) : ∃ row, db.rowById c.name id = some row := by
  obtain ⟨row, hrow, -⟩ := Option.bind_eq_some_iff.1 h
  exact ⟨row, hrow⟩

theorem createManaged_eq_ok {isAdmin : Bool} :
    createManaged rt pg db c id isAdmin ctx data = .ok () ↔
      managedKeys c authManagedCreateFields data = [] ∨
        hasManageAccess rt pg db c id isAdmin ctx = .ok true := by
  unfold createManaged
  split_ifs with hkeys
  · exact ⟨fun _ => Or.inl hkeys, fun _ => rfl⟩
  · rw [Failing.bind_eq_ok, or_iff_right hkeys]
    constructor
    · rintro ⟨b, hb, h⟩
      cases b with
      | false => cases h
      | true => exact hb
    · intro h
      exact ⟨true, h, rfl⟩

end

end RecordApi

end PPBase
