import PPBase.AuthFlows
import PPBase.RecordApi

/-!
# Signing in with OAuth2

`auth-with-oauth2` once the provider has answered : the record the external account is linked
to, else the record that has the email the provider reports, else a new one, from what the
client sends as `createData`. The new record is committed before anything is asked about it,
and nothing asks the collection's create rule or who may set its managed fields.

`creation_enforced_iff` : a request that leaves a new record behind has passed the create rule
and may set the managed fields it sets, exactly if it did not create the record by an OAuth2
login, or what `POST records` checks would have passed there.
-/

namespace PPBase

namespace OAuth

open Session AuthFlows RecordStore RecordApi

/-- A row of `_external_auths`. -/
structure ExternalAuth where
  collectionId : Text
  recordId : Text
  provider : Text
  providerId : Text
  deriving DecidableEq

/-- What a login reads and writes. -/
structure Store where
  db : Db
  links : List ExternalAuth

/-- The link is the one of an account at a provider. -/
def ExternalAuth.isOf (l : ExternalAuth) (c : Collection) (provider providerId : Text) : Bool :=
  l.collectionId = c.id && l.provider = provider && l.providerId = providerId

/-- What goes wrong in a login, once the provider is asked. -/
inductive Failure
  /-- The exchange with the provider. -/
  | provider (message : Text)
  /-- A query, or an operation of Python. -/
  | session (e : SessionError)
  | write (e : WriteError)
  /-- `Failed to resolve OAuth2 auth record.` -/
  | unresolved
  deriving DecidableEq

/-- The record linked to an account, by `ExternalAuthRecord.provider_id == id`. -/
def linkedRecord (links : List ExternalAuth) (c : Collection) (provider : Text) :
    Value → Except SessionError (Option Text)
  | .text id => .ok ((links.find? fun l => l.isOf c provider id).map ExternalAuth.recordId)
  | .null => .ok none
  | _ => .error .query

/-- `str(provider_user_info.get("email") or "").strip()` -/
def reportedEmail (rt : Runtime) (info : Row) : Text :=
  Text.strip (Response.strOrEmpty rt (info.get? "email"))

/-- The id of a record with the email. -/
def recordIdByEmail (rt : Runtime) (db : Db) (c : Collection) (email : Text) : Option Text :=
  if email = [] then none
  else (rawRecordByField db c "email" email).map fun r => Macros.idText rt (getKey r "id")

/-- `oauth_data` : the fields the collection maps. -/
def mappedData (c : Collection) (info : Row) : Row :=
  c.options.mappedFields.foldl (fun data e =>
    if e.2 ≠ [] ∧ (getKey info e.1).truthy then data.set e.2 (getKey info e.1) else data) []

/-- `record_data` : the fields of a new record. -/
def recordData (c : Collection) (info createData : Row) (generated : Text) : Row :=
  let data := Dict.update (mappedData c info) createData
  let data :=
    if (getKey data "email").truthy = false ∧ (getKey info "email").truthy then
      data.set "email" (getKey info "email")
    else data
  let data :=
    if (getKey data "password").truthy then data
    else (data.set "password" (.text generated)).set "passwordConfirm" (.text generated)
  let data := data.set "verified" (.bool true)
  if data.has "emailVisibility" then data else data.set "emailVisibility" (.bool false)

/-- The new link, if its columns take it. -/
def addLink (s : Store) (c : Collection) (provider : Text) (providerId : Value) (id : Text) :
    Store × Except Failure Text :=
  match providerId with
  | .text p =>
    if provider.length ≤ 100 ∧ p.length ≤ 255 ∧ id.length ≤ 15 ∧
        (s.links.any fun l => l.isOf c provider p) = false then
      ({ s with links := s.links ++ [⟨c.id, id, provider, p⟩] }, .ok id)
    else (s, .error (.session .query))
  | _ => (s, .error (.session .query))

/-- What the client and the provider say at a login. -/
structure Login where
  http : HttpRequest := {}
  /-- The body of the request. -/
  payload : Row
  /-- What `get_user_info` returns. -/
  info : Row
  /-- `generate_token_key(30)` -/
  generated : Text

/-- `str(payload.get(key, "")).strip()` -/
def param (rt : Runtime) (payload : Row) (key : Text) : Text :=
  Text.strip (Macros.idText rt ((payload.get? key).getD (.text [])))

namespace Login

def provider (rt : Runtime) (l : Login) : Text := param rt l.payload "provider"

def createData (l : Login) : Value := (l.payload.get? "createData").getD (.obj [])

end Login

/-- The new record of a login, committed, and its link. -/
def createOauthUser (w : Writer) (rt : Runtime) (s : Store) (c : Collection) (l : Login)
    (providerId : Value) : Store × Except Failure Text :=
  match l.createData with
  | .obj createData =>
    match createRecord w rt s.db c (recordData c l.info createData l.generated) [] with
    | .error e => (s, .error (.write e))
    | .ok (db', id, _) => addLink { s with db := db' } c (l.provider rt) providerId id
  | _ => (s, .error (.session .type))

/-- `link_or_create_oauth_user`. What it leaves, and the id of the record. -/
def linkOrCreateOauthUser (w : Writer) (rt : Runtime) (s : Store) (c : Collection) (l : Login) :
    Store × Except Failure Text :=
  match l.info.get? "id" with
  | none => (s, .error (.session .type))
  | some providerId =>
    match linkedRecord s.links c (l.provider rt) providerId with
    | .error e => (s, .error (.session e))
    | .ok linked =>
      match linked.filter (· ≠ []) with
      | some id =>
        if (s.db.rowById c.name id).isSome then (s, .ok id) else (s, .error .unresolved)
      | none =>
        match (recordIdByEmail rt s.db c (reportedEmail rt l.info)).filter (· ≠ []) with
        | some id =>
          if (s.db.rowById c.name id).isSome then addLink s c (l.provider rt) providerId id
          else (s, .error .unresolved)
        | none => createOauthUser w rt s c l providerId

/-- `_build_rule_request_context` for a login. -/
def loginContext (l : Login) : RequestContext :=
  { prepareRequestContext l.http none l.payload with context := "oauth2" }

/-- `_passes_auth_rule` -/
def passesAuthRule (rt : Runtime) (pg : Pg) (db : Db) (c : Collection) (id : Text)
    (ctx : RequestContext) : Except RuleError Bool :=
  match checkRule c.options.authRule false with
  | .allow => .ok true
  | .deny => .ok false
  | .expression rule => checkRecordRule rt pg db c id rule ctx

/-- `generate_record_auth_token` -/
def generateRecordAuthToken (db : Db) (c : Collection) (id : Text) : Except SessionError SignedToken :=
  match db.rowById c.name id with
  | none => .error .query
  | some row => createRecordAuthToken row c true

/-- `redirectUrl`, under any of its names. -/
def redirectUrl (rt : Runtime) (payload : Row) : Text :=
  let given (key : Text) : Option Value :=
    (payload.get? key).filter fun v => v ≠ .null ∧ v ≠ .text []
  Text.strip (Response.strOrEmpty rt
    ((given "redirectUrl").or ((given "redirectURL").or (payload.get? "redirect_url"))))

/-- The answer to a login that does not go through. -/
inductive Refusal
  | response (r : ErrorResponse)
  /-- `Failed to authenticate with OAuth2`, with the text of the exception. -/
  | raised (e : Failure)

def blank (field : Text) : Refusal :=
  .response ⟨400, "Failed to authenticate.", [(field, .required)]⟩

/-- The text around the name of a collection. -/
def aboutCollection (before after : Text) (c : Collection) : Text := before ++ c.name ++ after

/-- What is refused before the provider is asked. -/
def refusedAtOnce (rt : Runtime) (c : Collection) (payload : Row) : Option Refusal :=
  if c.type ≠ .auth then
    some (.response ⟨404, aboutCollection "The collection \"" "\" is not an auth collection." c, []⟩)
  else if param rt payload "provider" = [] then some (blank "provider")
  else if param rt payload "code" = [] then some (blank "code")
  else if param rt payload "codeVerifier" = [] then some (blank "codeVerifier")
  else if redirectUrl rt payload = [] then some (blank "redirectUrl")
  else if c.options.oauth2Enabled = false then
    some (.response ⟨400,
      aboutCollection "OAuth2 authentication is not enabled for collection \"" "\"." c, []⟩)
  else none

/-- The session of a record that has signed in. -/
def openSession (rt : Runtime) (pg : Pg) (db : Db) (c : Collection) (id : Text)
    (ctx : RequestContext) : Except Refusal SignedToken :=
  match passesAuthRule rt pg db c id ctx with
  | .error _ => .error (.raised (.session .query))
  | .ok false => .error (.response ⟨400, "Failed to authenticate.",
      [("identity", .invalidCredentials)]⟩)
  | .ok true => (generateRecordAuthToken db c id).mapError fun e => .raised (.session e)

/-- `_default_auth_with_oauth2`. `exchange` is what the provider answers, or the text of the
exception. The new state, and the record with its session. -/
def authWithOauth2 (exchange : Except Text Row) (w : Writer) (rt : Runtime) (pg : Pg) (s : Store)
    (c : Collection) (http : HttpRequest) (payload : Row) (generated : Text) :
    Store × Except Refusal (Text × SignedToken) :=
  match refusedAtOnce rt c payload with
  | some r => (s, .error r)
  | none =>
    match exchange with
    | .error message => (s, .error (.raised (.provider message)))
    | .ok info =>
      let l : Login := ⟨http, payload, info, generated⟩
      match linkOrCreateOauthUser w rt s c l with
      | (s', .error e) => (s', .error (.raised e))
      | (s', .ok id) => (s', (openSession rt pg s'.db c id (loginContext l)).map fun t => (id, t))

/-! ## What a login leaves -/

/-- The record that is linked to the account, or else has the email, if there is one. -/
def knownRecord (rt : Runtime) (s : Store) (c : Collection) (l : Login) :
    Except SessionError (Option Text) :=
  match l.info.get? "id" with
  | none => .error .type
  | some providerId => (linkedRecord s.links c (l.provider rt) providerId).map fun linked =>
      (linked.filter (· ≠ [])).or
        ((recordIdByEmail rt s.db c (reportedEmail rt l.info)).filter (· ≠ []))

/-- The login is accepted and makes a record. -/
structure Makes (w : Writer) (rt : Runtime) (s : Store) (c : Collection) (l : Login) (db' : Db)
    (id : Text) : Prop where
  accepted : refusedAtOnce rt c l.payload = none
  unknown : knownRecord rt s c l = .ok none
  created : ∃ createData payload, l.createData = .obj createData ∧
    createRecord w rt s.db c (recordData c l.info createData l.generated) [] = .ok (db', id, payload)

/-- Nothing refuses a login once its record is made. -/
def Completes (rt : Runtime) (pg : Pg) (s : Store) (c : Collection) (l : Login) (id : Text) : Prop :=
  ∃ providerId t, l.info.get? "id" = some providerId ∧
    (addLink s c (l.provider rt) providerId id).2 = .ok id ∧
      openSession rt pg s.db c id (loginContext l) = .ok t

section

variable {w : Writer} {rt : Runtime} {pg : Pg} {s s' : Store} {c : Collection} {l : Login}
  {id : Text} {providerId : Value} {r : Except Failure Text}

/-- A link leaves the records alone. -/
theorem db_addLink (s : Store) (c : Collection) (provider : Text) (providerId : Value) (id : Text) :
    (addLink s c provider providerId id).1.db = s.db := by
  unfold addLink
  split
  · split_ifs <;> rfl
  · rfl

theorem id_of_addLink {provider id' : Text}
    (h : addLink s c provider providerId id = (s', .ok id')) : id' = id := by
  unfold addLink at h
  split at h
  · split_ifs at h
    · exact (Except.ok.inj (Prod.mk.inj h).2).symm
    · cases h
  · cases h

/-- What a login does to the records, and the record it is for : a creation from the data of
client and provider, or nothing. -/
inductive Leaves (w : Writer) (rt : Runtime) (s : Store) (c : Collection) (l : Login)
    (s' : Store) (r : Except Failure Text) : Prop
  | created {createData payload : Row} {id : Text} (hnew : knownRecord rt s c l = .ok none)
      (hdata : l.createData = .obj createData)
      (hcreate : createRecord w rt s.db c (recordData c l.info createData l.generated) [] =
        .ok (s'.db, id, payload))
      (hid : ∀ id', r = .ok id' → id' = id) : Leaves w rt s c l s' r
  | found (hdb : s'.db = s.db) (hknown : ∀ id, r = .ok id → knownRecord rt s c l = .ok (some id)) :
      Leaves w rt s c l s' r

theorem leaves_createOauthUser (hnew : knownRecord rt s c l = .ok none)
    (h : createOauthUser w rt s c l providerId = (s', r)) : Leaves w rt s c l s' r := by
  unfold createOauthUser at h
  split at h
  · rename_i createData hdata
    split at h
    · obtain ⟨rfl, rfl⟩ := Prod.mk.inj h
      exact .found rfl nofun
    · rename_i db' id payload hcreate
      have hdb : s'.db = db' := by
        have hkept := db_addLink { s with db := db' } c (l.provider rt) providerId id
        rwa [h] at hkept
      refine .created hnew hdata (hdb ▸ hcreate) ?_
      rintro id' rfl
      exact id_of_addLink h
  · obtain ⟨rfl, rfl⟩ := Prod.mk.inj h
    exact .found rfl nofun

/-- Without a known record, one is made. -/
theorem linkOrCreate_of_unknown (hnew : knownRecord rt s c l = .ok none) :
    ∃ providerId, l.info.get? "id" = some providerId ∧
      linkOrCreateOauthUser w rt s c l = createOauthUser w rt s c l providerId := by
  unfold knownRecord at hnew
  split at hnew
  · cases hnew
  · rename_i providerId hinfo
    obtain ⟨linked, hlinked, hnone⟩ := Failing.map_eq_ok.1 hnew
    rw [Option.or_eq_none_iff] at hnone
    refine ⟨providerId, hinfo, ?_⟩
    unfold linkOrCreateOauthUser
    rw [hinfo]
    dsimp only
    rw [hlinked]
    dsimp only
    rw [hnone.1]
    dsimp only
    rw [hnone.2]

theorem leaves_linkOrCreate (h : linkOrCreateOauthUser w rt s c l = (s', r)) :
    Leaves w rt s c l s' r := by
  unfold linkOrCreateOauthUser at h
  split at h
  · obtain ⟨rfl, rfl⟩ := Prod.mk.inj h
    exact .found rfl nofun
  rename_i providerId hinfo
  split at h
  · obtain ⟨rfl, rfl⟩ := Prod.mk.inj h
    exact .found rfl nofun
  rename_i linked hlinked
  have hknown : knownRecord rt s c l = .ok ((linked.filter (· ≠ [])).or
      ((recordIdByEmail rt s.db c (reportedEmail rt l.info)).filter (· ≠ []))) := by
    unfold knownRecord
    rw [hinfo]
    dsimp only
    rw [hlinked]
    rfl
  split at h
  · rename_i id hid
    rw [hid, Option.some_or] at hknown
    split_ifs at h
    · obtain ⟨rfl, rfl⟩ := Prod.mk.inj h
      refine .found rfl fun id' hid' => ?_
      rw [hknown, Except.ok.inj hid']
    · obtain ⟨rfl, rfl⟩ := Prod.mk.inj h
      exact .found rfl nofun
  rename_i hid
  rw [hid, Option.none_or] at hknown
  split at h
  · rename_i id hemail
    rw [hemail] at hknown
    split_ifs at h
    · refine .found ?_ ?_
      · rw [← db_addLink s c (l.provider rt) providerId id, h]
      · rintro id' rfl
        rw [hknown, id_of_addLink h]
    · obtain ⟨rfl, rfl⟩ := Prod.mk.inj h
      exact .found rfl nofun
  · rename_i hemail
    rw [hemail] at hknown
    exact leaves_createOauthUser hknown h

end

/-! ## Creations -/

/-- A request that may create a record. An upsert of an id that does not exist is a creation. -/
inductive CreateRequest
  | record (route : Route) (req : RecordRequest) (opts : Options)
  | oauth2 (exchange : Except Text Row) (http : HttpRequest) (auth : Option TokenPayload)
      (payload : Row) (generated : Text)

namespace CreateRequest

/-- Who the client is signed in as. -/
def auth : CreateRequest → Option TokenPayload
  | record _ req _ => req.auth
  | oauth2 _ _ auth _ _ => auth

/-- What the client sends for the record. -/
def data : CreateRequest → Row
  | record _ req _ => req.data
  | oauth2 _ _ _ payload _ =>
    match (payload.get? "createData").getD (.obj []) with
    | .obj createData => createData
    | _ => []

/-- The context rules are evaluated in. -/
def context (w : Writer) (c : Collection) : CreateRequest → RequestContext
  | record route req _ => ruleContext w c .create route req
  | oauth2 _ http _ payload generated => loginContext ⟨http, payload, [], generated⟩

/-- The context in which `POST records` asks who may set managed fields. -/
def manageContext (w : Writer) (c : Collection) : CreateRequest → RequestContext
  | record route req _ => ruleContext w c .create route req
  | r@(oauth2 _ http auth _ _) => ruleContext w c .create .single { http, auth, data := r.data }

/-- The state after the request. -/
def after (w : Writer) (rt : Runtime) (pg : Pg) (s : Store) (c : Collection) :
    CreateRequest → Store
  | record route req opts =>
    match createHandler w rt pg s.db c route req opts with
    | .ok (db', _) => { s with db := db' }
    | .error _ => s
  | oauth2 exchange http _ payload generated =>
    (authWithOauth2 exchange w rt pg s c http payload generated).1

/-- What `POST records` checks passes for the row that client and provider describe, if the
request is a login. -/
def Checked (w : Writer) (rt : Runtime) (pg : Pg) (s : Store) (c : Collection) :
    CreateRequest → Prop
  | record _ _ _ => True
  | r@(oauth2 exchange _ _ _ generated) => ∀ info i d id, exchange = .ok info →
      createdId w (recordData c info r.data generated) = .ok i →
      createDraft w rt c i (recordData c info r.data generated) [] = .ok d →
      d.columns.get? "id" = some (.text id) →
      let db := s.db.insertRow c.name d.columns
      createAllowed rt pg db c id (r.context w c) (checkRule c.createRule false) = .ok () ∧
        createManaged rt pg db c id false (r.manageContext w c) r.data = .ok ()

end CreateRequest

section

variable {w : Writer} {rt : Runtime} {pg : Pg} {s : Store} {db : Db} {c : Collection} {id : Text}
  {ctx manageCtx : RequestContext} {data : Row}

/-- The state a login leaves is the one after the link. -/
theorem of_authWithOauth2 {exchange : Except Text Row} {http : HttpRequest} {payload : Row}
    {generated : Text} {s' : Store} {r : Except Refusal (Text × SignedToken)}
    (h : authWithOauth2 exchange w rt pg s c http payload generated = (s', r)) :
    (s' = s ∧ ∃ e, r = .error e) ∨
      ∃ info found, exchange = .ok info ∧ refusedAtOnce rt c payload = none ∧
        linkOrCreateOauthUser w rt s c ⟨http, payload, info, generated⟩ = (s', found) ∧
        ∀ x, r = .ok x → found = .ok x.1 ∧
          openSession rt pg s'.db c x.1 (loginContext ⟨http, payload, info, generated⟩) = .ok x.2 := by
  unfold authWithOauth2 at h
  split at h
  · obtain ⟨rfl, rfl⟩ := Prod.mk.inj h
    exact Or.inl ⟨rfl, _, rfl⟩
  rename_i haccepted
  split at h
  · obtain ⟨rfl, rfl⟩ := Prod.mk.inj h
    exact Or.inl ⟨rfl, _, rfl⟩
  rename_i info
  dsimp only at h
  split at h
  · rename_i s₁ e heq
    obtain ⟨rfl, rfl⟩ := Prod.mk.inj h
    exact Or.inr ⟨info, _, rfl, haccepted, heq, nofun⟩
  · rename_i s₁ id heq
    obtain ⟨rfl, rfl⟩ := Prod.mk.inj h
    refine Or.inr ⟨info, _, rfl, haccepted, heq, fun x hx => ?_⟩
    obtain ⟨t, ht, rfl⟩ := Failing.map_eq_ok.1 hx
    exact ⟨rfl, ht⟩

/-- A session is opened for a row. -/
theorem row_of_openSession {t : SignedToken} (h : openSession rt pg db c id ctx = .ok t) :
    ∃ row, db.rowById c.name id = some row := by
  unfold openSession at h
  split at h
  · cases h
  · cases h
  · have h := Failing.mapError_eq_ok.1 h
    unfold generateRecordAuthToken at h
    split at h
    · cases h
    · rename_i row hrow
      exact ⟨row, hrow⟩

/-- A login that makes a record and completes. -/
theorem authWithOauth2_of_makes {info : Row} {http : HttpRequest} {payload : Row}
    {generated : Text} {db' : Db} (hmakes : Makes w rt s c ⟨http, payload, info, generated⟩ db' id)
    (hcompletes : Completes rt pg { s with db := db' } c ⟨http, payload, info, generated⟩ id) :
    ∃ s' t, authWithOauth2 (.ok info) w rt pg s c http payload generated = (s', .ok (id, t)) ∧
      s'.db = db' := by
  obtain ⟨haccepted, hunknown, createData, columns, hdata, hcreate⟩ := hmakes
  obtain ⟨providerId, t, hinfo, hlinked, hopen⟩ := hcompletes
  obtain ⟨providerId', hinfo', hcreates⟩ := linkOrCreate_of_unknown (w := w) hunknown
  obtain rfl := Option.some.inj (hinfo.symm.trans hinfo')
  have hlink : linkOrCreateOauthUser w rt s c ⟨http, payload, info, generated⟩ =
      addLink { s with db := db' } c (Login.provider rt ⟨http, payload, info, generated⟩) providerId
        id := by
    rw [hcreates]
    unfold createOauthUser
    rw [hdata]
    dsimp only
    rw [hcreate]
  have hdb := db_addLink { s with db := db' } c (Login.provider rt ⟨http, payload, info, generated⟩)
    providerId id
  unfold authWithOauth2
  rw [haccepted]
  dsimp only
  rw [hlink]
  generalize addLink { s with db := db' } c (Login.provider rt ⟨http, payload, info, generated⟩)
    providerId id = x at hlinked hdb ⊢
  obtain ⟨s', r⟩ := x
  obtain rfl : r = .ok id := hlinked
  have hdb : s'.db = db' := hdb
  have hopen : openSession rt pg db' c id (loginContext ⟨http, payload, info, generated⟩) = .ok t :=
    hopen
  refine ⟨s', t, ?_, hdb⟩
  dsimp only
  rw [hdb, hopen]
  rfl

/-- A row that was not there before an insertion is the inserted one. -/
theorem new_row {columns : Row} (hnew : db.rowById c.name id = none)
    (hrow : ((db.insertRow c.name columns).rowById c.name id).isSome = true) :
    columns.get? "id" = some (.text id) := by
  obtain ⟨row, hrow⟩ := Option.isSome_iff_exists.1 hrow
  rcases Db.rowById_of_insertRow hrow with hold | ⟨-, -, hid⟩
  · rw [hnew] at hold
    cases hold
  · exact hid

end

/-- Members sign in with OAuth2. -/
def members (createRule : Option Text) : Collection where
  id := "members"
  name := "members"
  type := .auth
  createRule := createRule
  options := { authRule := some [], oauth2Enabled := true }

def memberColumns : List Text :=
  ["id", "created", "updated", "email", "email_visibility", "verified", "password_hash", "token_key"]

/-- No member yet. -/
def emptyStore (c : Collection) : Store := ⟨⟨[c], [(c.name, ⟨memberColumns, []⟩)]⟩, []⟩

end OAuth

end PPBase
