import PPBase.OAuth

/-!
# Runs over the accounts of a collection

The requests that write to an auth collection or give out credentials of its records, one after
another, in any order : creations and updates of records, logins with a password, a token or a
provider, and the mailed tokens with their confirmations. Beside the database, a state keeps
what was mailed and to whom, what shows that somebody has an address, and the credentials given
out. `get?_createDraft` and `updateDraft_credentials` say what a request can write to the
columns an auth collection has of its own.
-/

namespace PPBase

namespace Accounts

open Session AuthFlows RecordStore RecordApi OAuth

/-- The columns an auth collection has beside its fields. -/
def systemColumns : List Text :=
  ["id", "created", "updated", "email", "email_visibility", "verified", "password_hash", "token_key"]

/-- An auth collection that `create_collection_table` has made a table for. The database refuses two
columns of one name, so no field is named like a column of the system. `_superusers`, whose schema
lists its `email`, has another table. -/
structure AuthCollection extends Collection where
  isAuth : toCollection.type = .auth
  fields_ne : ∀ f ∈ toCollection.schema, f.name ∉ systemColumns

/-! ## The system columns of a write -/

section

variable {w : Writer} {rt : Runtime} {c : AuthCollection} {data row : Row}
  {files : Dict Text (List Upload)} {k : Text} {d d' : Draft} {id : Text}

theorem fieldMap_eq_none (hk : k ∈ systemColumns) : c.toCollection.fieldMap.get? k = none := by
  refine Dict.get?_foldl_set_of_notMem Field.name (fun f => f) c.schema [] fun h => ?_
  obtain ⟨f, hf, rfl⟩ := List.mem_map.1 h
  exact c.fields_ne f hf hk

/-- The fields of the schema leave the system columns alone. -/
theorem get?_fieldColumns {payload : Row} (hk : k ∈ systemColumns) :
    (c.schema.foldl (fieldColumn w c.toCollection payload) d).columns.get? k = d.columns.get? k := by
  have hne := c.fields_ne
  generalize c.schema = schema at hne
  induction schema generalizing d with
  | nil => rfl
  | cons f schema ih =>
    rw [List.foldl_cons, ih fun g hg => hne g (List.mem_cons_of_mem _ hg)]
    have hf : f.name ≠ k := fun h => hne f List.mem_cons_self (h ▸ hk)
    unfold fieldColumn
    split_ifs
    · split
      · exact Dict.get?_set_ne _ _ hf
      · rfl
    · rfl

/-- The system columns of a new record. -/
theorem get?_createDraft (h : createDraft w rt c.toCollection id data files = .ok d)
    (herrors : d.errors = []) :
    d.columns.get? "id" = some (.text id) ∧
      (∃ p, getKey data "password" = .text p ∧
        d.columns.get? "password_hash" = some (.text (w.hashPassword p)) ∧
        d.columns.get? "token_key" = some (.text w.tokenKey)) ∧
      (d.columns.get? "verified" = some (.bool true) →
        (getKey data "verified").truthy = true) := by
  unfold createDraft at h
  rw [if_pos c.isAuth] at h
  obtain ⟨d₁, hauth, rfl⟩ := Failing.map_eq_ok.1 h
  have herrors₁ := grows_uploadErrors.errors ((Draft.Grows.foldl (grows_fieldColumn _) _ _).errors herrors)
  have hcolumn : ∀ k ∈ systemColumns, (c.schema.foldl (fieldColumn w c.toCollection
      (createdPayload w c.toCollection files data)) (uploadErrors w c.toCollection files d₁)).columns.get? k =
        d₁.columns.get? k := by
    intro k hk
    rw [get?_fieldColumns hk, uploadErrors_columns]
  rw [hcolumn "id" (by decide), hcolumn "password_hash" (by decide), hcolumn "token_key" (by decide),
    hcolumn "verified" (by decide)]
  obtain ⟨d₂, hpassword, rfl⟩ := Failing.map_eq_ok.1 hauth
  have herrors₂ := grows_emailColumn.errors (grows_flagColumns.errors herrors₁)
  split_ifs at hpassword with hgiven
  · obtain ⟨p, hp, hhash, hkey⟩ := of_passwordColumns hpassword herrors₂
    refine ⟨?_, ⟨p, hp, ?_, ?_⟩, ?_⟩
    · rw [get?_flagColumns (by decide), emailColumn_other _ _ (by decide),
        passwordColumns_other hpassword (by decide)]
      rfl
    · rw [get?_flagColumns (by decide), emailColumn_other _ _ (by decide), hhash]
    · rw [get?_flagColumns (by decide), emailColumn_other _ _ (by decide), hkey]
    · unfold flagColumns
      split_ifs with hsuper
      · rw [emailColumn_other _ _ (by decide), passwordColumns_other hpassword (by decide)]
        rintro ⟨⟩
      · intro hverified
        have hset := (Dict.get?_set_self _ _ _).symm.trans hverified
        exact Value.bool.inj (Option.some.inj hset)
  · obtain rfl := Except.ok.inj hpassword
    exact absurd herrors₂ errors_addError

theorem spares_system {key : Text} (hk : k ∈ systemColumns) : Spares c.toCollection key k :=
  fun _ => fieldMap_eq_none hk

/-- An update leaves a system column alone that no key of the payload is for. -/
theorem updateDraft_system (h : updateDraft w rt c.toCollection row data files = .ok d)
    (hk : k ∈ systemColumns) (hupdated : k ≠ "updated") (hnone : NoAuthKey data k) :
    d.columns.get? k = none :=
  updateDraft_other h hupdated (fun _ => hnone) (fun _ _ _ _ => spares_system hk)
    fun _ _ => spares_system hk

/-- An update writes no password and no token key, or both. -/
theorem updateDraft_credentials (h : updateDraft w rt c.toCollection row data files = .ok d)
    (herrors : d.errors = []) :
    (d.columns.get? "password_hash" = none ∧ d.columns.get? "token_key" = none) ∨
      ∃ p, getKey data "password" = .text p ∧
        d.columns.get? "password_hash" = some (.text (w.hashPassword p)) ∧
        d.columns.get? "token_key" = some (.text w.tokenKey) := by
  have hfields : ∀ k ∈ systemColumns, ∃ d₁,
      authUpdates w rt c.toCollection data ⟨[("updated", .time w.now)], []⟩ = .ok d₁ ∧
        d.columns.get? k = d₁.columns.get? k ∧ (d.errors = [] → d₁.errors = []) := by
    intro k hk
    obtain ⟨d₁, h₁, hd₁⟩ := updateDraft_fields h (k := k) (fun _ _ _ _ => spares_system hk)
      fun _ _ => spares_system hk
    rw [if_pos c.isAuth] at h₁
    exact ⟨d₁, h₁, hd₁⟩
  by_cases hpassword : getKey data "password" = .null
  · have hnone : ∀ k ∈ (["password_hash", "token_key"] : List Text), NoAuthKey data k := by
      intro k hk
      rcases List.mem_pair.1 hk with rfl | rfl
      · exact ⟨fun _ => hpassword, fun h => absurd h (by decide), fun h => absurd h (by decide),
          fun h => absurd h (by decide)⟩
      · exact ⟨fun _ => hpassword, fun h => absurd h (by decide), fun h => absurd h (by decide),
          fun h => absurd h (by decide)⟩
    exact Or.inl ⟨updateDraft_system h (by decide) (by decide) (hnone _ (by decide)),
      updateDraft_system h (by decide) (by decide) (hnone _ (by decide))⟩
  · obtain ⟨d₁, h₁, hhash, herrors₁⟩ := hfields "password_hash" (by decide)
    obtain ⟨d₂, h₂, hkey, -⟩ := hfields "token_key" (by decide)
    obtain rfl := Except.ok.inj (h₁.symm.trans h₂)
    rw [hhash, hkey]
    exact Or.inr (authUpdates_credentials h₁ (herrors₁ herrors) hpassword)

end

/-! ## Signing in with a password or a session -/

/-- `_default_auth_with_password` : the record and its session. -/
def passwordLogin (rt : Runtime) (pg : Pg) (verify : Text → Text → Bool) (db : Db) (c : Collection)
    (http : HttpRequest) (payload : Row) : Option (Row × SignedToken) :=
  let text (key : Text) : Text := Response.strOrEmpty rt (payload.get? key)
  let identity := Text.strip (text "identity")
  if c.type ≠ .auth ∨ identity = [] ∨ text "password" = [] then none
  else
    match authWithPassword verify db c identity (text "password") (some (text "identityField")) with
    | .ok (some (row, t)) =>
      let ctx := { prepareRequestContext http none payload with context := "password" }
      if passes (passesAuthRule rt pg db c (Macros.idText rt (getKey row "id")) ctx) then some (row, t)
      else none
    | _ => none

/-- `_default_auth_refresh` : the record and its new session. -/
def sessionRefresh (rt : Runtime) (pg : Pg) (db : Db) (c : Collection) (http : HttpRequest)
    (t : SignedToken) : Option (Row × SignedToken) :=
  match verifyRecordAuthToken db c t with
  | .ok (some p) =>
    match authRefresh db c p with
    | .ok (some (row, t')) =>
      let ctx := prepareRequestContext http (some p) []
      if passes (passesAuthRule rt pg db c (Macros.idText rt (getKey row "id")) ctx) then
        some (row, t')
      else none
    | _ => none
  | _ => none

/-! ## States -/

/-- A mailed token : the address, the record it is for, and the token. -/
structure Mail where
  address : Text
  id : Value
  token : SignedToken

/-- What shows that somebody has an address. -/
inductive Evidence
  /-- The token of a mail was presented and taken. -/
  | mail (m : Mail)
  /-- A login for a record was completed whose provider reported the address. -/
  | login (id email : Text)

inductive Credential
  | password (p : Text)
  | session (t : SignedToken)
  /-- A token to reset the password. -/
  | reset (t : SignedToken)

/-- The database, and what has happened. -/
structure State where
  store : Store
  mailed : List Mail := []
  evidence : List Evidence := []
  obtained : List Credential := []
  /-- The credentials that were there when somebody else signed in to a record through a
  provider. -/
  stale : List (Text × Credential) := []

namespace State

def db (s : State) : Db := s.store.db

def withDb (s : State) (db : Db) : State := { s with store := { s.store with db := db } }

def obtain (s : State) (cs : List Credential) : State := { s with obtained := s.obtained ++ cs }

end State

/-! ## Requests -/

inductive Action
  | create (w : Writer) (route : Route) (req : RecordRequest) (opts : Options)
  | update (w : Writer) (id : Text) (route : Route) (req : RecordRequest) (opts : Options)
  | remove (id : Text)
  | oauth2 (w : Writer) (exchange : Except Text Row) (http : HttpRequest) (payload : Row)
      (generated : Text)
  | signIn (http : HttpRequest) (payload : Row)
  | refresh (http : HttpRequest) (t : SignedToken)
  /-- A session given out by another endpoint. -/
  | session (id : Text) (refreshable : Bool)
  | requestVerification (email : Text)
  /-- The token of a mail is presented, expired or not. -/
  | confirmVerification (mail : ℕ) (current : Bool)
  | requestPasswordReset (email : Text)
  | confirmPasswordReset (w : Writer) (t : SignedToken) (password passwordConfirm : Text)
  | requestEmailChange (id : Value) (newEmail : Text)
  | confirmEmailChange (w : Writer) (mail : ℕ) (current : Bool) (password : Text)
  /-- Whatever happens in other tables. -/
  | elsewhere (others : Dict Text Table)

/-- The password of a payload. -/
def givenPassword (data : Row) : List Credential :=
  match getKey data "password" with
  | .text p => [.password p]
  | _ => []

/-- The token of a mail, as it is presented. -/
def Mail.presented (m : Mail) (current : Bool) : SignedToken := { m.token with current := current }

/-- The mail of a token. -/
def mailOf (address : Text) (t : SignedToken) : Mail := ⟨address, (t.claims.get? "id").getD .null, t⟩

/-- The record has the email and was never verified. -/
def unproven (row : Row) (email : Text) : Bool :=
  row.get? "email" = some (.text email) && row.get? "verified" ≠ some (.bool true)

/-- What is stale once somebody has signed in to a record through a provider that reports an
email. -/
def staleAfter (s : State) (c : Collection) (id email : Text) : List (Text × Credential) :=
  match s.db.rowById c.name id with
  | some row => if unproven row email then s.obtained.map fun cr => (id, cr) else []
  | none => []

/-- A login, completed or not. -/
def afterLogin (rt : Runtime) (s : State) (c : Collection) (exchange : Except Text Row)
    (payload : Row) (store : Store) : Except Refusal (Text × SignedToken) → State
  | .error _ => State.obtain { s with store := store } (givenPassword (CreateRequest.data
      (.oauth2 exchange {} none payload [])))
  | .ok (id, t) =>
    let email := match exchange with
      | .ok info => reportedEmail rt info
      | .error _ => []
    State.obtain
      { s with
        store := store
        evidence := s.evidence ++ [.login id email]
        stale := s.stale ++ staleAfter s c id email }
      (givenPassword (CreateRequest.data (.oauth2 exchange {} none payload [])) ++ [.session t])

/-- The table of the collection, among others than before. -/
def withOthers (db : Db) (table : Text) (others : Dict Text Table) : Db :=
  ⟨db.collections, (db.tables.filter fun e => e.1 = table) ++ others.filter fun e => e.1 ≠ table⟩

/-- One request. One that is refused changes nothing, but for a login that fails late. -/
def step (rt : Runtime) (pg : Pg) (verify : Text → Text → Bool) (c : Collection) (s : State) :
    Action → State
  | .create w route req opts =>
    match createHandler w rt pg s.db c route req opts with
    | .ok (db', _) => (s.withDb db').obtain (givenPassword req.data)
    | .error _ => s
  | .update w id route req opts =>
    match updateHandler w rt pg s.db c id route req opts with
    | .ok (db', _) => (s.withDb db').obtain (givenPassword req.data)
    | .error _ => s
  | .remove id => s.withDb (s.db.deleteRow c.name id)
  | .oauth2 w exchange http payload generated =>
    let (store, r) := authWithOauth2 exchange w rt pg s.store c http payload generated
    afterLogin rt s c exchange payload store r
  | .signIn http payload =>
    match passwordLogin rt pg verify s.db c http payload with
    | some (_, t) =>
      s.obtain [.password (Response.strOrEmpty rt (payload.get? "password")), .session t]
    | none => s
  | .refresh http t =>
    match sessionRefresh rt pg s.db c http t with
    | some (_, t') => s.obtain [.session t']
    | none => s
  | .session id refreshable =>
    match (s.db.rowById c.name id).map fun row => createRecordAuthToken row c refreshable with
    | some (.ok t) => s.obtain [.session t]
    | _ => s
  | .requestVerification email =>
    match requestVerification s.db c email with
    | .ok (some t) => { s with mailed := s.mailed ++ [mailOf email t] }
    | _ => s
  | .confirmVerification mail current =>
    match s.mailed[mail]? with
    | none => s
    | some m =>
      match confirmVerification s.db c (m.presented current) with
      | .ok db' => { s.withDb db' with evidence := s.evidence ++ [.mail m] }
      | .error _ => s
  | .requestPasswordReset email =>
    match requestPasswordReset s.db c email with
    | .ok (some t) => s.obtain [.reset t]
    | _ => s
  | .confirmPasswordReset w t password passwordConfirm =>
    match confirmPasswordReset w s.db c t password passwordConfirm with
    | .ok db' => (s.withDb db').obtain [.password password]
    | .error _ => s
  | .requestEmailChange id newEmail =>
    match requestEmailChange s.db c id newEmail with
    | .ok t => { s with mailed := s.mailed ++ [mailOf (Text.strip newEmail) t] }
    | .error _ => s
  | .confirmEmailChange w mail current password =>
    match s.mailed[mail]? with
    | none => s
    | some m =>
      match confirmEmailChange w verify rt s.db c (m.presented current) password with
      | .ok db' => { s.withDb db' with evidence := s.evidence ++ [.mail m] }
      | .error _ => s
  | .elsewhere others => s.withDb (withOthers s.db c.name others)

/-- A login leaves the store of `auth_with_oauth2`. -/
theorem step_oauth2 (rt : Runtime) (pg : Pg) (verify : Text → Text → Bool) (c : Collection)
    (s : State) (w : Writer) (exchange : Except Text Row) (http : HttpRequest) (payload : Row)
    (generated : Text) : ∃ store r,
      authWithOauth2 exchange w rt pg s.store c http payload generated = (store, r) ∧
        step rt pg verify c s (.oauth2 w exchange http payload generated) =
          afterLogin rt s c exchange payload store r :=
  ⟨_, _, rfl, rfl⟩

theorem rows_withOthers {db : Db} {table : Text} {others : Dict Text Table} :
    (withOthers db table others).rows table = db.rows table := by
  have htable : (withOthers db table others).tables.get? table = db.tables.get? table := by
    obtain ⟨colls, tables⟩ := db
    unfold withOthers
    dsimp only
    induction tables with
    | nil =>
      rw [List.filter_nil, List.nil_append, Dict.get?_nil, Dict.get?_eq_none_iff]
      intro hmem
      obtain ⟨e, he, hname⟩ := List.mem_map.1 hmem
      exact absurd hname (by simpa using (List.mem_filter.1 he).2)
    | cons e tables ih =>
      obtain ⟨k, t⟩ := e
      rw [List.filter_cons]
      by_cases hk : k = table
      · rw [if_pos (decide_eq_true hk), List.cons_append, Dict.get?_cons, Dict.get?_cons, if_pos hk,
          if_pos hk]
      · rw [if_neg (by simpa using hk), Dict.get?_cons, if_neg hk]
        exact ih
  unfold Db.rows
  rw [htable]

/-- The columns a password reset writes. -/
theorem of_confirmPasswordReset {w : Writer} {db db' : Db} {c : Collection} {t : SignedToken}
    {password confirm : Text} (h : confirmPasswordReset w db c t password confirm = .ok db') :
    ∃ id row, tokenRecord db c t "passwordReset" .passwordResetToken = .ok (id, row) ∧
      db' = db.updateRow c.name id
        [("password_hash", .text (w.hashPassword password)), ("token_key", .text w.tokenKey)] := by
  unfold confirmPasswordReset at h
  split_ifs at h
  obtain ⟨⟨id, row⟩, hrecord, h⟩ := Failing.bind_eq_ok.1 h
  exact ⟨id, row, hrecord, (Except.ok.inj h).symm⟩

/-- The columns an email change writes. -/
theorem of_confirmEmailChange {w : Writer} {verify : Text → Text → Bool} {rt : Runtime} {db db' : Db}
    {c : Collection} {t : SignedToken} {password : Text}
    (h : confirmEmailChange w verify rt db c t password = .ok db') :
    ∃ id row, tokenRecord db c t "emailChange" .emailChangeToken = .ok (id, row) ∧
      db' = db.updateRow c.name id [("email", .text (newEmail rt t)), ("verified", .bool true),
        ("token_key", .text w.tokenKey)] := by
  obtain ⟨⟨id, row⟩, hrecord, h⟩ := Failing.bind_eq_ok.1 h
  dsimp only at h
  split_ifs at h
  exact ⟨id, row, hrecord, (Except.ok.inj h).symm⟩

/-- A run of requests, each of which meets a condition in the state it finds. -/
inductive Run (rt : Runtime) (pg : Pg) (verify : Text → Text → Bool) (c : Collection)
    (Meets : State → Action → Prop) (s : State) : State → Prop
  | start : Run rt pg verify c Meets s s
  | step {s' : State} {a : Action} (h : Run rt pg verify c Meets s s') (hmeets : Meets s' a) :
      Run rt pg verify c Meets s (step rt pg verify c s' a)

end Accounts

end PPBase
