import PPBase.RecordStore
import PPBase.Session

/-!
# The token flows of an auth collection

The tokens the server mints, and the calls that take them back. `confirm_verification`,
`confirm_password_reset` and `confirm_email_change` begin alike (`tokenRecord`) : the type
claim, the row the `id` claim names, the signature under that row's key, and the `email` claim
against the row. What each does then is its own.
-/

namespace PPBase

/-- The answer of a flow that does not go through : the errors it reports, or an exception. -/
inductive FlowError
  | rejected (errors : Dict Text FieldError)
  | failed (e : Session.SessionError)
  deriving DecidableEq

namespace FieldError

def invalidToken : FieldError := ⟨"validation_invalid_token", "Invalid or expired token."⟩

def invalidCredentials : FieldError :=
  ⟨"validation_invalid_credentials", "Invalid login credentials."⟩

end FieldError

namespace AuthFlows

open Session

/-! ## Rows -/

/-- `_get_raw_record_by_id` -/
def rawRecordById (db : Db) (c : Collection) (id : Value) : Except SessionError (Option Row) :=
  match db.tables.get? c.name with
  | none => .error .query
  | some _ => (textParam id).map (db.rowById c.name)

/-- `_get_raw_record_by_field` -/
def rawRecordByField (db : Db) (c : Collection) (field value : Text) : Option Row :=
  (db.rows c.name).find? fun r => r.get? field = some (.text value)

/-- `row.get("token_key", "")` -/
def rowTokenKey (row : Row) : Value := (row.get? "token_key").getD (.text [])

/-- `row.get("token_key", "") + secret` -/
def rowKey (c : Collection) (row : Row) (type : TokenType) : Except SessionError Text :=
  signingKey (some (rowTokenKey row)) (tokenSecret c type)

/-! ## Minting -/

/-- `create_token` : the token until it expires. -/
def createToken (claims : TokenPayload) (key : Text) : SignedToken := ⟨claims, some key, true⟩

/-- `create_record_auth_token` -/
def createRecordAuthToken (row : Row) (c : Collection) (refreshable : Bool) :
    Except SessionError SignedToken :=
  (signingKey (row.get? "token_key") (tokenSecret c .authToken)).map <|
    createToken [("id", (row.get? "id").getD .null), ("type", .text "authRecord"),
      ("collectionId", .text c.id), ("refreshable", .bool refreshable)]

/-- `create_verification_token` -/
def createVerificationToken (recordId collectionId email : Value) (key : Text) : SignedToken :=
  createToken [("id", recordId), ("collectionId", collectionId), ("email", email),
    ("type", .text "verification")] key

/-- `create_password_reset_token` -/
def createPasswordResetToken (recordId collectionId email : Value) (key : Text) : SignedToken :=
  createToken [("id", recordId), ("collectionId", collectionId), ("email", email),
    ("type", .text "passwordReset")] key

/-- `create_email_change_token` -/
def createEmailChangeToken (recordId collectionId email newEmail : Value) (key : Text) :
    SignedToken :=
  createToken [("id", recordId), ("collectionId", collectionId), ("email", email),
    ("newEmail", newEmail), ("type", .text "emailChange")] key

/-! ## Requests : the token that is mailed, if one is -/

/-- `request_verification` -/
def requestVerification (db : Db) (c : Collection) (email : Text) :
    Except SessionError (Option SignedToken) :=
  match rawRecordByField db c "email" email with
  | none => .ok none
  | some row =>
    if ((row.get? "verified").getD (.bool false)).truthy then .ok none
    else (rowKey c row .verificationToken).map fun key =>
      some (createVerificationToken ((row.get? "id").getD .null) (.text c.id) (.text email) key)

/-- `request_password_reset` -/
def requestPasswordReset (db : Db) (c : Collection) (email : Text) :
    Except SessionError (Option SignedToken) :=
  match rawRecordByField db c "email" email with
  | none => .ok none
  | some row => (rowKey c row .passwordResetToken).map fun key =>
      some (createPasswordResetToken ((row.get? "id").getD .null) (.text c.id) (.text email) key)

/-- Another record than this one has the email. -/
def emailInUse (db : Db) (c : Collection) (id : Value) (email : Text) : Bool :=
  match rawRecordByField db c "email" email with
  | none => false
  | some dup => (dup.get? "id").getD .null ≠ id

/-- `request_email_change`, once the row of the signed-in record is read. -/
def emailChangeToken (db : Db) (c : Collection) (id : Value) (row : Row) (newEmail : Text) :
    Except FlowError SignedToken :=
  let email := Text.strip newEmail
  if email = [] then .error (.rejected [("newEmail", .required)])
  else if isEmail email = false then .error (.rejected [("newEmail", .invalidEmail)])
  else if emailInUse db c id email then .error (.rejected [("newEmail", .notUnique)])
  else (rowKey c row .emailChangeToken).mapError .failed |>.map <|
    createEmailChangeToken ((row.get? "id").getD .null) (.text c.id)
      ((row.get? "email").getD (.text [])) (.text email)

/-- `request_email_change` -/
def requestEmailChange (db : Db) (c : Collection) (id : Value) (newEmail : Text) :
    Except FlowError SignedToken := do
  match ← (rawRecordById db c id).mapError .failed with
  | none => .error (.rejected [("auth", .invalidToken)])
  | some row => emailChangeToken db c id row newEmail

/-! ## Confirmations -/

/-- `verify_purpose_token` -/
def verifyPurposeToken (t : SignedToken) (key type : Text) : Option TokenPayload :=
  match t.decode key with
  | none => none
  | some p => if p.get? "type" = some (.text type) then some p else none

/-- The refusal of a token. -/
def tokenRefused : FlowError := .rejected [("token", .invalidToken)]

/-- The signature of a token under the key of the row it names, and the email it was made for. -/
def rowAcceptsToken (c : Collection) (t : SignedToken) (type : Text) (secret : TokenType)
    (row : Row) : Except FlowError TokenPayload := do
  let key ← (rowKey c row secret).mapError .failed
  match verifyPurposeToken t key type with
  | none => .error tokenRefused
  | some p =>
    if (p.get? "email").getD .null = (row.get? "email").getD .null then .ok p
    else .error tokenRefused

/-- What the three confirmations begin with : the id and the row a token stands for. -/
def tokenRecord (db : Db) (c : Collection) (t : SignedToken) (type : Text) (secret : TokenType) :
    Except FlowError (Text × Row) :=
  let id := (t.claims.get? "id").getD .null
  if t.claims.get? "type" ≠ some (.text type) then .error tokenRefused
  else if id.truthy = false then .error tokenRefused
  else do
    match ← (rawRecordById db c id).mapError .failed with
    | none => .error tokenRefused
    | some row =>
      let _ ← rowAcceptsToken c t type secret row
      return (← (textParam id).mapError .failed, row)

/-- `confirm_verification`. It answers only whether the token was accepted. -/
def confirmVerification (db : Db) (c : Collection) (t : SignedToken) : Except FlowError Db := do
  let (id, _) ← tokenRecord db c t "verification" .verificationToken
  return db.updateRow c.name id [("verified", .bool true)]

/-- `confirm_password_reset` -/
def confirmPasswordReset (w : Writer) (db : Db) (c : Collection) (t : SignedToken)
    (password passwordConfirm : Text) : Except FlowError Db :=
  if password ≠ passwordConfirm then .error (.rejected [("passwordConfirm", .mismatch)])
  else if password.length < 8 then .error (.rejected [("password", .passwordLength)])
  else do
    let (id, _) ← tokenRecord db c t "passwordReset" .passwordResetToken
    return db.updateRow c.name id
      [("password_hash", .text (w.hashPassword password)), ("token_key", .text w.tokenKey)]

/-- `not pw_hash or not verify_password(password, pw_hash)`, the other way round. -/
def passwordMatches (verify : Text → Text → Bool) (row : Row) (password : Text) : Bool :=
  match row.get? "password_hash" with
  | some (.text h) => h ≠ [] && verify password h
  | _ => false

/-- The address an email change token is for. -/
def newEmail (rt : Runtime) (t : SignedToken) : Text :=
  Text.strip (Macros.idText rt ((t.claims.get? "newEmail").getD (.text [])))

/-- `confirm_email_change` -/
def confirmEmailChange (w : Writer) (verify : Text → Text → Bool) (rt : Runtime) (db : Db)
    (c : Collection) (t : SignedToken) (password : Text) : Except FlowError Db := do
  let (id, row) ← tokenRecord db c t "emailChange" .emailChangeToken
  let email := newEmail rt t
  if email = [] ∨ isEmail email = false then .error tokenRefused
  else if passwordMatches verify row password = false then
    .error (.rejected [("password", .invalidCredentials)])
  else if emailInUse db c (.text id) email then .error (.rejected [("newEmail", .notUnique)])
  else .ok (db.updateRow c.name id
    [("email", .text email), ("verified", .bool true), ("token_key", .text w.tokenKey)])

/-! ## Signing in -/

/-- `create_admin_token`, for a row of `_superusers`. -/
def createAdminToken (row : Row) (c : Collection) : Except SessionError SignedToken :=
  (rowKey c row .authToken).map <|
    createToken [("id", (row.get? "id").getD (.text [])), ("type", .text "admin")]

/-- The session of a record that signs in. -/
def signInToken (row : Row) (c : Collection) : Except SessionError SignedToken :=
  if c.name = "_superusers".toList then createAdminToken row c else createRecordAuthToken row c true

/-- The field a record is looked up by, if the collection allows it. -/
def identityField (c : Collection) (given : Option Text) : Option Text :=
  let fields : List Text :=
    if c.options.identityFields = [] then ["email"] else c.options.identityFields
  let field := (given.filter (· ≠ [])).getD (fields.headD [])
  let word := field.filter (· ≠ '_')
  if field ∈ fields ∧ word ≠ [] ∧ word.all Char.isAlphanum then some field else none

/-- `auth_with_password` : the row and its session. -/
def authWithPassword (verify : Text → Text → Bool) (db : Db) (c : Collection)
    (identity password : Text) (given : Option Text) :
    Except SessionError (Option (Row × SignedToken)) :=
  if c.options.passwordAuthEnabled = false then .ok none
  else
    match (identityField c given).bind fun field => rawRecordByField db c field identity with
    | none => .ok none
    | some row =>
      if passwordMatches verify row password then
        (signInToken row c).map fun t => some (row, t)
      else .ok none

/-- `auth_refresh` -/
def authRefresh (db : Db) (c : Collection) (p : TokenPayload) :
    Except SessionError (Option (Row × SignedToken)) :=
  let id := (p.get? "id").getD .null
  if p.get? "refreshable" = some (.bool false) then .ok none
  else if id.truthy = false then .ok none
  else do
    match ← rawRecordById db c id with
    | none => return none
    | some row => return some (row, ← signInToken row c)

/-- `verify_record_auth_token`, once the claims are read : the types a collection takes. -/
def takesType (c : Collection) (type : Option Value) : Bool :=
  type = some (.text "authRecord") || c.name = "_superusers".toList && type = some (.text "admin")

/-- `verify_record_auth_token` -/
def verifyRecordAuthToken (db : Db) (c : Collection) (t : SignedToken) :
    Except SessionError (Option TokenPayload) :=
  let type := normalizeType (t.claims.get? "type")
  let id := (t.claims.get? "id").getD .null
  if takesType c type = false then .ok none
  else if t.claims.get? "collectionId" ≠ some (.text c.id) then .ok none
  else if id.truthy = false then .ok none
  else do
    match ← rawRecordById db c id with
    | none => return none
    | some row =>
      let key ← rowKey c row .authToken
      return (t.decode key).map fun p =>
        if p.get? "type" = some (.text "admin") then p
        else p.set "type" (type.getD .null)

/-! ## When they succeed -/

section

variable {db : Db} {c : Collection} {t : SignedToken} {row : Row} {id : Text}

theorem table_of_rowById (h : db.rowById c.name id = some row) : ∃ tbl, db.tables.get? c.name = some tbl := by
  unfold Db.rowById Db.rows at h
  cases htbl : db.tables.get? c.name with
  | none =>
    rw [htbl] at h
    cases h
  | some tbl => exact ⟨tbl, rfl⟩

theorem rawRecordById_eq_ok {v : Value} : rawRecordById db c v = .ok (some row) ↔
    ∃ id, v = .text id ∧ db.rowById c.name id = some row := by
  unfold rawRecordById
  constructor
  · intro h
    split at h
    · cases h
    · obtain ⟨id, hid, hrow⟩ := Failing.map_eq_ok.1 h
      exact ⟨id, textParam_eq_ok.1 hid, hrow⟩
  · rintro ⟨id, rfl, hrow⟩
    obtain ⟨tbl, htbl⟩ := table_of_rowById hrow
    rw [htbl]
    exact Failing.map_eq_ok.2 ⟨id, rfl, hrow⟩

theorem rowKey_eq_ok {type : TokenType} {key : Text} : rowKey c row type = .ok key ↔
    ∃ k, rowTokenKey row = .text k ∧ key = k ++ tokenSecret c type := by
  unfold rowKey
  rw [signingKey_eq_ok]
  simp only [Option.some.injEq]

/-- The key of the row, for tokens of this type, is the token's. -/
def SignedByRow (c : Collection) (row : Row) (type : TokenType) (t : SignedToken) : Prop :=
  ∃ k, rowTokenKey row = .text k ∧ t.key = some (k ++ tokenSecret c type)

theorem decode_rowKey {type : TokenType} {key : Text} {p : TokenPayload}
    (hkey : rowKey c row type = .ok key) :
    t.decode key = some p ↔ SignedByRow c row type t ∧ t.current = true ∧ t.claims = p := by
  obtain ⟨k, hk, rfl⟩ := rowKey_eq_ok.1 hkey
  rw [decode_eq_some]
  constructor
  · rintro ⟨hsigned, hcur, hp⟩
    exact ⟨⟨k, hk, hsigned⟩, hcur, hp⟩
  · rintro ⟨⟨k', hk', hsigned⟩, hcur, hp⟩
    obtain rfl : k = k' := Value.text.inj (hk.symm.trans hk')
    exact ⟨hsigned, hcur, hp⟩

theorem rowKey_of_signed {type : TokenType} (h : SignedByRow c row type t) :
    ∃ key, rowKey c row type = .ok key := by
  obtain ⟨k, hk, -⟩ := h
  exact ⟨_, rowKey_eq_ok.2 ⟨k, hk, rfl⟩⟩

theorem rowAcceptsToken_eq_ok {type : Text} {secret : TokenType} {p : TokenPayload}
    (htype : t.claims.get? "type" = some (.text type)) :
    rowAcceptsToken c t type secret row = .ok p ↔
      SignedByRow c row secret t ∧ t.current = true ∧ t.claims = p ∧
        (t.claims.get? "email").getD .null = (row.get? "email").getD .null := by
  unfold rowAcceptsToken
  rw [Failing.bind_eq_ok]
  constructor
  · rintro ⟨key, hkey, h⟩
    have hkey := Failing.mapError_eq_ok.1 hkey
    unfold verifyPurposeToken at h
    cases hd : t.decode key with
    | none =>
      rw [hd] at h
      cases h
    | some q =>
      obtain ⟨hsigned, hcur, rfl⟩ := (decode_rowKey hkey).1 hd
      rw [hd] at h
      dsimp only at h
      rw [if_pos htype] at h
      dsimp only at h
      split_ifs at h with hemail
      exact ⟨hsigned, hcur, Except.ok.inj h, hemail⟩
  · rintro ⟨hsigned, hcur, rfl, hemail⟩
    obtain ⟨key, hkey⟩ := rowKey_of_signed hsigned
    refine ⟨key, Failing.mapError_eq_ok.2 hkey, ?_⟩
    unfold verifyPurposeToken
    rw [(decode_rowKey hkey).2 ⟨hsigned, hcur, rfl⟩]
    dsimp only
    rw [if_pos htype]
    dsimp only
    rw [if_pos hemail]

/-- A claim that is a text. -/
theorem claim_eq_text {o : Option Value} {s : Text} : o.getD .null = .text s ↔ o = some (.text s) := by
  cases o with
  | none => exact ⟨Value.noConfusion, fun h => Option.noConfusion rfl (heq_of_eq h)⟩
  | some v => exact ⟨fun h => congrArg some h, fun h => Option.some.inj h⟩

theorem truthy_text {s : Text} : (Value.text s).truthy = false ↔ s = [] := by
  simp [Value.truthy]

/-- When a token is taken for a row. -/
theorem tokenRecord_eq_ok {type : Text} {secret : TokenType} :
    tokenRecord db c t type secret = .ok (id, row) ↔
      t.claims.get? "type" = some (.text type) ∧ t.claims.get? "id" = some (.text id) ∧ id ≠ [] ∧
        db.rowById c.name id = some row ∧ SignedByRow c row secret t ∧ t.current = true ∧
          (t.claims.get? "email").getD .null = (row.get? "email").getD .null := by
  unfold tokenRecord
  dsimp only
  constructor
  · intro h
    split_ifs at h with htype hid
    have htype := not_not.1 htype
    obtain ⟨row?, hrow?, h⟩ := Failing.bind_eq_ok.1 h
    have hrow? := Failing.mapError_eq_ok.1 hrow?
    cases row? with
    | none => cases h
    | some row' =>
      obtain ⟨i, hi, hrow⟩ := rawRecordById_eq_ok.1 hrow?
      obtain ⟨p, hp, h⟩ := Failing.bind_eq_ok.1 h
      obtain ⟨j, hj, h⟩ := Failing.bind_eq_ok.1 h
      have hj := textParam_eq_ok.1 (Failing.mapError_eq_ok.1 hj)
      obtain ⟨rfl, rfl⟩ := Prod.mk.inj (Except.ok.inj h)
      obtain rfl : i = j := Value.text.inj (hi.symm.trans hj)
      obtain ⟨hsigned, hcur, -, hemail⟩ := (rowAcceptsToken_eq_ok htype).1 hp
      refine ⟨htype, claim_eq_text.1 hi, ?_, hrow, hsigned, hcur, hemail⟩
      rw [hi, truthy_text] at hid
      exact hid
  · rintro ⟨htype, hid, hne, hrow, hsigned, hcur, hemail⟩
    have hclaim := claim_eq_text.2 hid
    rw [if_neg (not_not.2 htype), hclaim, if_neg (mt truthy_text.1 hne),
      rawRecordById_eq_ok.2 ⟨id, rfl, hrow⟩]
    have haccept := (rowAcceptsToken_eq_ok htype).2 ⟨hsigned, hcur, rfl, hemail⟩
    show (rowAcceptsToken c t type secret row >>= _) = _
    rw [haccept]
    rfl

/-- When a session is taken for a row of the collection. -/
theorem verifyRecordAuthToken_accepts :
    (∃ p, verifyRecordAuthToken db c t = .ok (some p)) ↔
      takesType c (normalizeType (t.claims.get? "type")) = true ∧
        t.claims.get? "collectionId" = some (.text c.id) ∧
        ∃ id row, t.claims.get? "id" = some (.text id) ∧ id ≠ [] ∧
          db.rowById c.name id = some row ∧ SignedByRow c row .authToken t ∧ t.current = true := by
  unfold verifyRecordAuthToken
  dsimp only
  constructor
  · rintro ⟨p, h⟩
    split_ifs at h with htype hcoll hid
    · cases h
    · cases h
    · cases h
    · obtain ⟨row?, hrow?, h⟩ := Failing.bind_eq_ok.1 h
      cases row? with
      | none => cases h
      | some row =>
        obtain ⟨id, hclaim, hrow⟩ := rawRecordById_eq_ok.1 hrow?
        obtain ⟨key, hkey, h⟩ := Failing.bind_eq_ok.1 h
        obtain ⟨q, hq, -⟩ := Option.map_eq_some_iff.1 (Except.ok.inj h)
        obtain ⟨hsigned, hcur, -⟩ := (decode_rowKey hkey).1 hq
        rw [hclaim, truthy_text] at hid
        exact ⟨Bool.not_eq_false _ ▸ htype, not_not.1 hcoll, id, row, claim_eq_text.1 hclaim, hid,
          hrow, hsigned, hcur⟩
  · rintro ⟨htype, hcoll, id, row, hid, hne, hrow, hsigned, hcur⟩
    obtain ⟨key, hkey⟩ := rowKey_of_signed hsigned
    have hdecode := (decode_rowKey hkey).2 ⟨hsigned, hcur, rfl⟩
    rw [if_neg (by rw [htype]; decide), if_neg (not_not.2 hcoll), claim_eq_text.2 hid,
      if_neg (mt truthy_text.1 hne), rawRecordById_eq_ok.2 ⟨id, rfl, hrow⟩]
    simp only [Failing.ok_bind, hkey, hdecode, Option.map_some]
    exact ⟨_, rfl⟩

end

end AuthFlows

end PPBase
