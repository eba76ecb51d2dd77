import PPBase.Accounts
import PPBase.OneTime

/-!
# Sessions from a login to the next request

A login gives out a session, and `get_optional_auth`, `require_admin` and `auth-refresh` take
it back. What is minted is one of two things : an admin's token, that names no collection, or
a record's token, that names one by its id. `verify_record_auth_token` wants the id of the
collection of both, and `require_admin` wants the name of the collection of a record's token,
which no token has. `round_trips_iff` : a session is good for all three exactly if its
collection is not `_superusers`, and an impersonation token is always good for the first and
never for the last.
-/

namespace PPBase

namespace RoundTrip

open Session AuthFlows OAuth OneTime

/-- The collection is `_superusers`. -/
def IsSuperusers (c : Collection) : Prop := c.name = "_superusers".toList

instance (c : Collection) : Decidable (IsSuperusers c) := inferInstanceAs (Decidable (_ = _))

/-- `require_admin` : the identity, or the answer. -/
def requireAdmin (auth : Option TokenPayload) : Except ErrorResponse TokenPayload :=
  let refused : ErrorResponse :=
    ⟨401, "The request requires admin authorization token to be set.", []⟩
  match auth with
  | none => .error refused
  | some p =>
    if p.get? "type" = some (.text "admin") then .ok p
    else if p.get? "type" = some (.text "authRecord") ∧
        (p.get? "collectionName").getD (.text []) = .text "_superusers" then .ok p
    else .error refused

/-- `auth_with_otp` : what it leaves, and the row with its session. -/
def authWithOtp (sv : Server) (db : Db) (c : Collection) (otpId password : Text) (now : Int) :
    Db × Except SessionError (Option (Row × SignedToken)) :=
  match otpRow db c otpId with
  | none => (db, .ok none)
  | some otp =>
    if otpExpired sv c now otp then (db.deleteRow "_otps" otpId, .ok none)
    else if otpMatches sv otp password then
      match rawRecordById db c ((otp.get? "recordRef").getD (.text [])) with
      | .ok (some row) =>
        (db.deleteRow "_otps" otpId, (createRecordAuthToken row c true).map fun t => some (row, t))
      | .ok none => (db, .ok none)
      | .error e => (db, .error e)
    else (db, .ok none)

/-- The statements of a call of `auth_with_otp` with no other between them. -/
def otpAlone (sv : Server) (c : Collection) (otpId password : Text) (now : Int) :
    ℕ → Db × Phase → Db × Phase
  | 0, s => s
  | n + 1, (db, phase) =>
    match nextOtp sv db c otpId password now phase with
    | none => (db, phase)
    | some s => otpAlone sv c otpId password now n s

/-- The call ends with a session. -/
def signedIn : Except SessionError (Option (Row × SignedToken)) → Bool
  | .ok (some _) => true
  | _ => false

theorem otpAlone_succ {sv : Server} {db : Db} {c : Collection} {otpId password : Text} {now : Int}
    {phase : Phase} {s : Db × Phase} (n : ℕ)
    (h : nextOtp sv db c otpId password now phase = some s) :
    otpAlone sv c otpId password now (n + 1) (db, phase) = otpAlone sv c otpId password now n s := by
  unfold otpAlone
  rw [h]
  cases n <;> rfl

theorem otpAlone_ended (sv : Server) (db : Db) (c : Collection) (otpId password : Text) (now : Int)
    (n : ℕ) (ok : Bool) :
    otpAlone sv c otpId password now n (db, .ended ok) = (db, .ended ok) := by
  cases n <;> rfl

/-- With no other call in between, the statements are `auth_with_otp`. -/
theorem otpAlone_eq (sv : Server) (db : Db) (c : Collection) (otpId password : Text) (now : Int) :
    otpAlone sv c otpId password now 3 (db, .begun) =
      ((authWithOtp sv db c otpId password now).1,
        .ended (signedIn (authWithOtp sv db c otpId password now).2)) := by
  rw [otpAlone_succ 2 rfl]
  unfold authWithOtp
  cases hotp : otpRow db c otpId with
  | none => exact otpAlone_ended ..
  | some otp =>
    dsimp only
    by_cases hexpired : otpExpired sv c now otp = true
    · rw [if_pos hexpired, if_pos hexpired, otpAlone_succ 1 rfl]
      exact otpAlone_ended ..
    rw [if_neg hexpired, if_neg hexpired]
    by_cases hmatches : otpMatches sv otp password = true
    · rw [if_pos hmatches, if_pos hmatches, otpAlone_succ 1 rfl]
      cases hraw : rawRecordById db c ((otp.get? "recordRef").getD (.text [])) with
      | error e => exact otpAlone_ended ..
      | ok row? =>
        cases row? with
        | none => exact otpAlone_ended ..
        | some row =>
          dsimp only
          rw [otpAlone_succ 0 rfl, otpAlone_ended]
          cases createRecordAuthToken row c true <;> rfl
    · rw [if_neg hmatches, if_neg hmatches]
      exact otpAlone_ended ..

/-- `impersonate_auth_record` -/
def impersonateAuthRecord (db : Db) (c : Collection) (id : Text) :
    Except SessionError (Option (Row × SignedToken)) := do
  match ← rawRecordById db c (.text id) with
  | none => return none
  | some row =>
    if IsSuperusers c then
      let unverified := (← createAdminToken row c).claims
      let key ← rowKey c row .authToken
      return some (row, createToken (unverified.set "refreshable" (.bool false)) key)
    else return some (row, ← createRecordAuthToken row c false)

/-! ## Sessions -/

/-- An auth collection of the database : it is found by its id, and each of its rows by the
row's id and has a key. -/
structure Serves (db : Db) (c : Collection) : Prop where
  auth : c.type = .auth
  id_ne : c.id ≠ []
  found : collectionById db c.id = some c
  superusers : IsSuperusers c →
    (db.collections.find? fun c' => c'.name = "_superusers".toList) = some c
  table : ∃ tbl, db.tables.get? c.name = some tbl ∧ "token_key".toList ∈ tbl.columns
  rows : ∀ row ∈ db.rows c.name, ∃ id k, id ≠ [] ∧ row.get? "id" = some (.text id) ∧
    row.get? "token_key" = some (.text k) ∧ db.rowById c.name id = some row

/-- The record has this key. -/
def HasKey (db : Db) (c : Collection) (id k : Text) : Prop :=
  ∃ row, db.rowById c.name id = some row ∧ row.get? "token_key" = some (.text k)

/-- A later state, in which the collection has its secret and the record its key still. -/
structure Continues (db : Db) (c : Collection) (id : Text) (db' : Db) (c' : Collection) : Prop where
  serves : Serves db' c'
  same : c'.id = c.id
  superusers : IsSuperusers c' ↔ IsSuperusers c
  secret : tokenSecret c' .authToken = tokenSecret c .authToken
  key : ∃ k, HasKey db c id k ∧ HasKey db' c' id k

/-- A login returns the token for the record. -/
inductive Issues (db : Db) (c : Collection) (id : Text) (t : SignedToken) : Prop
  | password {verify : Text → Text → Bool} {identity password : Text} {given : Option Text}
      {row : Row} (h : authWithPassword verify db c identity password given = .ok (some (row, t)))
      (hid : row.get? "id" = some (.text id)) : Issues db c id t
  | otp {sv : Server} {otpId password : Text} {now : Int} {db' : Db} {row : Row}
      (h : authWithOtp sv db c otpId password now = (db', .ok (some (row, t))))
      (hid : row.get? "id" = some (.text id)) : Issues db c id t
  | oauth2 {exchange : Except Text Row} {w : Writer} {rt : Runtime} {pg : Pg} {s s' : Store}
      {http : HttpRequest} {payload : Row} {generated : Text}
      (h : authWithOauth2 exchange w rt pg s c http payload generated = (s', .ok (id, t)))
      (hdb : s'.db = db) : Issues db c id t
  | refresh {p : TokenPayload} {row : Row} (h : authRefresh db c p = .ok (some (row, t)))
      (hid : row.get? "id" = some (.text id)) : Issues db c id t

/-- The identity of a record. -/
def IdentityOf (c : Collection) (id : Text) (p : TokenPayload) : Prop :=
  p.get? "id" = some (.text id) ∧
    (p.get? "type" = some (.text "admin") ∧ IsSuperusers c ∨
      p.get? "type" = some (.text "authRecord") ∧ p.get? "collectionId" = some (.text c.id))

/-- From now on the token is taken for its record, which is a superuser if it is one of
`_superusers`. -/
def Identified (settingsSecret : Text) (db : Db) (c : Collection) (id : Text) (t : SignedToken) :
    Prop :=
  ∀ db' c', Continues db c id db' c' → ∀ read header text, bearerToken header = some text →
    read text = some t → ∃ p, getOptionalAuth read settingsSecret db' header = .ok (some p) ∧
      IdentityOf c' id p ∧ ((requireAdmin (some p)).isOk = true ↔ IsSuperusers c')

/-- And it is exchanged for a new one of the record. -/
def Refreshed (db : Db) (c : Collection) (id : Text) (t : SignedToken) : Prop :=
  ∀ db' c', Continues db c id db' c' → ∃ p row t', verifyRecordAuthToken db' c' t = .ok (some p) ∧
    authRefresh db' c' p = .ok (some (row, t')) ∧ Issues db' c' id t'

/-- What a session is good for. -/
structure RoundTrips (settingsSecret : Text) (db : Db) (c : Collection) (id : Text)
    (t : SignedToken) : Prop where
  identified : Identified settingsSecret db c id t
  refreshed : Refreshed db c id t

/-! ## What is minted -/

/-- A token for a record, signed with its key. -/
structure TokenOf (c : Collection) (id k : Text) (t : SignedToken) : Prop where
  signed : t.key = some (k ++ tokenSecret c .authToken)
  current : t.current = true
  id : t.claims.get? "id" = some (.text id)

/-- The claims of `create_admin_token`. -/
structure AdminClaims (c : Collection) (claims : TokenPayload) : Prop where
  superusers : IsSuperusers c
  type : claims.get? "type" = some (.text "admin")
  collectionId : claims.get? "collectionId" = none

/-- The claims of `create_record_auth_token`. -/
structure RecordClaims (c : Collection) (claims : TokenPayload) : Prop where
  type : claims.get? "type" = some (.text "authRecord")
  collectionId : claims.get? "collectionId" = some (.text c.id)
  collectionName : claims.get? "collectionName" = none

section

variable {settingsSecret : Text} {db db' : Db} {c c' : Collection} {id k : Text} {t : SignedToken}
  {row : Row} {p : TokenPayload}

/-- A row of the collection has an id and a key. -/
theorem Serves.hasKey (h : Serves db c) (hrow : db.rowById c.name id = some row) :
    ∃ k, id ≠ [] ∧ row.get? "token_key" = some (.text k) ∧ HasKey db c id k := by
  have hid : row.get? "id" = some (.text id) := by simpa using List.find?_some hrow
  obtain ⟨id', k, hne, hid', hk, -⟩ := h.rows row (List.mem_of_find?_eq_some hrow)
  obtain rfl : id = id' := Value.text.inj (Option.some.inj (hid.symm.trans hid'))
  exact ⟨k, hne, hk, row, hrow, hk⟩

theorem HasKey.unique {k' : Text} (h : HasKey db c id k) (h' : HasKey db c id k') : k = k' := by
  obtain ⟨row, hrow, hk⟩ := h
  obtain ⟨row', hrow', hk'⟩ := h'
  obtain rfl := Option.some.inj (hrow.symm.trans hrow')
  exact Value.text.inj (Option.some.inj (hk.symm.trans hk'))

theorem Continues.refl (h : Serves db c) (hkey : HasKey db c id k) : Continues db c id db c :=
  ⟨h, rfl, Iff.rfl, rfl, k, hkey, hkey⟩

/-- The token is still signed with the record's key. -/
theorem TokenOf.continues (h : TokenOf c id k t) (hkey : HasKey db c id k)
    (hc : Continues db c id db' c') : HasKey db' c' id k ∧ TokenOf c' id k t := by
  obtain ⟨k', hold, hnew⟩ := hc.key
  obtain rfl := hkey.unique hold
  exact ⟨hnew, by rw [hc.secret]; exact h.signed, h.current, h.id⟩

theorem signedByRow_of_tokenOf (h : TokenOf c id k t) (hk : row.get? "token_key" = some (.text k)) :
    SignedByRow c row .authToken t :=
  ⟨k, by unfold rowTokenKey; rw [hk]; rfl, h.signed⟩

theorem rowKey_of_key (hk : row.get? "token_key" = some (.text k)) :
    rowKey c row .authToken = .ok (k ++ tokenSecret c .authToken) :=
  rowKey_eq_ok.2 ⟨k, by unfold rowTokenKey; rw [hk]; rfl, rfl⟩

theorem createAdminToken_eq (hid : row.get? "id" = some (.text id))
    (hk : row.get? "token_key" = some (.text k)) :
    createAdminToken row c = .ok (createToken [("id", .text id), ("type", .text "admin")]
      (k ++ tokenSecret c .authToken)) := by
  unfold createAdminToken
  rw [rowKey_of_key hk, hid]
  rfl

theorem createRecordAuthToken_eq {refreshable : Bool} (hid : row.get? "id" = some (.text id))
    (hk : row.get? "token_key" = some (.text k)) :
    createRecordAuthToken row c refreshable =
      .ok (createToken [("id", .text id), ("type", .text "authRecord"),
        ("collectionId", .text c.id), ("refreshable", .bool refreshable)]
          (k ++ tokenSecret c .authToken)) := by
  unfold createRecordAuthToken
  rw [signingKey_eq_ok.2 ⟨k, hk, rfl⟩, hid]
  rfl

/-- What a login mints for a row. -/
structure Minted (c : Collection) (id k : Text) (refreshable : Option Value) (t : SignedToken) :
    Prop where
  token : TokenOf c id k t
  claims : AdminClaims c t.claims ∨ RecordClaims c t.claims
  refreshable : t.claims.get? "refreshable" = refreshable ∨ t.claims.get? "refreshable" = none

theorem minted_of_createRecordAuthToken {refreshable : Bool} (hid : row.get? "id" = some (.text id))
    (hk : row.get? "token_key" = some (.text k))
    (h : createRecordAuthToken row c refreshable = .ok t) :
    Minted c id k (some (.bool refreshable)) t := by
  rw [createRecordAuthToken_eq hid hk] at h
  obtain rfl := Except.ok.inj h
  exact ⟨⟨rfl, rfl, rfl⟩, Or.inr ⟨rfl, rfl, rfl⟩, Or.inl rfl⟩

theorem minted_of_signInToken (hid : row.get? "id" = some (.text id))
    (hk : row.get? "token_key" = some (.text k)) (h : signInToken row c = .ok t) :
    Minted c id k (some (.bool true)) t := by
  unfold signInToken at h
  split_ifs at h with hs
  · rw [createAdminToken_eq hid hk] at h
    obtain rfl := Except.ok.inj h
    exact ⟨⟨rfl, rfl, rfl⟩, Or.inl ⟨hs, rfl, rfl⟩, Or.inr rfl⟩
  · exact minted_of_createRecordAuthToken hid hk h

/-- The row a password login is for, and its session. -/
theorem of_authWithPassword {verify : Text → Text → Bool} {identity password : Text}
    {given : Option Text}
    (h : authWithPassword verify db c identity password given = .ok (some (row, t))) :
    row ∈ db.rows c.name ∧ signInToken row c = .ok t := by
  unfold authWithPassword at h
  split_ifs at h
  · cases h
  cases hfield : (identityField c given).bind fun field => rawRecordByField db c field identity with
  | none =>
    rw [hfield] at h
    cases h
  | some found =>
    rw [hfield] at h
    dsimp only at h
    split_ifs at h
    · obtain ⟨t', ht, heq⟩ := Failing.map_eq_ok.1 h
      obtain ⟨rfl, rfl⟩ := Prod.mk.inj (Option.some.inj heq)
      obtain ⟨field, -, hfound⟩ := Option.bind_eq_some_iff.1 hfield
      exact ⟨List.mem_of_find?_eq_some hfound, ht⟩
    · cases h

/-- The row a one-time password is for, and its session. -/
theorem of_authWithOtp {sv : Server} {otpId password : Text} {now : Int}
    (h : authWithOtp sv db c otpId password now = (db', .ok (some (row, t)))) :
    ∃ id, db.rowById c.name id = some row ∧ createRecordAuthToken row c true = .ok t := by
  have hsnd := congrArg Prod.snd h
  unfold authWithOtp at hsnd
  cases hotp : otpRow db c otpId with
  | none =>
    rw [hotp] at hsnd
    cases hsnd
  | some otp =>
    rw [hotp] at hsnd
    dsimp only at hsnd
    by_cases hexpired : otpExpired sv c now otp = true
    · rw [if_pos hexpired] at hsnd
      cases hsnd
    rw [if_neg hexpired] at hsnd
    by_cases hmatches : otpMatches sv otp password = true
    · rw [if_pos hmatches] at hsnd
      cases hraw : rawRecordById db c ((otp.get? "recordRef").getD (.text [])) with
      | error e =>
        rw [hraw] at hsnd
        cases hsnd
      | ok row? =>
        rw [hraw] at hsnd
        cases row? with
        | none => cases hsnd
        | some found =>
          obtain ⟨t', ht, heq⟩ := Failing.map_eq_ok.1 hsnd
          obtain ⟨rfl, rfl⟩ := Prod.mk.inj (Option.some.inj heq)
          obtain ⟨id, -, hrow⟩ := rawRecordById_eq_ok.1 hraw
          exact ⟨id, hrow, ht⟩
    · rw [if_neg hmatches] at hsnd
      cases hsnd

/-- When a session is refreshed. -/
theorem authRefresh_eq_ok : authRefresh db c p = .ok (some (row, t)) ↔
    p.get? "refreshable" ≠ some (.bool false) ∧
      ∃ id, p.get? "id" = some (.text id) ∧ id ≠ [] ∧ db.rowById c.name id = some row ∧
        signInToken row c = .ok t := by
  unfold authRefresh
  dsimp only
  constructor
  · intro h
    split_ifs at h with hrefreshable hid
    · cases h
    · cases h
    · obtain ⟨row?, hraw, h⟩ := Failing.bind_eq_ok.1 h
      cases row? with
      | none => cases h
      | some found =>
        obtain ⟨t', ht, heq⟩ := Failing.bind_eq_ok.1 h
        obtain ⟨rfl, rfl⟩ := Prod.mk.inj (Option.some.inj (Except.ok.inj heq))
        obtain ⟨id, hclaim, hrow⟩ := rawRecordById_eq_ok.1 hraw
        rw [hclaim, truthy_text] at hid
        exact ⟨hrefreshable, id, claim_eq_text.1 hclaim, hid, hrow, ht⟩
  · rintro ⟨hrefreshable, id, hid, hne, hrow, ht⟩
    rw [if_neg hrefreshable, claim_eq_text.2 hid, if_neg (mt truthy_text.1 hne),
      rawRecordById_eq_ok.2 ⟨id, rfl, hrow⟩]
    show (signInToken row c >>= _) = _
    rw [ht]
    rfl

/-- Every login mints a session for its record. -/
theorem minted_of_issues (hserves : Serves db c) (h : Issues db c id t) :
    ∃ k, HasKey db c id k ∧ Minted c id k (some (.bool true)) t := by
  have hrow : ∃ row, db.rowById c.name id = some row ∧
      ∀ k, row.get? "token_key" = some (.text k) → Minted c id k (some (.bool true)) t := by
    cases h with
    | @password verify identity password given row h hid =>
      obtain ⟨hmem, hsign⟩ := of_authWithPassword h
      obtain ⟨id', k, -, hid', -, hrow⟩ := hserves.rows row hmem
      obtain rfl : id = id' := Value.text.inj (Option.some.inj (hid.symm.trans hid'))
      exact ⟨row, hrow, fun _ hk => minted_of_signInToken hid hk hsign⟩
    | @otp sv otpId password now db' row h hid =>
      obtain ⟨id', hrow, hcreate⟩ := of_authWithOtp h
      have hid' : row.get? "id" = some (.text id') := by simpa using List.find?_some hrow
      obtain rfl : id = id' := Value.text.inj (Option.some.inj (hid.symm.trans hid'))
      exact ⟨row, hrow, fun _ hk => minted_of_createRecordAuthToken hid hk hcreate⟩
    | @oauth2 exchange w rt pg s s' http payload generated h hdb =>
      subst hdb
      rcases of_authWithOauth2 h with ⟨-, e, he⟩ | ⟨info, found, -, -, -, hopen⟩
      · cases he
      · obtain ⟨-, hopen⟩ := hopen (id, t) rfl
        obtain ⟨row, hrow⟩ := row_of_openSession hopen
        have hid : row.get? "id" = some (.text id) := by simpa using List.find?_some hrow
        have hgenerate : generateRecordAuthToken s'.db c id = .ok t := by
          unfold openSession at hopen
          split at hopen
          · cases hopen
          · cases hopen
          · exact Failing.mapError_eq_ok.1 hopen
        unfold generateRecordAuthToken at hgenerate
        rw [hrow] at hgenerate
        exact ⟨row, hrow, fun _ hk => minted_of_createRecordAuthToken hid hk hgenerate⟩
    | @refresh p row h hid =>
      obtain ⟨-, id', -, -, hrow, hsign⟩ := authRefresh_eq_ok.1 h
      have hid' : row.get? "id" = some (.text id') := by simpa using List.find?_some hrow
      obtain rfl : id = id' := Value.text.inj (Option.some.inj (hid.symm.trans hid'))
      exact ⟨row, hrow, fun _ hk => minted_of_signInToken hid hk hsign⟩
  obtain ⟨row, hrow, hminted⟩ := hrow
  obtain ⟨k, -, hk, hkey⟩ := hserves.hasKey hrow
  exact ⟨k, hkey, hminted k hk⟩

/-- An impersonation token is minted like a session, and says that it is none to refresh. -/
theorem minted_of_impersonate (hserves : Serves db c)
    (h : impersonateAuthRecord db c id = .ok (some (row, t))) :
    (∃ k, HasKey db c id k ∧ Minted c id k (some (.bool false)) t ∧
        (IsSuperusers c → AdminClaims c t.claims)) ∧
      t.claims.get? "refreshable" = some (.bool false) := by
  obtain ⟨row?, hraw, h⟩ := Failing.bind_eq_ok.1 h
  cases row? with
  | none => cases h
  | some found =>
    obtain ⟨id', heq, hrow⟩ := rawRecordById_eq_ok.1 hraw
    obtain rfl := Value.text.inj heq
    have hid : found.get? "id" = some (.text id) := by simpa using List.find?_some hrow
    obtain ⟨k, -, hk, hkey⟩ := hserves.hasKey hrow
    dsimp only at h
    by_cases hs : IsSuperusers c
    · rw [if_pos hs, createAdminToken_eq hid hk, rowKey_of_key hk] at h
      obtain ⟨rfl, rfl⟩ := Prod.mk.inj (Option.some.inj (Except.ok.inj h))
      exact ⟨⟨k, hkey, ⟨⟨rfl, rfl, rfl⟩, Or.inl ⟨hs, rfl, rfl⟩, Or.inl rfl⟩, fun _ => ⟨hs, rfl, rfl⟩⟩,
        rfl⟩
    · rw [if_neg hs, createRecordAuthToken_eq hid hk] at h
      obtain ⟨rfl, rfl⟩ := Prod.mk.inj (Option.some.inj (Except.ok.inj h))
      exact ⟨⟨k, hkey, ⟨⟨rfl, rfl, rfl⟩, Or.inr ⟨rfl, rfl, rfl⟩, Or.inl rfl⟩,
        fun hs' => absurd hs' hs⟩, rfl⟩

/-! ## What is accepted -/

theorem getOptionalAuth_eq {read : Text → Option SignedToken} {header text : Text}
    (htext : bearerToken header = some text) (hread : read text = some t) :
    getOptionalAuth read settingsSecret db header = authenticate settingsSecret db t := by
  unfold getOptionalAuth
  rw [htext, Option.bind_some, hread]

/-- An admin's token is taken for the superuser. -/
theorem authenticate_admin (hserves : Serves db c) (hkey : HasKey db c id k)
    (htoken : TokenOf c id k t) (hclaims : AdminClaims c t.claims) :
    authenticate settingsSecret db t = .ok (some t.claims) := by
  obtain ⟨row, hrow, hk⟩ := hkey
  obtain ⟨-, hne, -⟩ := hserves.hasKey hrow
  have hsecret : adminSecret settingsSecret db = tokenSecret c .authToken := by
    unfold adminSecret
    rw [hserves.superusers hclaims.superusers]
  unfold authenticate
  dsimp only
  rw [htoken.id, hclaims.type, Option.getD_some, if_neg (mt truthy_text.1 hne), if_pos (by decide)]
  refine authenticateAdmin_eq_ok.2 ⟨id, row, k, rfl, ?_, hk, ?_, htoken.current, rfl⟩
  · rw [show "_superusers".toList = c.name from hclaims.superusers.symm]
    exact hrow
  · rw [hsecret]
    exact htoken.signed

/-- A record's token is taken for the record. -/
theorem authenticate_record (hserves : Serves db c) (hkey : HasKey db c id k)
    (htoken : TokenOf c id k t) (hclaims : RecordClaims c t.claims) :
    authenticate settingsSecret db t = .ok (some (t.claims.set "type" (.text "authRecord"))) := by
  obtain ⟨row, hrow, hk⟩ := hkey
  obtain ⟨-, hne, -⟩ := hserves.hasKey hrow
  obtain ⟨tbl, htbl, hcol⟩ := hserves.table
  unfold authenticate
  dsimp only
  rw [htoken.id, hclaims.type, hclaims.collectionId, Option.getD_some, Option.getD_some,
    if_neg (mt truthy_text.1 hne), if_neg (by decide), if_pos (by decide),
    if_neg (mt truthy_text.1 hserves.id_ne)]
  exact authenticateRecord_eq_ok.2 ⟨c, c.id, id, tbl, row, k, rfl, hserves.found, rfl, htbl, hcol,
    hrow, hk, htoken.signed, htoken.current, rfl⟩

/-- The identity of a record's token, that names no collection. -/
theorem identityOf_record (htoken : TokenOf c id k t) (hclaims : RecordClaims c t.claims) :
    IdentityOf c id (t.claims.set "type" (.text "authRecord")) ∧
      (requireAdmin (some (t.claims.set "type" (.text "authRecord")))).isOk = false := by
  have htype := Dict.get?_set_self t.claims "type".toList (Value.text "authRecord")
  have hother : ∀ key : Text, "type".toList ≠ key →
      (t.claims.set "type" (.text "authRecord")).get? key = t.claims.get? key :=
    fun key hne => Dict.get?_set_ne _ _ hne
  refine ⟨⟨?_, Or.inr ⟨htype, ?_⟩⟩, ?_⟩
  · rw [hother _ (by decide), htoken.id]
  · rw [hother _ (by decide), hclaims.collectionId]
  · unfold requireAdmin
    dsimp only
    rw [htype, hother _ (by decide), hclaims.collectionName, if_neg (by decide), if_neg (by decide)]
    rfl

theorem requireAdmin_admin (htype : p.get? "type" = some (.text "admin")) :
    (requireAdmin (some p)).isOk = true := by
  unfold requireAdmin
  dsimp only
  rw [if_pos htype]
  rfl

/-- What is minted stays good, and says whether it is a superuser's, unless it is a record's
token for `_superusers`. -/
theorem identified_of_minted {refreshable : Option Value} (hkey : HasKey db c id k)
    (hminted : Minted c id k refreshable t) (hadmin : IsSuperusers c → AdminClaims c t.claims) :
    Identified settingsSecret db c id t := by
  intro db' c' hc read header text htext hread
  obtain ⟨hkey', htoken'⟩ := hminted.token.continues hkey hc
  rw [getOptionalAuth_eq htext hread]
  by_cases hs : IsSuperusers c
  · have hs' := hc.superusers.2 hs
    have hclaims : AdminClaims c' t.claims :=
      ⟨hs', (hadmin hs).type, (hadmin hs).collectionId⟩
    exact ⟨_, authenticate_admin hc.serves hkey' htoken' hclaims,
      ⟨htoken'.id, Or.inl ⟨hclaims.type, hs'⟩⟩, iff_of_true (requireAdmin_admin hclaims.type) hs'⟩
  · rcases hminted.claims with hclaims | hclaims
    · exact absurd hclaims.superusers hs
    · have hclaims' : RecordClaims c' t.claims :=
        ⟨hclaims.type, by rw [hc.same]; exact hclaims.collectionId, hclaims.collectionName⟩
      obtain ⟨hidentity, hrefused⟩ := identityOf_record htoken' hclaims'
      refine ⟨_, authenticate_record hc.serves hkey' htoken' hclaims', hidentity, iff_of_false ?_ ?_⟩
      · rw [hrefused]
        exact Bool.false_ne_true
      · exact mt hc.superusers.1 hs

/-- A verified token says what it said before, but for its type. -/
theorem get?_of_verified (h : verifyRecordAuthToken db c t = .ok (some p)) {key : Text}
    (hkey : "type".toList ≠ key) : p.get? key = t.claims.get? key := by
  unfold verifyRecordAuthToken at h
  dsimp only at h
  split_ifs at h
  · cases h
  · cases h
  · cases h
  · obtain ⟨row?, -, h⟩ := Failing.bind_eq_ok.1 h
    cases row? with
    | none => cases h
    | some row =>
      obtain ⟨signing, -, h⟩ := Failing.bind_eq_ok.1 h
      obtain ⟨q, hq, hp⟩ := Option.map_eq_some_iff.1 (Except.ok.inj h)
      obtain ⟨-, -, rfl⟩ := decode_eq_some.1 hq
      split_ifs at hp
      · rw [hp]
      · rw [← hp]
        exact Dict.get?_set_ne _ _ hkey

/-- A record's token is exchanged for a new session. -/
theorem refreshed_of_record {refreshable : Option Value} (hkey : HasKey db c id k)
    (hminted : Minted c id k refreshable t) (hclaims : RecordClaims c t.claims)
    (hrefreshable : refreshable ≠ some (.bool false)) : Refreshed db c id t := by
  intro db' c' hc
  obtain ⟨⟨row, hrow, hk⟩, htoken'⟩ := hminted.token.continues hkey hc
  obtain ⟨-, hne, -⟩ := hc.serves.hasKey hrow
  have hid : row.get? "id" = some (.text id) := by simpa using List.find?_some hrow
  have htype : takesType c' (normalizeType (t.claims.get? "type")) = true := by
    rw [hclaims.type]
    rfl
  obtain ⟨p, hp⟩ := verifyRecordAuthToken_accepts.2 ⟨htype,
    by rw [hc.same]; exact hclaims.collectionId, id, row, htoken'.id, hne, hrow,
    signedByRow_of_tokenOf htoken' hk, htoken'.current⟩
  have hsign : ∃ t', signInToken row c' = .ok t' := by
    unfold signInToken
    by_cases hs : c'.name = "_superusers".toList
    · exact ⟨_, by rw [if_pos hs, createAdminToken_eq hid hk]⟩
    · exact ⟨_, by rw [if_neg hs, createRecordAuthToken_eq hid hk]⟩
  obtain ⟨t', ht'⟩ := hsign
  have hrefresh : authRefresh db' c' p = .ok (some (row, t')) := by
    refine authRefresh_eq_ok.2 ⟨?_, id, ?_, hne, hrow, ht'⟩
    · rw [get?_of_verified hp (by decide)]
      rcases hminted.refreshable with h | h
      · rw [h]
        exact hrefreshable
      · rw [h]
        rintro ⟨⟩
    · rw [get?_of_verified hp (by decide), htoken'.id]
  exact ⟨p, row, t', hp, hrefresh, .refresh hrefresh hid⟩

/-- An admin's token is not : it names no collection. -/
theorem not_refreshed_admin (hserves : Serves db c) (hkey : HasKey db c id k)
    (hclaims : AdminClaims c t.claims) : ¬Refreshed db c id t := by
  intro h
  obtain ⟨p, -, -, hp, -⟩ := h db c (Continues.refl hserves hkey)
  have hcoll := (verifyRecordAuthToken_accepts.1 ⟨p, hp⟩).2.1
  rw [hclaims.collectionId] at hcoll
  cases hcoll

/-- A record's token for a superuser does not make it one : it does not name its collection. -/
theorem not_identified_record (hserves : Serves db c) (hkey : HasKey db c id k)
    (htoken : TokenOf c id k t) (hclaims : RecordClaims c t.claims) (hs : IsSuperusers c) :
    ¬Identified settingsSecret db c id t := by
  intro h
  obtain ⟨p, hp, -, hadmin⟩ := h db c (Continues.refl hserves hkey) (fun _ => some t) "t" "t" rfl rfl
  rw [getOptionalAuth_eq rfl rfl,
    authenticate_record hserves hkey htoken hclaims] at hp
  obtain rfl := Option.some.inj (Except.ok.inj hp)
  have hok := hadmin.2 hs
  rw [(identityOf_record htoken hclaims).2] at hok
  exact Bool.false_ne_true hok

/-- A session is good for all it should be exactly if its collection is not `_superusers`. An
impersonation token is taken for its record, and never refreshed. -/
theorem round_trips_iff (settingsSecret : Text) (hserves : Serves db c) :
    (∀ id t, Issues db c id t → (RoundTrips settingsSecret db c id t ↔ ¬IsSuperusers c)) ∧
      ∀ id row t, impersonateAuthRecord db c id = .ok (some (row, t)) →
        Identified settingsSecret db c id t ∧ ∀ db' c' p,
          verifyRecordAuthToken db' c' t = .ok (some p) → authRefresh db' c' p = .ok none := by
  refine ⟨fun id t h => ?_, fun id row t h => ?_⟩
  · obtain ⟨k, hkey, hminted⟩ := minted_of_issues hserves h
    constructor
    · rintro ⟨hidentified, hrefreshed⟩ hs
      rcases hminted.claims with hclaims | hclaims
      · exact not_refreshed_admin hserves hkey hclaims hrefreshed
      · exact not_identified_record hserves hkey hminted.token hclaims hs hidentified
    · intro hs
      rcases hminted.claims with hclaims | hclaims
      · exact absurd hclaims.superusers hs
      · exact ⟨identified_of_minted hkey hminted fun hs' => absurd hs' hs,
          refreshed_of_record hkey hminted hclaims (by decide)⟩
  · obtain ⟨⟨k, hkey, hminted, hadmin⟩, hrefreshable⟩ := minted_of_impersonate hserves h
    refine ⟨identified_of_minted hkey hminted hadmin, fun db' c' p hp => ?_⟩
    have hrefused := (get?_of_verified hp (by decide)).trans hrefreshable
    unfold authRefresh
    dsimp only
    rw [if_pos hrefused]

end

/-! ## A login of each kind -/

/-- An auth collection with one record, whose key is `k`. -/
def members (name : Text) : Collection where
  id := name ++ "Id"
  name := name
  type := .auth

def member : Row :=
  [("id", .text "m1"), ("email", .text "m@x.org"), ("token_key", .text "k"),
    ("password_hash", .text "secret")]

def memberDb (name : Text) : Db where
  collections := [members name]
  tables := [(name, ⟨["id", "email", "token_key", "password_hash"], [member]⟩)]

/-- The session of a password login. -/
def memberLogin (name : Text) : Except SessionError (Option (Row × SignedToken)) :=
  authWithPassword (· = ·) (memberDb name) (members name) "m@x.org" "secret" none

theorem serves_members : Serves (memberDb "members") (members "members") where
  auth := rfl
  id_ne := by decide
  found := rfl
  superusers := fun h => absurd h (by decide)
  table := ⟨_, rfl, by decide⟩
  rows := fun row hrow => by
    obtain rfl : row = member := List.mem_singleton.1 hrow
    exact ⟨"m1", "k", by decide, rfl, rfl, rfl⟩

theorem serves_superusers : Serves (memberDb "_superusers") (members "_superusers") where
  auth := rfl
  id_ne := by decide
  found := rfl
  superusers := fun _ => rfl
  table := ⟨_, rfl, by decide⟩
  rows := fun row hrow => by
    obtain rfl : row = member := List.mem_singleton.1 hrow
    exact ⟨"m1", "k", by decide, rfl, rfl, rfl⟩

/-- The session of a member is good for all it should be. -/
theorem member_round_trips : ∃ t, memberLogin "members" = .ok (some (member, t)) ∧
    RoundTrips [] (memberDb "members") (members "members") "m1" t := by
  obtain ⟨t, hlogin⟩ : ∃ t, memberLogin "members" = .ok (some (member, t)) := ⟨_, rfl⟩
  have hissues : Issues (memberDb "members") (members "members") "m1" t := .password hlogin rfl
  exact ⟨t, hlogin, ((round_trips_iff [] serves_members).1 "m1" t hissues).2 (by decide)⟩

/-- The session of a superuser cannot be refreshed. -/
theorem superuser_not_refreshed : ¬∀ db c, Serves db c → ∀ id t, Issues db c id t →
    RoundTrips [] db c id t := by
  intro h
  obtain ⟨t, hlogin⟩ : ∃ t, memberLogin "_superusers" = .ok (some (member, t)) := ⟨_, rfl⟩
  have hkey : HasKey (memberDb "_superusers") (members "_superusers") "m1" "k" := ⟨member, rfl, rfl⟩
  have hissues : Issues (memberDb "_superusers") (members "_superusers") "m1" t := .password hlogin rfl
  obtain ⟨p, -, -, hp, -⟩ := (h _ _ serves_superusers _ _ hissues).refreshed _ _
    (Continues.refl serves_superusers hkey)
  obtain ⟨-, hsign⟩ := of_authWithPassword hlogin
  obtain rfl := Except.ok.inj hsign
  cases hp

end RoundTrip

end PPBase
