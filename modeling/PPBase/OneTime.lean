import PPBase.AuthFlows
import PPBase.Interleaving

/-!
# Credentials for one use

`auth_with_otp`, `confirm_password_reset`, `confirm_email_change` and the first-run setup, each
as its statements. The first three run every statement in a transaction of its own. The setup
is one transaction : its deletion waits while another has deleted the row and not committed,
and what it writes is seen by others when it commits. No consuming statement looks at how many
rows it hit, so a call that has read goes on to succeed whatever the others did meanwhile.

`one_success_of_checked` : in every run in which each call's check would still pass when it
writes, at most one call with a credential succeeds.
-/

namespace PPBase

namespace OneTime

open Session AuthFlows

/-- What the calls take from elsewhere. -/
structure Server where
  rt : Runtime
  /-- `verify_password` -/
  verify : Text → Text → Bool
  /-- `_otp_config` : the time an OTP is good for. -/
  otpDuration : Collection → Int

/-- A call with its arguments, the time it is made and the random values it draws. -/
inductive Call
  | otp (c : Collection) (otpId password : Text) (now : Int)
  | reset (w : Writer) (c : Collection) (t : SignedToken) (password passwordConfirm : Text)
  | emailChange (w : Writer) (c : Collection) (t : SignedToken) (password : Text)
  | init (w : Writer) (email password passwordConfirm : Text) (setupToken : Option Text)

/-- How far a call is. -/
inductive Phase
  | begun
  /-- The OTP is too old. -/
  | expired
  | otpRead (recordRef : Value)
  | rowRead (row : Row)
  | tokenRead (id : Text) (row : Row)
  /-- No other record has the new email. -/
  | addressFree (id : Text)
  | counted
  | recounted
  | matched
  | reread (param : Option Text)
  /-- The parameter deleted and not committed, if there was one. -/
  | deleted (param : Option Text)
  | inserted (param : Option Text)
  | ended (ok : Bool)

structure Running where
  call : Call
  phase : Phase

abbrev State := Pool Db Running

/-! ## The statements -/

/-- `SELECT * FROM "_otps" WHERE "id" = .. AND "collectionRef" = .. LIMIT 1` -/
def otpRow (db : Db) (c : Collection) (otpId : Text) : Option Row :=
  (db.rows "_otps").find? fun r =>
    r.get? "id" = some (.text otpId) && r.get? "collectionRef" = some (.text c.id)

/-- `created is None or (now_epoch - created.timestamp()) > duration` -/
def otpExpired (sv : Server) (c : Collection) (now : Int) (row : Row) : Bool :=
  match row.get? "created" with
  | some (.time t) => now - t > sv.otpDuration c
  | _ => true

/-- `not otp_hash or not verify_password(otp_password, otp_hash)`, the other way round. -/
def otpMatches (sv : Server) (row : Row) (password : Text) : Bool :=
  match row.get? "password" with
  | some (.text h) => h ≠ [] && sv.verify password h
  | _ => false

/-- The parameter that holds the setup token. -/
def setupParam (db : Db) : Option Row :=
  (db.rows "_params").find? fun r => r.get? "key" = some (.text "_setup_token")

/-- The setup token that is stored. -/
def storedToken (db : Db) : Option Text :=
  match (setupParam db).bind (Dict.get? · "value") with
  | some (.obj fs) =>
    match Dict.get? fs "token" with
    | some (.text s) => some s
    | _ => none
  | _ => none

/-- The id of a row. -/
def rowId (row : Row) : Option Text :=
  match row.get? "id" with
  | some (.text id) => some id
  | _ => none

/-- `SuperuserRecord` with the values of `create_admin`. -/
def newAdmin (w : Writer) (email password : Text) : Row :=
  [("id", .text w.newId), ("avatar", .num 0), ("email", .text email), ("token_key", .text w.tokenKey),
    ("password_hash", .text (w.hashPassword password)), ("created", .time w.now),
    ("updated", .time w.now)]

/-- A unique column of the new row is taken. -/
def adminConflict (db : Db) (row : Row) : Bool :=
  (db.rows "_superusers").any fun r =>
    r.get? "id" = row.get? "id" || r.get? "email" = row.get? "email" ||
      r.get? "token_key" = row.get? "token_key"

/-- The parameter that the setup has deleted, if it has. -/
def withoutParam (db : Db) : Option Text → Db
  | some id => db.deleteRow "_params" id
  | none => db

/-- `auth_with_otp` -/
def nextOtp (sv : Server) (db : Db) (c : Collection) (otpId password : Text) (now : Int) :
    Phase → Option (Db × Phase)
  | .begun => some <|
    match otpRow db c otpId with
    | none => (db, .ended false)
    | some row =>
      if otpExpired sv c now row then (db, .expired)
      else if otpMatches sv row password then (db, .otpRead ((row.get? "recordRef").getD (.text [])))
      else (db, .ended false)
  | .expired => some (db.deleteRow "_otps" otpId, .ended false)
  | .otpRead recordRef => some <|
    match rawRecordById db c recordRef with
    | .ok (some row) => (db, .rowRead row)
    | _ => (db, .ended false)
  | .rowRead row => some (db.deleteRow "_otps" otpId, .ended (createRecordAuthToken row c true).isOk)
  | _ => none

/-- `confirm_password_reset` -/
def nextReset (db : Db) (w : Writer) (c : Collection) (t : SignedToken)
    (password passwordConfirm : Text) : Phase → Option (Db × Phase)
  | .begun => some <|
    if password ≠ passwordConfirm ∨ password.length < 8 then (db, .ended false)
    else match tokenRecord db c t "passwordReset" .passwordResetToken with
      | .ok (id, row) => (db, .tokenRead id row)
      | .error _ => (db, .ended false)
  | .tokenRead id _ => some (db.updateRow c.name id
      [("password_hash", .text (w.hashPassword password)), ("token_key", .text w.tokenKey)],
      .ended true)
  | _ => none

/-- `confirm_email_change` -/
def nextEmailChange (sv : Server) (db : Db) (w : Writer) (c : Collection) (t : SignedToken)
    (password : Text) : Phase → Option (Db × Phase)
  | .begun => some <|
    match tokenRecord db c t "emailChange" .emailChangeToken with
    | .ok (id, row) =>
      if newEmail sv.rt t = [] ∨ isEmail (newEmail sv.rt t) = false then (db, .ended false)
      else if passwordMatches sv.verify row password then (db, .tokenRead id row)
      else (db, .ended false)
    | .error _ => (db, .ended false)
  | .tokenRead id _ => some <|
    if emailInUse db c (.text id) (newEmail sv.rt t) then (db, .ended false)
    else (db, .addressFree id)
  | .addressFree id => some (db.updateRow c.name id
      [("email", .text (newEmail sv.rt t)), ("verified", .bool true), ("token_key", .text w.tokenKey)],
      .ended true)
  | _ => none

/-- `init_admin` and the setup service. -/
def nextInit (db : Db) (w : Writer) (email password passwordConfirm : Text)
    (setupToken : Option Text) : Phase → Option (Db × Phase)
  | .begun => some <|
    if db.rows "_superusers" ≠ [] then (db, .ended false)
    else if password ≠ passwordConfirm ∨ password.length < 8 then (db, .ended false)
    else if Text.strip (setupToken.getD []) = [] then (db, .ended false)
    else (db, .counted)
  | .counted => some (db, if db.rows "_superusers" ≠ [] then .ended false else .recounted)
  | .recounted => some (db,
      if storedToken db = some (Text.strip (setupToken.getD [])) then .matched else .ended false)
  | .matched => some (db, .reread ((setupParam db).bind rowId))
  | .reread param => some (db, .deleted (param.filter fun id => (db.rowById "_params" id).isSome))
  | .deleted param => some (db,
      if adminConflict db (newAdmin w email password) then .ended false else .inserted param)
  | .inserted param => some
      ((withoutParam db param).insertRow "_superusers" (newAdmin w email password), .ended true)
  | _ => none

/-- The next statement of a call that waits for nothing. -/
def next (sv : Server) (db : Db) : Call → Phase → Option (Db × Phase)
  | .otp c otpId password now => nextOtp sv db c otpId password now
  | .reset w c t password passwordConfirm => nextReset db w c t password passwordConfirm
  | .emailChange w c t password => nextEmailChange sv db w c t password
  | .init w email password passwordConfirm setupToken =>
    nextInit db w email password passwordConfirm setupToken

/-- What an open transaction has written : the parameter it deleted, the email it inserted. -/
def Running.holds (r : Running) : Option Text × Option Text :=
  match r.call, r.phase with
  | .init _ _ _ _ _, .deleted param => (param, none)
  | .init _ email _ _ _, .inserted param => (param, some email)
  | _, _ => (none, none)

/-- The next statement of the call waits for the transaction of another. -/
def waitsFor (r other : Running) : Bool :=
  match r.call, r.phase with
  | .init _ _ _ _ _, .reread (some id) => other.holds.1 = some id
  | .init _ email _ _ _, .deleted _ => other.holds.2 = some email
  | _, _ => false

/-- The next statement has to wait. -/
def waits (s : State) (i : ℕ) (r : Running) : Bool :=
  (s.procs.eraseIdx i).any (waitsFor r)

/-- A call at its start. -/
def Starts (r : Running) : Prop := r.phase = .begun

/-- A call executes its next statement. -/
def Moves (sv : Server) (s : State) (i : ℕ) (r : Running) (db' : Db) (r' : Running) : Prop :=
  waits s i r = false ∧ r'.call = r.call ∧ next sv s.shared r.call r.phase = some (db', r'.phase)

/-! ## Credentials -/

/-- What may be used once. A token is the same before and after it expires. -/
inductive Credential
  | otp (id : Text)
  | token (claims : TokenPayload) (key : Option Text)
  | setup (token : Text)

def Running.credential (r : Running) : Credential :=
  match r.call with
  | .otp _ otpId _ _ => .otp otpId
  | .reset _ _ t _ _ => .token t.claims t.key
  | .emailChange _ _ t _ => .token t.claims t.key
  | .init _ _ _ _ setupToken => .setup (Text.strip (setupToken.getD []))

/-- The call has succeeded. -/
def Running.Succeeded (r : Running) : Prop := r.phase = .ended true

/-- Tokens of the type that are signed with the key are accepted for the record. -/
def Signs (db : Db) (c : Collection) (id : Text) (type : TokenType) (key : Text) : Prop :=
  ∃ row k, db.rowById c.name id = some row ∧ rowTokenKey row = .text k ∧ key = k ++ tokenSecret c type

/-- The secret the token is signed with, by its type claim. -/
def tokenPurpose (claims : TokenPayload) : Option TokenType :=
  if claims.get? "type" = some (.text "passwordReset") then some .passwordResetToken
  else if claims.get? "type" = some (.text "emailChange") then some .emailChangeToken
  else none

/-- The credential cannot be used any more. -/
def Spent (db : Db) : Credential → Prop
  | .otp id => db.rowById "_otps" id = none
  | .token claims key => ∀ c ∈ db.collections, ∀ id type k, claims.get? "id" = some (.text id) →
      tokenPurpose claims = some type → key = some k → ¬Signs db c id type k
  | .setup _ => db.rows "_superusers" ≠ []

/-- Collections have their own names, records of two collections with one id have different
keys, and there is a table of superusers. -/
structure Keyed (db : Db) : Prop where
  names : ∀ c ∈ db.collections, ∀ c' ∈ db.collections, c.name = c'.name → c = c'
  keys : ∀ c ∈ db.collections, ∀ c' ∈ db.collections, ∀ id type key,
    Signs db c id type key → Signs db c' id type key → c = c'
  superusers : ∃ t, db.tables.get? "_superusers" = some t

/-- `generate_token_key` gives a new key : no record has it, and no token used before is signed
with it. -/
def NewKey (s : State) (tokenKey : Text) : Prop :=
  ∀ c ∈ s.shared.collections, ∀ type,
    (∀ c' ∈ s.shared.collections, ∀ id, ¬Signs s.shared c' id type (tokenKey ++ tokenSecret c type)) ∧
    ∀ r ∈ s.procs, r.Succeeded → ∀ claims,
      r.credential ≠ .token claims (some (tokenKey ++ tokenSecret c type))

/-- If the next statement of the call consumes, then what the call has checked still holds. -/
def Checked (s : State) (r : Running) : Prop :=
  match r.call, r.phase with
  | .otp c otpId _ _, .rowRead _ => ∃ row, otpRow s.shared c otpId = some row
  | .reset w c t _ _, .tokenRead id _ => c ∈ s.shared.collections ∧
      (∃ row, tokenRecord s.shared c t "passwordReset" .passwordResetToken = .ok (id, row)) ∧
      NewKey s w.tokenKey
  | .emailChange w c t _, .addressFree id => c ∈ s.shared.collections ∧
      (∃ row, tokenRecord s.shared c t "emailChange" .emailChangeToken = .ok (id, row)) ∧
      NewKey s w.tokenKey
  | .init w _ _ _ _, .inserted _ => s.shared.rows "_superusers" = [] ∧ NewKey s w.tokenKey
  | _, _ => True

/-- A statement that consumes does so only while the check holds. -/
def MovesChecked (sv : Server) (s : State) (i : ℕ) (r : Running) (db' : Db) (r' : Running) : Prop :=
  Moves sv s i r db' r' ∧ Checked s r

/-- What a statement can do to the database. -/
inductive Writes (sv : Server) (db : Db) : Call → Phase → Db → Phase → Prop
  | reads {call : Call} {phase phase' : Phase} (h : phase' ≠ .ended true) :
      Writes sv db call phase db phase'
  | expires {c : Collection} {otpId password : Text} {now : Int} :
      Writes sv db (.otp c otpId password now) .expired (db.deleteRow "_otps" otpId) (.ended false)
  | usesOtp {c : Collection} {otpId password : Text} {now : Int} {row : Row} {ok : Bool} :
      Writes sv db (.otp c otpId password now) (.rowRead row) (db.deleteRow "_otps" otpId) (.ended ok)
  | resets {w : Writer} {c : Collection} {t : SignedToken} {password passwordConfirm id : Text}
      {row : Row} :
      Writes sv db (.reset w c t password passwordConfirm) (.tokenRead id row)
        (db.updateRow c.name id
          [("password_hash", .text (w.hashPassword password)), ("token_key", .text w.tokenKey)])
        (.ended true)
  | changesEmail {w : Writer} {c : Collection} {t : SignedToken} {password id : Text} :
      Writes sv db (.emailChange w c t password) (.addressFree id)
        (db.updateRow c.name id [("email", .text (newEmail sv.rt t)), ("verified", .bool true),
          ("token_key", .text w.tokenKey)])
        (.ended true)
  | inits {w : Writer} {email password passwordConfirm : Text} {setupToken param : Option Text} :
      Writes sv db (.init w email password passwordConfirm setupToken) (.inserted param)
        ((withoutParam db param).insertRow "_superusers" (newAdmin w email password))
        (.ended true)

section

variable {sv : Server} {db db' : Db} {call : Call} {phase phase' : Phase}

theorem writes_of_reads {q : Phase} (h : (db, q) = (db', phase')) (hq : q ≠ .ended true) :
    Writes sv db call phase db' phase' := by
  obtain ⟨rfl, rfl⟩ := Prod.mk.inj h
  exact .reads hq

variable {c : Collection} {password id tokenKey key table : Text} {w : Writer} {t : SignedToken}
  {type : TokenType} {updates row : Row}

theorem writes_of_nextOtp {otpId : Text} {now : Int}
    (h : nextOtp sv db c otpId password now phase = some (db', phase')) :
    Writes sv db (.otp c otpId password now) phase db' phase' := by
  cases phase with
  | begun =>
    have h := Option.some.inj h
    split at h
    · exact writes_of_reads h (by rintro ⟨⟩)
    · split_ifs at h
      · exact writes_of_reads h (by rintro ⟨⟩)
      · exact writes_of_reads h (by rintro ⟨⟩)
      · exact writes_of_reads h (by rintro ⟨⟩)
  | expired =>
    obtain ⟨rfl, rfl⟩ := Prod.mk.inj (Option.some.inj h)
    exact .expires
  | otpRead recordRef =>
    have h := Option.some.inj h
    split at h
    · exact writes_of_reads h (by rintro ⟨⟩)
    · exact writes_of_reads h (by rintro ⟨⟩)
  | rowRead row =>
    obtain ⟨rfl, rfl⟩ := Prod.mk.inj (Option.some.inj h)
    exact .usesOtp
  | _ => cases h

theorem writes_of_nextReset {passwordConfirm : Text}
    (h : nextReset db w c t password passwordConfirm phase = some (db', phase')) :
    Writes sv db (.reset w c t password passwordConfirm) phase db' phase' := by
  cases phase with
  | begun =>
    have h := Option.some.inj h
    split_ifs at h
    · exact writes_of_reads h (by rintro ⟨⟩)
    · split at h
      · exact writes_of_reads h (by rintro ⟨⟩)
      · exact writes_of_reads h (by rintro ⟨⟩)
  | tokenRead id row =>
    obtain ⟨rfl, rfl⟩ := Prod.mk.inj (Option.some.inj h)
    exact .resets
  | _ => cases h

theorem writes_of_nextEmailChange
    (h : nextEmailChange sv db w c t password phase = some (db', phase')) :
    Writes sv db (.emailChange w c t password) phase db' phase' := by
  cases phase with
  | begun =>
    have h := Option.some.inj h
    split at h
    · split_ifs at h
      · exact writes_of_reads h (by rintro ⟨⟩)
      · exact writes_of_reads h (by rintro ⟨⟩)
      · exact writes_of_reads h (by rintro ⟨⟩)
    · exact writes_of_reads h (by rintro ⟨⟩)
  | tokenRead id row =>
    have h := Option.some.inj h
    split_ifs at h
    · exact writes_of_reads h (by rintro ⟨⟩)
    · exact writes_of_reads h (by rintro ⟨⟩)
  | addressFree id =>
    obtain ⟨rfl, rfl⟩ := Prod.mk.inj (Option.some.inj h)
    exact .changesEmail
  | _ => cases h

theorem writes_of_nextInit {email passwordConfirm : Text} {setupToken : Option Text}
    (h : nextInit db w email password passwordConfirm setupToken phase = some (db', phase')) :
    Writes sv db (.init w email password passwordConfirm setupToken) phase db' phase' := by
  cases phase with
  | begun =>
    have h := Option.some.inj h
    split_ifs at h
    · exact writes_of_reads h (by rintro ⟨⟩)
    · exact writes_of_reads h (by rintro ⟨⟩)
    · exact writes_of_reads h (by rintro ⟨⟩)
    · exact writes_of_reads h (by rintro ⟨⟩)
  | counted =>
    refine writes_of_reads (Option.some.inj h) ?_
    split_ifs <;> exact nofun
  | recounted =>
    refine writes_of_reads (Option.some.inj h) ?_
    split_ifs <;> exact nofun
  | matched => exact writes_of_reads (Option.some.inj h) nofun
  | reread param => exact writes_of_reads (Option.some.inj h) nofun
  | deleted param =>
    refine writes_of_reads (Option.some.inj h) ?_
    split_ifs <;> exact nofun
  | inserted param =>
    obtain ⟨rfl, rfl⟩ := Prod.mk.inj (Option.some.inj h)
    exact .inits
  | _ => cases h

theorem writes_of_next (h : next sv db call phase = some (db', phase')) :
    Writes sv db call phase db' phase' := by
  cases call with
  | otp c otpId password now => exact writes_of_nextOtp h
  | reset w c t password passwordConfirm => exact writes_of_nextReset h
  | emailChange w c t password => exact writes_of_nextEmailChange h
  | init w email password passwordConfirm setupToken => exact writes_of_nextInit h

/-! ## Calls that run alone -/

/-- The statements of a password reset, one after the other. -/
theorem reset_alone {passwordConfirm : Text} :
    confirmPasswordReset w db c t password passwordConfirm = .ok db' ↔
      ∃ id row, nextReset db w c t password passwordConfirm .begun = some (db, .tokenRead id row) ∧
        nextReset db w c t password passwordConfirm (.tokenRead id row) = some (db', .ended true) := by
  unfold confirmPasswordReset nextReset
  by_cases hmatch : password ≠ passwordConfirm
  · simp [hmatch]
  by_cases hlength : password.length < 8
  · simp [hmatch, hlength]
  rw [if_neg hmatch, if_neg hlength, if_neg (not_or.2 ⟨hmatch, hlength⟩), Failing.bind_eq_ok]
  constructor
  · rintro ⟨⟨id, row⟩, htoken, hdb⟩
    rw [htoken]
    exact ⟨id, row, rfl, congrArg (fun d => some (d, Phase.ended true)) (Except.ok.inj hdb)⟩
  · rintro ⟨id, row, hread, hwrite⟩
    cases htoken : tokenRecord db c t "passwordReset" .passwordResetToken with
    | error e =>
      rw [htoken] at hread
      cases hread
    | ok found =>
      rw [htoken] at hread
      obtain ⟨id', row'⟩ := found
      cases hread
      exact ⟨_, rfl, congrArg Except.ok (Prod.mk.inj (Option.some.inj hwrite)).1⟩

/-- The statements of an email change, one after the other. -/
theorem emailChange_alone :
    confirmEmailChange w sv.verify sv.rt db c t password = .ok db' ↔
      ∃ id row, nextEmailChange sv db w c t password .begun = some (db, .tokenRead id row) ∧
        nextEmailChange sv db w c t password (.tokenRead id row) = some (db, .addressFree id) ∧
        nextEmailChange sv db w c t password (.addressFree id) = some (db', .ended true) := by
  unfold confirmEmailChange nextEmailChange
  rw [Failing.bind_eq_ok]
  constructor
  · rintro ⟨⟨id, row⟩, htoken, h⟩
    dsimp only at h
    split_ifs at h with hemail hpassword huse
    refine ⟨id, row, ?_, ?_, congrArg (fun d => some (d, Phase.ended true)) (Except.ok.inj h)⟩
    · rw [htoken]
      dsimp only
      rw [if_neg hemail, if_pos (by simpa using hpassword)]
    · dsimp only
      rw [if_neg huse]
  · rintro ⟨id, row, hread, hfree, hwrite⟩
    cases htoken : tokenRecord db c t "emailChange" .emailChangeToken with
    | error e =>
      rw [htoken] at hread
      cases hread
    | ok found =>
      obtain ⟨id', row'⟩ := found
      rw [htoken] at hread
      dsimp only at hread hfree
      split_ifs at hread with hemail hpassword
      · cases hread
      · cases hread
        split_ifs at hfree with huse
        · cases hfree
        · refine ⟨_, rfl, ?_⟩
          dsimp only
          rw [if_neg hemail, if_neg (by rw [hpassword]; decide), if_neg huse]
          exact congrArg Except.ok (Prod.mk.inj (Option.some.inj hwrite)).1
      · cases hread

/-! ## Keys -/

/-- Writing a new key to a record. -/
theorem signs_updateRow {c' : Collection} {id' : Text} (hid : "id".toList ∉ updates.keys)
    (hkey : ∀ r : Row, (Dict.update r updates).get? "token_key" = some (.text tokenKey))
    (h : Signs (db.updateRow c.name id updates) c' id' type key) :
    (c'.name = c.name ∧ id' = id ∧ key = tokenKey ++ tokenSecret c' type) ∨
      (Signs db c' id' type key ∧ ¬(c'.name = c.name ∧ id' = id)) := by
  obtain ⟨row, k, hrow, hk, rfl⟩ := h
  by_cases hname : c'.name = c.name
  · rw [hname, Db.rowById_updateRow_eq hid, Option.map_eq_some_iff] at hrow
    obtain ⟨r, hr, hrow⟩ := hrow
    have hrid : r.get? "id" = some (.text id') := by
      unfold Db.rowById at hr
      simpa using List.find?_some hr
    by_cases hsame : r.get? "id" = some (.text id)
    · rw [if_pos hsame] at hrow
      obtain rfl : id' = id := Value.text.inj (Option.some.inj (hrid.symm.trans hsame))
      refine Or.inl ⟨hname, rfl, ?_⟩
      have hnew : rowTokenKey row = .text tokenKey := by
        unfold rowTokenKey
        rw [← hrow, hkey, Option.getD_some]
      rw [Value.text.inj (hk.symm.trans hnew)]
    · rw [if_neg hsame] at hrow
      subst hrow
      refine Or.inr ⟨⟨r, k, by rw [hname]; exact hr, hk, rfl⟩, ?_⟩
      rintro ⟨-, rfl⟩
      exact hsame hrid
  · unfold Db.updateRow at hrow
    rw [Db.rowById_mapTable_of_ne _ hname] at hrow
    exact Or.inr ⟨⟨row, k, hrow, hk, rfl⟩, fun h => hname h.1⟩

/-- Deleting a row gives no key. -/
theorem signs_deleteRow {id' : Text} (h : Signs (db.deleteRow table id) c id' type key) :
    Signs db c id' type key := by
  obtain ⟨row, k, hrow, hk, rfl⟩ := h
  by_cases hname : c.name = table
  · subst hname
    exact ⟨row, k, (Db.rowById_deleteRow hrow).2, hk, rfl⟩
  · unfold Db.deleteRow at hrow
    rw [Db.rowById_mapTable_of_ne _ hname] at hrow
    exact ⟨row, k, hrow, hk, rfl⟩

/-- A new row brings its own key. -/
theorem signs_insertRow (h : Signs (db.insertRow table row) c id type key) :
    Signs db c id type key ∨ (c.name = table ∧ row.get? "id" = some (.text id) ∧
      ∃ k, rowTokenKey row = .text k ∧ key = k ++ tokenSecret c type) := by
  obtain ⟨row', k, hrow, hk, rfl⟩ := h
  by_cases hname : c.name = table
  · subst hname
    obtain ⟨t', ht'⟩ := table_of_rowById hrow
    obtain ⟨t, ht⟩ : ∃ t, db.tables.get? c.name = some t := by
      unfold Db.insertRow at ht'
      rw [Db.get?_mapTable, Option.map_eq_some_iff] at ht'
      exact ⟨ht'.choose, ht'.choose_spec.1⟩
    unfold Db.rowById at hrow
    rw [Db.rows_insertRow ht, List.find?_append, Option.or_eq_some_iff] at hrow
    rcases hrow with hrow | ⟨-, hrow⟩
    · exact Or.inl ⟨row', k, hrow, hk, rfl⟩
    · obtain rfl := List.mem_singleton.1 (List.mem_of_find?_eq_some hrow)
      exact Or.inr ⟨rfl, by simpa using List.find?_some hrow, k, hk, rfl⟩
  · unfold Db.insertRow at hrow
    rw [Db.rowById_mapTable_of_ne _ hname] at hrow
    exact Or.inl ⟨row', k, hrow, hk, rfl⟩

/-- The collections and the keys of the records are the same, but for one record's. -/
structure GainsKey (db db' : Db) (table id tokenKey : Text) : Prop where
  collections : db'.collections = db.collections
  signs : ∀ c id' type key, Signs db' c id' type key → Signs db c id' type key ∨
    (c.name = table ∧ id' = id ∧ key = tokenKey ++ tokenSecret c type)

variable {s : State}

/-- A new key keeps the keys of two collections apart. -/
theorem GainsKey.keyed (h : GainsKey s.shared db' table id tokenKey) (hkeyed : Keyed s.shared)
    (hnew : NewKey s tokenKey) (hsuper : ∃ t, db'.tables.get? "_superusers" = some t) :
    Keyed db' := by
  refine ⟨?_, ?_, hsuper⟩
  · rw [h.collections]
    exact hkeyed.names
  · intro c hc c' hc' id' type key hsigns hsigns'
    rw [h.collections] at hc hc'
    rcases h.signs c id' type key hsigns with hold | ⟨hname, -, hkey⟩
    · rcases h.signs c' id' type key hsigns' with hold' | ⟨-, -, hkey'⟩
      · exact hkeyed.keys c hc c' hc' id' type key hold hold'
      · exact absurd (hkey' ▸ hold) ((hnew c' hc' type).1 c hc id')
    · rcases h.signs c' id' type key hsigns' with hold' | ⟨hname', -, -⟩
      · exact absurd (hkey ▸ hold') ((hnew c hc type).1 c' hc' id')
      · exact hkeyed.names c hc c' hc' (hname.trans hname'.symm)

/-- What is spent stays spent when a new key is written. -/
theorem GainsKey.keeps_token (h : GainsKey s.shared db' table id tokenKey)
    (hnew : NewKey s tokenKey) {r : Running} (hr : r ∈ s.procs) (hsucc : r.Succeeded)
    {claims : TokenPayload} {key : Option Text} (hcred : r.credential = .token claims key)
    (hspent : Spent s.shared (.token claims key)) : Spent db' (.token claims key) := by
  intro c hc id' type k hid htype hkey hsigns
  rw [h.collections] at hc
  rcases h.signs c id' type k hsigns with hold | ⟨-, -, rfl⟩
  · exact hspent c hc id' type k hid htype hkey hold
  · exact (hnew c hc type).2 r hr hsucc claims (hcred.trans (by rw [hkey]))

/-- What every checked statement keeps. -/
structure Keeps (s : State) (db' : Db) : Prop where
  keyed : Keyed db'
  tokens : ∀ r ∈ s.procs, r.Succeeded → ∀ claims key, r.credential = .token claims key →
    Spent s.shared (.token claims key) → Spent db' (.token claims key)
  otps : ∀ id, s.shared.rowById "_otps" id = none → db'.rowById "_otps" id = none
  superusers : s.shared.rows "_superusers" ≠ [] → db'.rows "_superusers" ≠ []

theorem keeps_self (hkeyed : Keyed s.shared) : Keeps s s.shared :=
  ⟨hkeyed, fun _ _ _ _ _ _ h => h, fun _ h => h, fun h => h⟩

theorem keeps_deleteOtp (hkeyed : Keyed s.shared) (otpId : Text) :
    Keeps s (s.shared.deleteRow "_otps" otpId) where
  keyed := by
    obtain ⟨t, ht⟩ := hkeyed.superusers
    exact ⟨hkeyed.names, fun c hc c' hc' id type key h h' =>
      hkeyed.keys c hc c' hc' id type key (signs_deleteRow h) (signs_deleteRow h'),
      Db.exists_mapTable _ ht⟩
  tokens r _ _ claims key _ hspent c hc id type k hid htype hkey hsigns :=
    hspent c hc id type k hid htype hkey (signs_deleteRow hsigns)
  otps id hnone := by
    rw [Option.eq_none_iff_forall_ne_some] at hnone ⊢
    exact fun row hrow => hnone row (Db.rowById_deleteRow hrow).2
  superusers h := by
    unfold Db.deleteRow
    rwa [Db.rows_mapTable_of_ne _ (by decide)]

/-- A new key written to a record. -/
theorem gainsKey_updateRow (hid : "id".toList ∉ updates.keys)
    (hkey : ∀ r : Row, (Dict.update r updates).get? "token_key" = some (.text tokenKey)) :
    GainsKey db (db.updateRow c.name id updates) c.name id tokenKey :=
  ⟨rfl, fun _ _ _ _ h => (signs_updateRow hid hkey h).symm.imp_left And.left⟩

theorem keeps_updateRow (hkeyed : Keyed s.shared) (hid : "id".toList ∉ updates.keys)
    (hkey : ∀ r : Row, (Dict.update r updates).get? "token_key" = some (.text tokenKey))
    (hnew : NewKey s tokenKey) : Keeps s (s.shared.updateRow c.name id updates) := by
  have hgains : GainsKey s.shared (s.shared.updateRow c.name id updates) c.name id tokenKey :=
    gainsKey_updateRow hid hkey
  refine ⟨?_, ?_, ?_, ?_⟩
  · obtain ⟨t, ht⟩ := hkeyed.superusers
    exact hgains.keyed hkeyed hnew (Db.exists_mapTable _ ht)
  · exact fun r hr hsucc claims key hcred => hgains.keeps_token hnew hr hsucc hcred
  · intro otpId hnone
    by_cases hname : "_otps".toList = c.name
    · rw [hname] at hnone ⊢
      rw [Db.rowById_updateRow_eq hid, hnone, Option.map_none]
    · unfold Db.updateRow
      rwa [Db.rowById_mapTable_of_ne _ hname]
  · intro hsuper
    by_cases hname : "_superusers".toList = c.name
    · rw [hname] at hsuper ⊢
      rw [Db.rows_updateRow]
      simpa using hsuper
    · unfold Db.updateRow
      rwa [Db.rows_mapTable_of_ne _ hname]

theorem signs_withoutParam {param : Option Text} (h : Signs (withoutParam db param) c id type key) :
    Signs db c id type key := by
  cases param with
  | none => exact h
  | some p => exact signs_deleteRow h

theorem exists_withoutParam (param : Option Text) {t : Table} (h : db.tables.get? table = some t) :
    ∃ t', (withoutParam db param).tables.get? table = some t' := by
  cases param with
  | none => exact ⟨t, h⟩
  | some p => exact Db.exists_mapTable _ h

/-- The new superuser is there after the setup. -/
theorem superusers_insertRow {param : Option Text} (hkeyed : Keyed db) :
    ((withoutParam db param).insertRow "_superusers" row).rows "_superusers" ≠ [] := by
  obtain ⟨t, ht⟩ := hkeyed.superusers
  obtain ⟨t', ht'⟩ := exists_withoutParam param ht
  rw [Db.rows_insertRow ht']
  exact List.append_ne_nil_of_right_ne_nil _ (List.cons_ne_nil _ _)

theorem keeps_init (hkeyed : Keyed s.shared) {email : Text} {param : Option Text}
    (hnew : NewKey s w.tokenKey) :
    Keeps s ((withoutParam s.shared param).insertRow "_superusers" (newAdmin w email password)) := by
  have hgains : GainsKey s.shared
      ((withoutParam s.shared param).insertRow "_superusers" (newAdmin w email password))
      "_superusers" w.newId w.tokenKey := by
    refine ⟨by cases param <;> rfl, ?_⟩
    intro c id type key h
    rcases signs_insertRow h with hold | ⟨hname, hid, k, hk, rfl⟩
    · exact Or.inl (signs_withoutParam hold)
    · obtain rfl : w.tokenKey = k := Value.text.inj hk
      exact Or.inr ⟨hname, (Value.text.inj (Option.some.inj hid)).symm, rfl⟩
  refine ⟨?_, ?_, ?_, ?_⟩
  · obtain ⟨t, ht⟩ := hkeyed.superusers
    obtain ⟨t', ht'⟩ := exists_withoutParam param ht
    exact hgains.keyed hkeyed hnew (Db.exists_mapTable _ ht')
  · exact fun r hr hsucc claims key hcred => hgains.keeps_token hnew hr hsucc hcred
  · intro otpId hnone
    unfold Db.insertRow
    rw [Db.rowById_mapTable_of_ne _ (by decide)]
    cases param with
    | none => exact hnone
    | some p =>
      show (s.shared.deleteRow "_params" p).rowById "_otps" otpId = none
      unfold Db.deleteRow
      rwa [Db.rowById_mapTable_of_ne _ (by decide)]
  · exact fun _ => superusers_insertRow hkeyed

variable {i : ℕ} {r r' : Running}

theorem id_notMem_reset {v w : Value} : "id".toList ∉ Dict.keys [("password_hash".toList, v), ("token_key", w)] := by
  show "id".toList ∉ ["password_hash".toList, "token_key".toList]
  decide

theorem id_notMem_emailChange {u v w : Value} :
    "id".toList ∉ Dict.keys [("email".toList, u), ("verified", v), ("token_key", w)] := by
  show "id".toList ∉ ["email".toList, "verified".toList, "token_key".toList]
  decide

/-- One checked statement. -/
theorem keeps_of_movesChecked (hkeyed : Keyed s.shared) (h : MovesChecked sv s i r db' r') :
    Keeps s db' := by
  obtain ⟨⟨-, -, hnext⟩, hchecked⟩ := h
  obtain ⟨call, phase⟩ := r
  obtain ⟨call', phase'⟩ := r'
  cases writes_of_next hnext with
  | reads => exact keeps_self hkeyed
  | expires => exact keeps_deleteOtp hkeyed _
  | usesOtp => exact keeps_deleteOtp hkeyed _
  | resets =>
    exact keeps_updateRow hkeyed id_notMem_reset (fun r => by simp [Dict.update]) hchecked.2.2
  | changesEmail =>
    exact keeps_updateRow hkeyed id_notMem_emailChange (fun r => by simp [Dict.update]) hchecked.2.2
  | inits => exact keeps_init hkeyed hchecked.2

/-- A record that accepts a token, and none of another collection does. -/
theorem signs_of_tokenRecord {type : Text} {secret : TokenType}
    (h : tokenRecord db c t type secret = .ok (id, row)) :
    t.claims.get? "type" = some (.text type) ∧ t.claims.get? "id" = some (.text id) ∧
      ∃ key, t.key = some key ∧ Signs db c id secret key := by
  obtain ⟨htype, hid, -, hrow, ⟨k, hk, hsigned⟩, -, -⟩ := tokenRecord_eq_ok.1 h
  exact ⟨htype, hid, _, hsigned, row, k, hrow, hk, rfl⟩

/-- Writing a new key to the record a token is for spends the token. -/
theorem spends_token {type : Text} {secret : TokenType} (hkeyed : Keyed s.shared)
    (hc : c ∈ s.shared.collections) (htoken : tokenRecord s.shared c t type secret = .ok (id, row))
    (hpurpose : ∀ claims : TokenPayload, claims.get? "type" = some (.text type) → tokenPurpose claims = some secret)
    (hnew : NewKey s tokenKey) (hid : "id".toList ∉ updates.keys)
    (hkey : ∀ r : Row, (Dict.update r updates).get? "token_key" = some (.text tokenKey)) :
    ¬Spent s.shared (.token t.claims t.key) ∧
      Spent (s.shared.updateRow c.name id updates) (.token t.claims t.key) := by
  obtain ⟨htype, hclaim, key, hsigned, hsigns⟩ := signs_of_tokenRecord htoken
  have hsecret := hpurpose _ htype
  constructor
  · exact fun hspent => hspent c hc id secret key hclaim hsecret hsigned hsigns
  · intro c' hc' id' secret' k hclaim' hsecret' hk hsigns'
    obtain rfl : id = id' := Value.text.inj (Option.some.inj (hclaim.symm.trans hclaim'))
    obtain rfl : secret = secret' := Option.some.inj (hsecret.symm.trans hsecret')
    obtain rfl : key = k := Option.some.inj (hsigned.symm.trans hk)
    rcases signs_updateRow hid hkey hsigns' with ⟨-, -, rfl⟩ | ⟨hold, hother⟩
    · exact (hnew c' hc' secret).1 c hc id hsigns
    · rw [hkeyed.keys c' hc' c hc id secret key hold hsigns] at hother
      exact hother ⟨rfl, rfl⟩

/-- A call that succeeds found its credential unspent and spends it. -/
theorem spends_of_movesChecked (hkeyed : Keyed s.shared) (h : MovesChecked sv s i r db' r')
    (hsucc : r'.Succeeded) : ¬Spent s.shared r.credential ∧ Spent db' r.credential := by
  obtain ⟨⟨-, -, hnext⟩, hchecked⟩ := h
  obtain ⟨call, phase⟩ := r
  obtain ⟨call', phase'⟩ := r'
  cases writes_of_next hnext with
  | reads hphase => exact absurd hsucc hphase
  | expires => cases hsucc
  | @usesOtp c otpId password now row ok =>
    obtain ⟨row', hrow'⟩ := hchecked
    constructor
    · intro hspent
      have hmem := List.mem_of_find?_eq_some hrow'
      have hid := List.find?_some hrow'
      rw [Bool.and_eq_true] at hid
      exact absurd hid.1 (by simpa using List.find?_eq_none.1 hspent row' hmem)
    · refine Option.eq_none_iff_forall_ne_some.2 fun row'' hrow'' => ?_
      exact (Db.rowById_deleteRow hrow'').1 rfl
  | resets =>
    obtain ⟨hc, ⟨row', htoken⟩, hnew⟩ := hchecked
    exact spends_token hkeyed hc htoken (fun claims h => if_pos h) hnew id_notMem_reset
      (fun r => by simp [Dict.update])
  | changesEmail =>
    obtain ⟨hc, ⟨row', htoken⟩, hnew⟩ := hchecked
    refine spends_token hkeyed hc htoken ?_ hnew id_notMem_emailChange
      (fun r => by simp [Dict.update])
    intro claims htype
    unfold tokenPurpose
    rw [htype]
    rfl
  | inits => exact ⟨fun hspent => hspent hchecked.1, superusers_insertRow hkeyed⟩

theorem unshared (sv : Server) :
    Pool.Unshared Starts (MovesChecked sv) Keyed Running.credential Running.Succeeded Spent where
  start_not_finished r hstart hsucc := by
    unfold Starts at hstart
    unfold Running.Succeeded at hsucc
    rw [hstart] at hsucc
    cases hsucc
  move_inv _ _ _ _ _ hkeyed _ h := (keeps_of_movesChecked hkeyed h).keyed
  move_kind _ _ r _ r' h := by
    unfold Running.credential
    rw [h.1.2.1]
  move_finishes _ _ _ _ _ hkeyed h hsucc := spends_of_movesChecked hkeyed h hsucc
  move_keeps _ _ _ _ _ hkeyed h q hq hsucc hspent := by
    have hkeeps := keeps_of_movesChecked hkeyed h
    cases hcred : q.credential with
    | otp id =>
      rw [hcred] at hspent
      exact hkeeps.otps id hspent
    | token claims key =>
      rw [hcred] at hspent
      exact hkeeps.tokens q hq hsucc claims key hcred hspent
    | setup token =>
      rw [hcred] at hspent
      exact hkeeps.superusers hspent

/-- In every run in which each consuming statement finds what its call has checked still so, at
most one call with a credential succeeds. -/
theorem one_success_of_checked (sv : Server) {db : Db} (hkeyed : Keyed db) {s : State}
    (hrun : Pool.Run Starts (MovesChecked sv) ⟨db, []⟩ s) (i j : ℕ) (r r' : Running)
    (hr : s.procs[i]? = some r) (hr' : s.procs[j]? = some r') (hsucc : r.Succeeded)
    (hsucc' : r'.Succeeded) (hsame : r.credential = r'.credential) : i = j :=
  ((unshared sv).finished_unique hrun hkeyed rfl).unique i j r r' hr hr' hsucc hsucc' hsame

end

/-- Users who sign in with an OTP. -/
def otpUsers : Collection where
  id := "users"
  name := "users"
  type := .auth

def otpDb : Db where
  collections := [otpUsers]
  tables := [
    ("users", ⟨["id", "token_key"], [[("id", .text "u1"), ("token_key", .text "k")]]⟩),
    ("_otps", ⟨["id", "collectionRef", "recordRef", "password", "created"],
      [[("id", .text "o1"), ("collectionRef", .text "users"), ("recordRef", .text "u1"),
        ("password", .text "123"), ("created", .time 0)]]⟩),
    ("_superusers", ⟨["id"], []⟩)]

/-- A server that compares passwords as they are. -/
def plainServer : Server where
  rt := Runtime.simple
  verify p h := p = h
  otpDuration _ := 180

/-- A call with the OTP that was sent. -/
def otpCall : Call := .otp otpUsers "o1" "123" 1

theorem keyed_otpDb : Keyed otpDb where
  names _ hc _ hc' _ := (List.mem_singleton.1 hc).trans (List.mem_singleton.1 hc').symm
  keys _ hc _ hc' _ _ _ _ _ := (List.mem_singleton.1 hc).trans (List.mem_singleton.1 hc').symm
  superusers := ⟨_, rfl⟩

/-- The row of the user who signs in. -/
def otpUser : Row := [("id", .text "u1"), ("token_key", .text "k")]

/-- One call goes through, a second is refused, and no other with the OTP goes through. -/
theorem otp_signs_in_once : ∃ s r, Pool.Run Starts (MovesChecked plainServer) ⟨otpDb, []⟩ s ∧
    s.procs[0]? = some r ∧ r.Succeeded ∧ s.procs[1]? = some ⟨otpCall, .ended false⟩ ∧
    ∀ (j : ℕ) (r' : Running), s.procs[j]? = some r' → r'.Succeeded →
      r.credential = r'.credential → 0 = j := by
  let at' (phase : Phase) : State := ⟨otpDb, [⟨otpCall, phase⟩]⟩
  have h₀ : Pool.Step Starts (MovesChecked plainServer) ⟨otpDb, []⟩ (at' .begun) := .arrive rfl
  have h₁ : Pool.Step Starts (MovesChecked plainServer) (at' .begun) (at' (.otpRead (.text "u1"))) :=
    .move (i := 0) rfl ⟨⟨rfl, rfl, rfl⟩, trivial⟩
  have h₂ : Pool.Step Starts (MovesChecked plainServer) (at' (.otpRead (.text "u1")))
      (at' (.rowRead otpUser)) := .move (i := 0) rfl ⟨⟨rfl, rfl, rfl⟩, trivial⟩
  have h₃ : Pool.Step Starts (MovesChecked plainServer) (at' (.rowRead otpUser))
      ⟨otpDb.deleteRow "_otps" "o1", [⟨otpCall, .ended true⟩]⟩ :=
    .move (i := 0) rfl ⟨⟨rfl, rfl, rfl⟩, _, rfl⟩
  let after (phase : Phase) : State :=
    ⟨otpDb.deleteRow "_otps" "o1", [⟨otpCall, .ended true⟩, ⟨otpCall, phase⟩]⟩
  have h₄ : Pool.Step Starts (MovesChecked plainServer)
      ⟨otpDb.deleteRow "_otps" "o1", [⟨otpCall, .ended true⟩]⟩ (after .begun) := .arrive rfl
  have h₅ : Pool.Step Starts (MovesChecked plainServer) (after .begun) (after (.ended false)) :=
    .move (i := 1) rfl ⟨⟨rfl, rfl, rfl⟩, trivial⟩
  have hrun := (((((Relation.ReflTransGen.single h₀).tail h₁).tail h₂).tail h₃).tail h₄).tail h₅
  refine ⟨_, _, hrun, rfl, rfl, rfl, ?_⟩
  exact fun j r' hr' hsucc' hsame =>
    one_success_of_checked plainServer keyed_otpDb hrun 0 j _ r' rfl hr' rfl hsucc' hsame

/-- Two calls that have both read the OTP before either deletes it both go through. -/
theorem otp_signs_in_twice : ¬∀ s, Pool.Run Starts (Moves plainServer) ⟨otpDb, []⟩ s →
    ∀ (i j : ℕ) (r r' : Running), s.procs[i]? = some r → s.procs[j]? = some r' → r.Succeeded →
      r'.Succeeded → r.credential = r'.credential → i = j := by
  intro h
  let at' (a b : Phase) : State := ⟨otpDb, [⟨otpCall, a⟩, ⟨otpCall, b⟩]⟩
  have h₀ : Pool.Step Starts (Moves plainServer) ⟨otpDb, []⟩ ⟨otpDb, [⟨otpCall, .begun⟩]⟩ :=
    .arrive rfl
  have h₁ : Pool.Step Starts (Moves plainServer) ⟨otpDb, [⟨otpCall, .begun⟩]⟩ (at' .begun .begun) :=
    .arrive rfl
  have h₂ : Pool.Step Starts (Moves plainServer) (at' .begun .begun)
      (at' (.otpRead (.text "u1")) .begun) := .move (i := 0) rfl ⟨rfl, rfl, rfl⟩
  have h₃ : Pool.Step Starts (Moves plainServer) (at' (.otpRead (.text "u1")) .begun)
      (at' (.otpRead (.text "u1")) (.otpRead (.text "u1"))) := .move (i := 1) rfl ⟨rfl, rfl, rfl⟩
  have h₄ : Pool.Step Starts (Moves plainServer) (at' (.otpRead (.text "u1")) (.otpRead (.text "u1")))
      (at' (.rowRead otpUser) (.otpRead (.text "u1"))) := .move (i := 0) rfl ⟨rfl, rfl, rfl⟩
  have h₅ : Pool.Step Starts (Moves plainServer) (at' (.rowRead otpUser) (.otpRead (.text "u1")))
      (at' (.rowRead otpUser) (.rowRead otpUser)) := .move (i := 1) rfl ⟨rfl, rfl, rfl⟩
  have h₆ : Pool.Step Starts (Moves plainServer) (at' (.rowRead otpUser) (.rowRead otpUser))
      ⟨otpDb.deleteRow "_otps" "o1", [⟨otpCall, .ended true⟩, ⟨otpCall, .rowRead otpUser⟩]⟩ :=
    .move (i := 0) rfl ⟨rfl, rfl, rfl⟩
  have h₇ : Pool.Step Starts (Moves plainServer)
      ⟨otpDb.deleteRow "_otps" "o1", [⟨otpCall, .ended true⟩, ⟨otpCall, .rowRead otpUser⟩]⟩
      ⟨(otpDb.deleteRow "_otps" "o1").deleteRow "_otps" "o1",
        [⟨otpCall, .ended true⟩, ⟨otpCall, .ended true⟩]⟩ := .move (i := 1) rfl ⟨rfl, rfl, rfl⟩
  have hrun := (((((((Relation.ReflTransGen.single h₀).tail h₁).tail h₂).tail h₃).tail h₄).tail
    h₅).tail h₆).tail h₇
  exact absurd (h _ hrun 0 1 _ _ rfl rfl rfl rfl rfl) (by decide)

end OneTime

end PPBase
