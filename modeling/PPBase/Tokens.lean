import PPBase.AuthFlows
import PPBase.Response

/-!
# The purposes of tokens

Five functions mint tokens and five verifiers take them. The `type` claim keeps the three
mailed tokens apart from each other and from the rest, and the `for` claim keeps sessions away
from the file verifier. Nothing but the key keeps a file token away from the session
verifiers : they do not read `for`. `minted_accepted_iff` : every token is accepted by the
verifier of its own purpose only, unless it is a file token and the key it is signed with is
the session key of its subject.
-/

namespace PPBase

namespace Tokens

open Session AuthFlows

/-- Whom a session or a file token is for. -/
inductive Subject
  | admin (id : Text)
  | record (collectionId id : Text)
  deriving DecidableEq

/-- The subject of verified or unverified claims, as the file token functions read them. -/
def subjectOf (rt : Runtime) (claims : TokenPayload) : Option Subject :=
  let type := Response.strOrEmpty rt (claims.get? "type")
  let id := Response.strOrEmpty rt (claims.get? "id")
  let collectionId := Response.strOrEmpty rt (claims.get? "collectionId")
  if type = [] ∨ id = [] then none
  else if type = "admin".toList then some (.admin id)
  else if type = "authRecord".toList then
    if collectionId = [] then none else some (.record collectionId id)
  else none

/-- `get_superusers_collection` -/
def superusersCollection (db : Db) : Option Collection :=
  db.collections.find? fun c => c.name = "_superusers".toList

/-- `_get_auth_record_token_key` -/
def authRecordTokenKey (rt : Runtime) (db : Db) (c : Collection) (id : Text) :
    Except SessionError (Option Text) :=
  (selectTokenKey db c.name id).map fun row? =>
    row?.bind fun row =>
      match (row.get? "token_key").getD .null with
      | .null => none
      | v => some (Macros.idText rt v)

/-- The key of a subject's file tokens, if it has one. -/
def fileKey (rt : Runtime) (db : Db) : Subject → Except SessionError (Option Text)
  | .admin id =>
    match db.rowById "_superusers" id, superusersCollection db with
    | some admin, some c =>
      .ok (some (Macros.idText rt ((admin.get? "token_key").getD .null) ++ tokenSecret c .fileToken))
    | _, _ => .ok none
  | .record collectionId id =>
    match collectionById db collectionId with
    | none => .ok none
    | some c => (authRecordTokenKey rt db c id).map fun k? =>
        k?.bind fun k => if k = [] then none else some (k ++ tokenSecret c .fileToken)

/-- The claims of a subject's file tokens. -/
def fileClaims : Subject → TokenPayload
  | .admin id => [("id", .text id), ("type", .text "admin"), ("for", .text "file")]
  | .record collectionId id =>
    [("id", .text id), ("type", .text "authRecord"), ("collectionId", .text collectionId),
      ("for", .text "file")]

/-- `create_file_token_for_auth` : nothing where it raises a `ValueError`. -/
def createFileTokenForAuth (rt : Runtime) (db : Db) (auth : TokenPayload) :
    Except SessionError (Option SignedToken) :=
  match subjectOf rt auth with
  | none => .ok none
  | some s => (fileKey rt db s).map (Option.map (createToken (fileClaims s)))

/-- The identity `verify_file_token` returns. -/
def identity (db : Db) : Subject → TokenPayload
  | .admin id =>
    [("id", .text id), ("email", ((db.rowById "_superusers" id).bind (Dict.get? · "email")).getD .null),
      ("type", .text "admin")]
  | .record collectionId id =>
    [("id", .text id), ("type", .text "authRecord"), ("collectionId", .text collectionId),
      ("collectionName", .text (((collectionById db collectionId).map Collection.name).getD []))]

/-- `verify_file_token` -/
def verifyFileToken (rt : Runtime) (db : Db) (t : SignedToken) :
    Except SessionError (Option TokenPayload) :=
  if t.claims.get? "for" ≠ some (.text "file") then .ok none
  else match subjectOf rt t.claims with
    | none => .ok none
    | some s => (fileKey rt db s).map fun key? =>
        (key?.bind t.decode).map fun _ => identity db s

/-! ## Purposes -/

inductive Purpose
  | session | file | verification | passwordReset | emailChange
  deriving DecidableEq

/-- The tokens minted in a state. The mailed tokens are taken with any arguments. -/
inductive Mints (rt : Runtime) (db : Db) : Purpose → SignedToken → Prop
  | session {row : Row} {c : Collection} {refreshable : Bool} {t : SignedToken}
      (h : createRecordAuthToken row c refreshable = .ok t) : Mints rt db .session t
  | file {auth : TokenPayload} {t : SignedToken}
      (h : createFileTokenForAuth rt db auth = .ok (some t)) : Mints rt db .file t
  | verification (id collectionId email : Value) (key : Text) :
      Mints rt db .verification (createVerificationToken id collectionId email key)
  | passwordReset (id collectionId email : Value) (key : Text) :
      Mints rt db .passwordReset (createPasswordResetToken id collectionId email key)
  | emailChange (id collectionId email newEmail : Value) (key : Text) :
      Mints rt db .emailChange (createEmailChangeToken id collectionId email newEmail key)

/-- The token is accepted by a verifier of the purpose. -/
inductive Accepts (rt : Runtime) (settingsSecret : Text) (db : Db) (t : SignedToken) :
    Purpose → Prop
  | optionalAuth {p : TokenPayload} (h : authenticate settingsSecret db t = .ok (some p)) :
      Accepts rt settingsSecret db t .session
  | recordAuth {c : Collection} {p : TokenPayload} (hc : collectionById db c.id = some c)
      (h : verifyRecordAuthToken db c t = .ok (some p)) : Accepts rt settingsSecret db t .session
  | file {p : TokenPayload} (h : verifyFileToken rt db t = .ok (some p)) :
      Accepts rt settingsSecret db t .file
  | verification {c : Collection} {db' : Db} (h : confirmVerification db c t = .ok db') :
      Accepts rt settingsSecret db t .verification
  | passwordReset {w : Writer} {c : Collection} {password confirm : Text} {db' : Db}
      (h : confirmPasswordReset w db c t password confirm = .ok db') :
      Accepts rt settingsSecret db t .passwordReset
  | emailChange {w : Writer} {verify : Text → Text → Bool} {c : Collection} {password : Text}
      {db' : Db} (h : confirmEmailChange w verify rt db c t password = .ok db') :
      Accepts rt settingsSecret db t .emailChange

/-- A key under which sessions of the subject are verified. -/
inductive SessionKey (settingsSecret : Text) (db : Db) : Subject → Text → Prop
  | admin {id k : Text} {row : Row} (hrow : db.rowById "_superusers" id = some row)
      (hk : row.get? "token_key" = some (.text k)) :
      SessionKey settingsSecret db (.admin id) (k ++ adminSecret settingsSecret db)
  | record {id k : Text} {row : Row} {c : Collection} (hc : collectionById db c.id = some c)
      (hrow : db.rowById c.name id = some row) (hk : rowTokenKey row = .text k) :
      SessionKey settingsSecret db (.record c.id id) (k ++ tokenSecret c .authToken)

/-- The `type` and `for` claims that a verifier of the purpose looks for. -/
def Marked (type purpose : Option Value) : Purpose → Prop
  | .session => normalizeType type = some (.text "admin") ∨
      normalizeType type = some (.text "authRecord")
  | .file => purpose = some (.text "file")
  | .verification => type = some (.text "verification")
  | .passwordReset => type = some (.text "passwordReset")
  | .emailChange => type = some (.text "emailChange")

instance (type purpose : Option Value) (q : Purpose) : Decidable (Marked type purpose q) := by
  cases q <;> unfold Marked <;> infer_instance

section

variable {rt : Runtime} {settingsSecret : Text} {db : Db} {t : SignedToken}

theorem marked_of_verifyRecordAuthToken {c : Collection} {p : TokenPayload}
    (h : verifyRecordAuthToken db c t = .ok (some p)) : Marked (t.claims.get? "type") (t.claims.get? "for") .session := by
  unfold verifyRecordAuthToken at h
  dsimp only at h
  by_cases htype : takesType c (normalizeType (t.claims.get? "type")) = false
  · rw [if_pos htype] at h
    cases h
  unfold takesType at htype
  rw [Bool.not_eq_false, Bool.or_eq_true, Bool.and_eq_true] at htype
  rcases htype with hrecord | ⟨-, hadmin⟩
  · exact Or.inr (of_decide_eq_true hrecord)
  · exact Or.inl (of_decide_eq_true hadmin)

theorem marked_of_authenticate {p : TokenPayload}
    (h : authenticate settingsSecret db t = .ok (some p)) : Marked (t.claims.get? "type") (t.claims.get? "for") .session := by
  unfold authenticate at h
  dsimp only at h
  split_ifs at h with hid hadmin hrecord
  · cases h
  · exact Or.inl hadmin
  · exact Or.inr hrecord
  · exact Or.inr hrecord
  · cases h

/-- A verifier accepts only what is marked for it. -/
theorem marked_of_accepts {q : Purpose} (h : Accepts rt settingsSecret db t q) :
    Marked (t.claims.get? "type") (t.claims.get? "for") q := by
  cases h with
  | optionalAuth h => exact marked_of_authenticate h
  | recordAuth _ h => exact marked_of_verifyRecordAuthToken h
  | file h =>
    unfold verifyFileToken at h
    split_ifs at h with hfor
    · cases h
    · exact not_not.1 hfor
  | verification h =>
    obtain ⟨⟨id, row⟩, hrecord, -⟩ := Failing.bind_eq_ok.1 h
    exact (tokenRecord_eq_ok.1 hrecord).1
  | passwordReset h =>
    unfold confirmPasswordReset at h
    split_ifs at h
    obtain ⟨⟨id, row⟩, hrecord, -⟩ := Failing.bind_eq_ok.1 h
    exact (tokenRecord_eq_ok.1 hrecord).1
  | emailChange h =>
    obtain ⟨⟨id, row⟩, hrecord, -⟩ := Failing.bind_eq_ok.1 h
    exact (tokenRecord_eq_ok.1 hrecord).1

/-- The claims of a file token. -/
theorem of_createFileTokenForAuth {auth : TokenPayload}
    (h : createFileTokenForAuth rt db auth = .ok (some t)) :
    ∃ s key, subjectOf rt auth = some s ∧ fileKey rt db s = .ok (some key) ∧
      t = createToken (fileClaims s) key := by
  unfold createFileTokenForAuth at h
  cases hs : subjectOf rt auth with
  | none =>
    rw [hs] at h
    cases h
  | some s =>
    rw [hs] at h
    obtain ⟨key?, hkey, h⟩ := Failing.map_eq_ok.1 h
    obtain ⟨key, rfl, rfl⟩ := Option.map_eq_some_iff.1 h
    exact ⟨s, key, rfl, hkey, rfl⟩

/-- The claims of a minted token say what it is for; a file token is marked as a session too. -/
theorem eq_of_marked {q q' : Purpose} (h : Mints rt db q t)
    (hq : Marked (t.claims.get? "type") (t.claims.get? "for") q') :
    q' = q ∨ q = .file ∧ q' = .session := by
  cases h with
  | session h =>
    obtain ⟨key, -, rfl⟩ := Failing.map_eq_ok.1 h
    have hq : Marked (some (.text "authRecord")) none q' := hq
    cases q' <;> revert hq <;> decide
  | file h =>
    obtain ⟨s, key, -, -, rfl⟩ := of_createFileTokenForAuth h
    cases s with
    | admin id =>
      have hq : Marked (some (.text "admin")) (some (.text "file")) q' := hq
      cases q' <;> revert hq <;> decide
    | record collectionId id =>
      have hq : Marked (some (.text "authRecord")) (some (.text "file")) q' := hq
      cases q' <;> revert hq <;> decide
  | verification id collectionId email key =>
    have hq : Marked (some (.text "verification")) none q' := hq
    cases q' <;> revert hq <;> decide
  | passwordReset id collectionId email key =>
    have hq : Marked (some (.text "passwordReset")) none q' := hq
    cases q' <;> revert hq <;> decide
  | emailChange id collectionId email newEmail key =>
    have hq : Marked (some (.text "emailChange")) none q' := hq
    cases q' <;> revert hq <;> decide

/-- A subject as the file token functions read it. -/
def Subject.Named : Subject → Prop
  | .admin id => id ≠ []
  | .record collectionId id => collectionId ≠ [] ∧ id ≠ []

theorem named_subjectOf {claims : TokenPayload} {s : Subject} (h : subjectOf rt claims = some s) :
    s.Named := by
  unfold subjectOf at h
  dsimp only at h
  split_ifs at h with hempty hadmin hrecord hcoll
  · obtain rfl := Option.some.inj h
    exact fun hid => hempty (Or.inr hid)
  · obtain rfl := Option.some.inj h
    exact ⟨hcoll, fun hid => hempty (Or.inr hid)⟩

theorem truthy_of_ne_nil {s : Text} (h : s ≠ []) : ¬(Value.text s).truthy = false :=
  mt truthy_text.1 h

/-- `get_optional_auth` reads a file token of an admin as a session. -/
theorem authenticate_admin_file {id : Text} (hid : id ≠ []) (hclaims : t.claims = fileClaims (.admin id)) :
    authenticate settingsSecret db t = authenticateAdmin settingsSecret db t (.text id) := by
  have hidClaim : t.claims.get? "id" = some (.text id) := by rw [hclaims]; rfl
  have htype : t.claims.get? "type" = some (.text "admin") := by rw [hclaims]; rfl
  unfold authenticate
  dsimp only
  rw [hidClaim, htype, Option.getD_some, if_neg (truthy_of_ne_nil hid), if_pos (by decide)]

/-- And one of a record. -/
theorem authenticate_record_file {collectionId id : Text} (hcoll : collectionId ≠ []) (hid : id ≠ [])
    (hclaims : t.claims = fileClaims (.record collectionId id)) :
    authenticate settingsSecret db t = authenticateRecord db t (.text id) (.text collectionId) := by
  have hidClaim : t.claims.get? "id" = some (.text id) := by rw [hclaims]; rfl
  have htype : t.claims.get? "type" = some (.text "authRecord") := by rw [hclaims]; rfl
  have hcollClaim : t.claims.get? "collectionId" = some (.text collectionId) := by rw [hclaims]; rfl
  unfold authenticate
  dsimp only
  rw [hidClaim, htype, hcollClaim, Option.getD_some, Option.getD_some,
    if_neg (truthy_of_ne_nil hid), if_neg (by decide), if_pos (by decide),
    if_neg (truthy_of_ne_nil hcoll)]

/-- A session verifier accepts a file token exactly if it is signed with a session key of its
subject. -/
theorem accepts_session_iff {s : Subject} (hs : s.Named) (hclaims : t.claims = fileClaims s) :
    Accepts rt settingsSecret db t .session ↔
      t.current = true ∧ ∃ key, t.key = some key ∧ SessionKey settingsSecret db s key := by
  cases s with
  | admin id =>
    constructor
    · intro h
      cases h with
      | optionalAuth h =>
        rw [authenticate_admin_file hs hclaims] at h
        obtain ⟨i, row, k, hi, hrow, hk, hsigned, hcur, -⟩ := authenticateAdmin_eq_ok.1 h
        obtain rfl := Value.text.inj hi
        exact ⟨hcur, _, hsigned, .admin hrow hk⟩
      | recordAuth hc h =>
        -- An admin's file token names no collection.
        have hcoll := (verifyRecordAuthToken_accepts.1 ⟨_, h⟩).2.1
        rw [hclaims] at hcoll
        cases hcoll
    · rintro ⟨hcur, key, hsigned, hkey⟩
      cases hkey with
      | admin hrow hk =>
        refine .optionalAuth (p := t.claims) ?_
        rw [authenticate_admin_file hs hclaims]
        exact authenticateAdmin_eq_ok.2 ⟨id, _, _, rfl, hrow, hk, hsigned, hcur, rfl⟩
  | record collectionId id =>
    obtain ⟨hcoll, hid⟩ := hs
    constructor
    · intro h
      cases h with
      | optionalAuth h =>
        rw [authenticate_record_file hcoll hid hclaims] at h
        obtain ⟨c, cid, i, tbl, row, k, hcid, hc, hi, -, -, hrow, hk, hsigned, hcur, -⟩ :=
          authenticateRecord_eq_ok.1 h
        obtain rfl := Value.text.inj hi
        have hcid' : c.id = cid := by simpa using List.find?_some hc
        obtain rfl : collectionId = c.id := (Value.text.inj hcid).trans hcid'.symm
        refine ⟨hcur, _, hsigned, .record (hcid' ▸ hc) hrow ?_⟩
        unfold rowTokenKey
        rw [hk, Option.getD_some]
      | @recordAuth c p hc h =>
        obtain ⟨-, hcollClaim, i, row, hi, -, hrow, ⟨k, hk, hsigned⟩, hcur⟩ :=
          verifyRecordAuthToken_accepts.1 ⟨_, h⟩
        rw [hclaims] at hcollClaim hi
        obtain rfl : collectionId = c.id := Value.text.inj (Option.some.inj hcollClaim)
        obtain rfl : id = i := Value.text.inj (Option.some.inj hi)
        exact ⟨hcur, _, hsigned, .record hc hrow hk⟩
    · rintro ⟨hcur, key, hsigned, hkey⟩
      cases hkey with
      | @record _ k row c hc hrow hk =>
        have htype : takesType c (normalizeType (t.claims.get? "type")) = true := by
          rw [hclaims]
          rfl
        obtain ⟨p, hp⟩ := verifyRecordAuthToken_accepts.2 ⟨htype, by rw [hclaims]; rfl, id, row,
          by rw [hclaims]; rfl, hid, hrow, ⟨k, hk, hsigned⟩, hcur⟩
        exact .recordAuth hc hp

/-- The file token of a subject is signed, when it is minted, with what is a session key of
the subject when it is presented. -/
def SharesSessionKey (rt : Runtime) (settingsSecret : Text) (minting presenting : Db)
    (claims : TokenPayload) : Prop :=
  ∃ s key, claims = fileClaims s ∧ fileKey rt minting s = .ok (some key) ∧
    SessionKey settingsSecret presenting s key

theorem fileClaims_injective : Function.Injective fileClaims := by
  intro s s' h
  have htype : (fileClaims s).get? "type".toList = (fileClaims s').get? "type".toList := by rw [h]
  have hid : (fileClaims s).get? "id".toList = (fileClaims s').get? "id".toList := by rw [h]
  have hcoll : (fileClaims s).get? "collectionId".toList =
      (fileClaims s').get? "collectionId".toList := by rw [h]
  cases s with
  | admin id =>
    cases s' with
    | admin id' => exact congrArg _ (Value.text.inj (Option.some.inj hid))
    | record collectionId' id' => exact absurd (Value.text.inj (Option.some.inj htype)) (by decide)
  | record collectionId id =>
    cases s' with
    | admin id' => exact absurd (Value.text.inj (Option.some.inj htype)) (by decide)
    | record collectionId' id' =>
      exact congrArg₂ _ (Value.text.inj (Option.some.inj hcoll)) (Value.text.inj (Option.some.inj hid))

/-- A token minted in one state and presented in another, expired or not, is accepted by the
verifiers of its own purpose only, unless it is a file token, has not expired, and its key is
a session key of its subject. -/
theorem minted_accepted_iff {minting : Db} {q : Purpose} (h : Mints rt minting q t)
    (current : Bool) :
    (∀ q', Accepts rt settingsSecret db { t with current := current } q' → q' = q) ↔
      ¬(q = .file ∧ current = true ∧ SharesSessionKey rt settingsSecret minting db t.claims) := by
  constructor
  · rintro hown ⟨rfl, hcur, s, key, hclaims, hkey, hsession⟩
    cases h with
    | file h =>
      obtain ⟨s', key', hs', hkey', rfl⟩ := of_createFileTokenForAuth h
      obtain rfl := fileClaims_injective hclaims
      obtain rfl : key' = key := Option.some.inj (Except.ok.inj (hkey'.symm.trans hkey))
      have haccept : Accepts rt settingsSecret db
          { createToken (fileClaims s') key' with current := current } .session :=
        (accepts_session_iff (named_subjectOf hs') rfl).2 ⟨hcur, key', rfl, hsession⟩
      exact absurd (hown .session haccept) (by decide)
  · intro hnot q' haccept
    have hmarked := marked_of_accepts haccept
    rcases eq_of_marked h hmarked with hq | ⟨rfl, rfl⟩
    · exact hq
    · cases h with
      | file h =>
        obtain ⟨s, key, hs, hkey, rfl⟩ := of_createFileTokenForAuth h
        obtain ⟨hcur, key', hsigned, hsession⟩ :=
          (accepts_session_iff (named_subjectOf hs) rfl).1 haccept
        obtain rfl : key = key' := Option.some.inj hsigned
        exact absurd ⟨rfl, hcur, s, key, rfl, hkey, hsession⟩ hnot

/-- In one state, the two keys of a record are the same exactly if its collection has the same
secret for both, or neither. -/
theorem fileKey_sessionKey_iff {c : Collection} {id k : Text} {tbl : Table} {row : Row}
    (hc : collectionById db c.id = some c) (htbl : db.tables.get? c.name = some tbl)
    (hcol : "token_key".toList ∈ tbl.columns) (hrow : db.rowById c.name id = some row)
    (hk : row.get? "token_key" = some (.text k)) (hne : k ≠ []) :
    SharesSessionKey rt settingsSecret db db (fileClaims (.record c.id id)) ↔
      tokenSecret c .fileToken = tokenSecret c .authToken := by
  have hkey : fileKey rt db (.record c.id id) = .ok (some (k ++ tokenSecret c .fileToken)) := by
    simp only [fileKey, hc, authRecordTokenKey, selectTokenKey_eq_ok.2 ⟨tbl, htbl, hcol, hrow⟩,
      Except.map, Option.bind_some, hk, Option.getD_some, Macros.idText, hne, if_false]
  have hrowKey : rowTokenKey row = .text k := by
    unfold rowTokenKey
    rw [hk, Option.getD_some]
  constructor
  · rintro ⟨s, key, hclaims, hfile, hsession⟩
    obtain rfl := fileClaims_injective hclaims
    obtain rfl : k ++ tokenSecret c .fileToken = key :=
      Option.some.inj (Except.ok.inj (hkey.symm.trans hfile))
    generalize hsame : k ++ tokenSecret c .fileToken = key at hsession
    generalize hcid : c.id = cid at hsession
    cases hsession with
    | @record _ k' row' c' hc' hrow' hk' =>
      rw [← hcid, hc] at hc'
      obtain rfl := Option.some.inj hc'
      obtain rfl := Option.some.inj (hrow.symm.trans hrow')
      obtain rfl : k = k' := Value.text.inj (hrowKey.symm.trans hk')
      exact List.append_cancel_left hsame
  · intro hsecret
    refine ⟨_, _, rfl, hkey, ?_⟩
    rw [hsecret]
    exact .record hc hrow hrowKey

end

/-- Users whose collection has these secrets. -/
def usersWith (secret : TokenType → Option Text) : Collection where
  id := "users"
  name := "users"
  type := .auth
  options := { secret := secret }

def userDb (secret : TokenType → Option Text) : Db where
  collections := [usersWith secret]
  tables := [("users", ⟨["id", "token_key"], [[("id", .text "u1"), ("token_key", .text "k")]]⟩)]

def userAuth : TokenPayload :=
  [("id", .text "u1"), ("type", .text "authRecord"), ("collectionId", .text "users")]

/-- Two different secrets, and none else. -/
def twoSecrets : TokenType → Option Text
  | .authToken => some "a"
  | .fileToken => some "f"
  | _ => none

/-- With them the file token of the user is a file token only. -/
theorem file_token_of_two_secrets :
    createFileTokenForAuth Runtime.simple (userDb twoSecrets) userAuth =
        .ok (some (createToken (fileClaims (.record "users" "u1")) "kf")) ∧
      ∀ q', Accepts Runtime.simple [] (userDb twoSecrets)
        { createToken (fileClaims (.record "users" "u1")) "kf" with current := true } q' →
          q' = .file := by
  have hmint : createFileTokenForAuth Runtime.simple (userDb twoSecrets) userAuth =
      .ok (some (createToken (fileClaims (.record "users" "u1")) "kf")) := rfl
  refine ⟨hmint, (minted_accepted_iff (.file hmint) true).2 ?_⟩
  rintro ⟨-, -, hshares⟩
  have hsame := (fileKey_sessionKey_iff (c := usersWith twoSecrets) rfl rfl (by decide) rfl rfl
    (by decide)).1 hshares
  exact absurd hsame (by decide)

/-- Without secrets it is a session. -/
theorem file_token_signs_in :
    ¬∀ db q t, Mints Runtime.simple db q t → ∀ q', Accepts Runtime.simple [] db t q' → q' = q := by
  intro h
  have hmint : createFileTokenForAuth Runtime.simple (userDb fun _ => none) userAuth =
      .ok (some (createToken (fileClaims (.record "users" "u1")) "k")) := rfl
  have hsession : authenticate [] (userDb fun _ => none)
      (createToken (fileClaims (.record "users" "u1")) "k") =
        .ok (some (fileClaims (.record "users" "u1"))) := rfl
  exact absurd (h _ _ _ (.file hmint) _ (.optionalAuth hsession)) (by decide)

end Tokens

end PPBase
