import PPBase.Failing
import PPBase.Rules

/-!
# Session tokens

`get_optional_auth` reads the claims of a token unverified, takes the collection and the
record they name, and verifies the token with the record's `token_key` followed by the
collection's secret. The collection need not be an auth collection : any table with such a
column will do. `sessions_authentic_iff` : a record identity is always one of an auth
collection, and nobody without a session key is let in, exactly if no other collection holds
a text under `token_key`.
-/

namespace PPBase

/-- A token as `jwt` reads it : its claims, the key its signature verifies under, and whether
its registered claims are in order. -/
structure SignedToken where
  claims : TokenPayload
  key : Option Text
  current : Bool

/-- `jwt.decode(token, key, algorithms=["HS256"])` -/
def SignedToken.decode (t : SignedToken) (key : Text) : Option TokenPayload :=
  if t.key = some key ∧ t.current = true then some t.claims else none

/-- `get_collection_token_config` : the secret. -/
def tokenSecret (c : Collection) (type : TokenType) : Text := (c.options.secret type).getD []

namespace Session

/-- A query the database refuses, or an operation Python refuses. -/
inductive SessionError
  | query | type
  deriving DecidableEq

/-- The token of an `Authorization` header. -/
def bearerToken (header : Text) : Option Text :=
  let token :=
    match Text.afterPrefix? "bearer " (Text.lower header) with
    | some _ => header.drop 7
    | none => header
  if Text.strip token = [] then none else some (Text.strip token)

/-- `normalize_auth_token_type` -/
def normalizeType (type : Option Value) : Option Value :=
  if type = some (.text "auth") then some (.text "authRecord") else type

/-- A parameter compared with a text column : other types are refused. -/
def textParam : Value → Except SessionError Text
  | .text s => .ok s
  | _ => .error .query

/-- `token_key + secret` -/
def signingKey (tokenKey : Option Value) (secret : Text) : Except SessionError Text :=
  match tokenKey with
  | some (.text k) => .ok (k ++ secret)
  | _ => .error .type

/-- The secret of an admin's tokens. -/
def adminSecret (settingsSecret : Text) (db : Db) : Text :=
  match db.collections.find? fun c => c.name = "_superusers".toList with
  | some c => tokenSecret c .authToken
  | none => settingsSecret

/-- The collection with this id. -/
def collectionById (db : Db) (id : Text) : Option Collection :=
  db.collections.find? fun c => c.id = id

/-- `SELECT "token_key" FROM table WHERE "id" = :rid LIMIT 1` -/
def selectTokenKey (db : Db) (table id : Text) : Except SessionError (Option Row) :=
  match db.tables.get? table with
  | none => .error .query
  | some t => if "token_key".toList ∈ t.columns then .ok (db.rowById table id) else .error .query

/-- `get_optional_auth`, for an admin token. -/
def authenticateAdmin (settingsSecret : Text) (db : Db) (t : SignedToken) (id : Value) :
    Except SessionError (Option TokenPayload) := do
  match db.rowById "_superusers" (← textParam id) with
  | none => return none
  | some admin =>
    return t.decode (← signingKey (admin.get? "token_key") (adminSecret settingsSecret db))

/-- `get_optional_auth`, for a record's token. -/
def authenticateRecord (db : Db) (t : SignedToken) (id collectionId : Value) :
    Except SessionError (Option TokenPayload) := do
  match collectionById db (← textParam collectionId) with
  | none => return none
  | some c =>
    match ← selectTokenKey db c.name (← textParam id) with
    | none => return none
    | some row =>
      let key ← signingKey (row.get? "token_key") (tokenSecret c .authToken)
      return (t.decode key).map fun p => p.set "type" (.text "authRecord")

/-- `get_optional_auth`, once the token is read. -/
def authenticate (settingsSecret : Text) (db : Db) (t : SignedToken) :
    Except SessionError (Option TokenPayload) :=
  let id := (t.claims.get? "id").getD .null
  let collectionId := (t.claims.get? "collectionId").getD .null
  if id.truthy = false then .ok none
  else if normalizeType (t.claims.get? "type") = some (.text "admin") then
    authenticateAdmin settingsSecret db t id
  else if normalizeType (t.claims.get? "type") = some (.text "authRecord") then
    if collectionId.truthy = false then .ok none
    else authenticateRecord db t id collectionId
  else .ok none

/-- `get_optional_auth` -/
def getOptionalAuth (read : Text → Option SignedToken) (settingsSecret : Text) (db : Db)
    (header : Text) : Except SessionError (Option TokenPayload) :=
  match (bearerToken header).bind read with
  | none => .ok none
  | some t => authenticate settingsSecret db t

/-! ## Record identities -/

/-- The payload is the identity of a record of an auth collection, and the token is signed
with the record's own key. -/
def Authentic (db : Db) (t : SignedToken) (p : TokenPayload) : Prop :=
  ∃ c id row k, p.get? "collectionId" = some (.text c.id) ∧ collectionById db c.id = some c ∧
    c.type = .auth ∧ p.get? "id" = some (.text id) ∧ db.rowById c.name id = some row ∧
    row.get? "token_key" = some (.text k) ∧ t.key = some (k ++ tokenSecret c .authToken)

/-- A record of the collection holds a text under `token_key`. -/
def HoldsKey (db : Db) (c : Collection) : Prop :=
  ∃ t id row k, db.tables.get? c.name = some t ∧ "token_key".toList ∈ t.columns ∧ id ≠ [] ∧
    db.rowById c.name id = some row ∧ row.get? "token_key" = some (.text k)

/-- Only auth collections hold texts under `token_key`. -/
def KeysInAuthCollections (db : Db) : Prop :=
  ∀ c, c.id ≠ [] → collectionById db c.id = some c → HoldsKey db c → c.type = .auth

/-- What is known holds no session key : no key of an auth record, none of an admin. -/
structure WithoutKeys (settingsSecret : Text) (db : Db) (knows : Set Text) : Prop where
  records : ∀ c, collectionById db c.id = some c → c.type = .auth → ∀ id row k,
    db.rowById c.name id = some row → row.get? "token_key" = some (.text k) →
      k ++ tokenSecret c .authToken ∉ knows
  admins : ∀ id row k, db.rowById "_superusers" id = some row →
    row.get? "token_key" = some (.text k) → k ++ adminSecret settingsSecret db ∉ knows

section

variable {settingsSecret : Text} {db : Db} {t : SignedToken} {p : TokenPayload}

theorem decode_eq_some {key : Text} :
    t.decode key = some p ↔ t.key = some key ∧ t.current = true ∧ t.claims = p := by
  unfold SignedToken.decode
  split_ifs with h
  · simp [h.1, h.2]
  · simp only [false_iff]
    exact fun hd => h ⟨hd.1, hd.2.1⟩

theorem textParam_eq_ok {v : Value} {s : Text} : textParam v = .ok s ↔ v = .text s := by
  cases v <;> simp [textParam]

theorem signingKey_eq_ok {v : Option Value} {secret key : Text} :
    signingKey v secret = .ok key ↔ ∃ k, v = some (.text k) ∧ key = k ++ secret := by
  unfold signingKey
  split
  · simp [eq_comm]
  · rename_i h
    simp only [reduceCtorEq, false_iff, not_exists, not_and]
    exact fun k hk _ => h k hk

theorem selectTokenKey_eq_ok {table id : Text} {row : Row} :
    selectTokenKey db table id = .ok (some row) ↔
      ∃ tbl, db.tables.get? table = some tbl ∧ "token_key".toList ∈ tbl.columns ∧
        db.rowById table id = some row := by
  unfold selectTokenKey
  cases db.tables.get? table with
  | none =>
    constructor
    · rintro ⟨⟩
    · rintro ⟨tbl, ⟨⟩, -⟩
  | some tbl =>
    dsimp only
    split_ifs with h
    · exact ⟨fun hr => ⟨tbl, rfl, h, Except.ok.inj hr⟩, fun ⟨_, _, _, hr⟩ => congrArg _ hr⟩
    · constructor
      · rintro ⟨⟩
      · rintro ⟨_, ⟨⟩, hcol, -⟩
        exact absurd hcol h

/-- When an admin's token is accepted. -/
theorem authenticateAdmin_eq_ok {id : Value} :
    authenticateAdmin settingsSecret db t id = .ok (some p) ↔
      ∃ i row k, id = .text i ∧ db.rowById "_superusers" i = some row ∧
        row.get? "token_key" = some (.text k) ∧ t.key = some (k ++ adminSecret settingsSecret db) ∧
        t.current = true ∧ t.claims = p := by
  unfold authenticateAdmin
  constructor
  · intro h
    obtain ⟨i, hi, h⟩ := Failing.bind_eq_ok.1 h
    cases hrow : db.rowById "_superusers" i with
    | none =>
      rw [hrow] at h
      cases h
    | some row =>
      rw [hrow] at h
      obtain ⟨key, hkey, h⟩ := Failing.bind_eq_ok.1 h
      obtain ⟨k, hk, rfl⟩ := signingKey_eq_ok.1 hkey
      obtain ⟨hsigned, hcur, hp⟩ := decode_eq_some.1 (Except.ok.inj h)
      exact ⟨i, row, k, textParam_eq_ok.1 hi, hrow, hk, hsigned, hcur, hp⟩
  · rintro ⟨i, row, k, rfl, hrow, hk, hsigned, hcur, rfl⟩
    have hkey : signingKey (row.get? "token_key") (adminSecret settingsSecret db) =
        .ok (k ++ adminSecret settingsSecret db) := signingKey_eq_ok.2 ⟨k, hk, rfl⟩
    have hdecode := decode_eq_some.2 ⟨hsigned, hcur, rfl⟩
    simp only [textParam, Failing.ok_bind, hrow, hkey, hdecode]
    rfl

/-- When a record's token is accepted, whatever the type of its collection. -/
theorem authenticateRecord_eq_ok {id collectionId : Value} :
    authenticateRecord db t id collectionId = .ok (some p) ↔
      ∃ c cid i tbl row k, collectionId = .text cid ∧ collectionById db cid = some c ∧
        id = .text i ∧ db.tables.get? c.name = some tbl ∧ "token_key".toList ∈ tbl.columns ∧
        db.rowById c.name i = some row ∧ row.get? "token_key" = some (.text k) ∧
        t.key = some (k ++ tokenSecret c .authToken) ∧ t.current = true ∧
        t.claims.set "type" (.text "authRecord") = p := by
  unfold authenticateRecord
  constructor
  · intro h
    obtain ⟨cid, hcid, h⟩ := Failing.bind_eq_ok.1 h
    cases hc : collectionById db cid with
    | none =>
      rw [hc] at h
      cases h
    | some c =>
      rw [hc] at h
      obtain ⟨i, hi, h⟩ := Failing.bind_eq_ok.1 h
      obtain ⟨row?, hrow, h⟩ := Failing.bind_eq_ok.1 h
      cases row? with
      | none => cases h
      | some row =>
        obtain ⟨key, hkey, h⟩ := Failing.bind_eq_ok.1 h
        obtain ⟨k, hk, rfl⟩ := signingKey_eq_ok.1 hkey
        obtain ⟨q, hq, rfl⟩ := Option.map_eq_some_iff.1 (Except.ok.inj h)
        obtain ⟨hsigned, hcur, rfl⟩ := decode_eq_some.1 hq
        obtain ⟨tbl, htbl, hcol, hrow⟩ := selectTokenKey_eq_ok.1 hrow
        exact ⟨c, cid, i, tbl, row, k, textParam_eq_ok.1 hcid, hc, textParam_eq_ok.1 hi, htbl,
          hcol, hrow, hk, hsigned, hcur, rfl⟩
  · rintro ⟨c, cid, i, tbl, row, k, rfl, hc, rfl, htbl, hcol, hrow, hk, hsigned, hcur, rfl⟩
    have hselect := selectTokenKey_eq_ok.2 ⟨tbl, htbl, hcol, hrow⟩
    have hkey : signingKey (row.get? "token_key") (tokenSecret c .authToken) =
        .ok (k ++ tokenSecret c .authToken) := signingKey_eq_ok.2 ⟨k, hk, rfl⟩
    have hdecode := decode_eq_some.2 ⟨hsigned, hcur, rfl⟩
    simp only [textParam, Failing.ok_bind, hc, hselect, hkey, hdecode, Option.map_some]
    rfl

/-- What is accepted : a record's token, or an admin's. -/
theorem of_authenticate (h : authenticate settingsSecret db t = .ok (some p)) :
    (t.claims = p ∧ t.claims.get? "type" = some (.text "admin") ∧
      ∃ i row k, db.rowById "_superusers" i = some row ∧
        row.get? "token_key" = some (.text k) ∧
        t.key = some (k ++ adminSecret settingsSecret db)) ∨
    ∃ c i tbl row k, t.claims.get? "collectionId" = some (.text c.id) ∧ c.id ≠ [] ∧
      collectionById db c.id = some c ∧ t.claims.get? "id" = some (.text i) ∧ i ≠ [] ∧
      db.tables.get? c.name = some tbl ∧ "token_key".toList ∈ tbl.columns ∧
      db.rowById c.name i = some row ∧ row.get? "token_key" = some (.text k) ∧
      t.key = some (k ++ tokenSecret c .authToken) ∧
      t.claims.set "type" (.text "authRecord") = p := by
  unfold authenticate at h
  dsimp only at h
  split_ifs at h with hid htype htype' hcid
  · cases h
  · obtain ⟨i, row, k, -, hrow, hk, hsigned, -, hp⟩ := authenticateAdmin_eq_ok.1 h
    refine Or.inl ⟨hp, ?_, i, row, k, hrow, hk, hsigned⟩
    unfold normalizeType at htype
    split_ifs at htype with hauth
    · exact absurd htype (by decide)
    · exact htype
  · cases h
  · obtain ⟨c, cid, i, tbl, row, k, hcoll, hc, hi, htbl, hcol, hrow, hk, hsigned, -, hp⟩ :=
      authenticateRecord_eq_ok.1 h
    have hcid' : c.id = cid := by simpa using List.find?_some hc
    subst hcid'
    have hclaim : ∀ {o : Option Value} {s : Text}, o.getD .null = .text s → o = some (.text s) := by
      intro o s ho
      cases o with
      | none => cases ho
      | some v => exact congrArg some ho
    rw [hcoll] at hcid
    rw [hi] at hid
    refine Or.inr ⟨c, i, tbl, row, k, hclaim hcoll, ?_, hc, hclaim hi, ?_, htbl, hcol, hrow, hk,
      hsigned, hp⟩
    · rintro h
      exact hcid (by rw [h]; rfl)
    · rintro rfl
      exact hid rfl
  · cases h

theorem of_getOptionalAuth {read : Text → Option SignedToken} {header : Text}
    (h : getOptionalAuth read settingsSecret db header = .ok (some p)) :
    ∃ text t, bearerToken header = some text ∧ read text = some t ∧
      authenticate settingsSecret db t = .ok (some p) := by
  unfold getOptionalAuth at h
  cases ht : (bearerToken header).bind read with
  | none =>
    rw [ht] at h
    cases h
  | some t =>
    rw [ht] at h
    obtain ⟨text, htext, hread⟩ := Option.bind_eq_some_iff.1 ht
    exact ⟨text, t, htext, hread, h⟩

/-- The type of a record's payload is set. -/
theorem authentic_of_record (hkeys : KeysInAuthCollections db)
    (h : authenticate settingsSecret db t = .ok (some p))
    (htype : p.get? "type" = some (.text "authRecord")) : Authentic db t p := by
  rcases of_authenticate h with ⟨rfl, hadmin, -⟩ |
    ⟨c, i, tbl, row, k, hcid, hne, hc, hid, hi, htbl, hcol, hrow, hk, hsigned, rfl⟩
  · rw [hadmin] at htype
    exact absurd htype (by decide)
  · have hauth : c.type = .auth := hkeys c hne hc ⟨tbl, i, row, k, htbl, hcol, hi, hrow, hk⟩
    refine ⟨c, i, row, k, ?_, hc, hauth, ?_, hrow, hk, hsigned⟩
    · rw [Dict.get?_set_ne _ _ (by decide), hcid]
    · rw [Dict.get?_set_ne _ _ (by decide), hid]

/-- The token anyone who knows the key of a record can sign. -/
def forged (c : Collection) (id key : Text) : SignedToken where
  claims := [("id", .text id), ("type", .text "authRecord"), ("collectionId", .text c.id)]
  key := some key
  current := true

/-- It is accepted, whatever the type of the collection. -/
theorem authenticate_forged (settingsSecret : Text) {c : Collection} {id k : Text} {tbl : Table}
    {row : Row} (hne : c.id ≠ []) (hc : collectionById db c.id = some c)
    (htbl : db.tables.get? c.name = some tbl) (hcol : "token_key".toList ∈ tbl.columns)
    (hid : id ≠ []) (hrow : db.rowById c.name id = some row)
    (hk : row.get? "token_key" = some (.text k)) :
    authenticate settingsSecret db (forged c id (k ++ tokenSecret c .authToken)) =
      .ok (some (forged c id (k ++ tokenSecret c .authToken)).claims) := by
  have hrecord : authenticateRecord db (forged c id (k ++ tokenSecret c .authToken)) (.text id)
      (.text c.id) = .ok (some (forged c id (k ++ tokenSecret c .authToken)).claims) :=
    authenticateRecord_eq_ok.2 ⟨c, c.id, id, tbl, row, k, rfl, hc, rfl, htbl, hcol, hrow, hk, rfl,
      rfl, rfl⟩
  have htruthy : ∀ {s : Text}, s ≠ [] → ¬(Value.text s).truthy = false := by
    intro s hs
    simp [Value.truthy, hs]
  have hidClaim : (forged c id (k ++ tokenSecret c .authToken)).claims.get? "id" =
      some (.text id) := rfl
  have hcollClaim : (forged c id (k ++ tokenSecret c .authToken)).claims.get? "collectionId" =
      some (.text c.id) := rfl
  have htypeClaim : (forged c id (k ++ tokenSecret c .authToken)).claims.get? "type" =
      some (.text "authRecord") := rfl
  unfold authenticate
  dsimp only
  rw [hidClaim, hcollClaim, htypeClaim, Option.getD_some, Option.getD_some,
    if_neg (htruthy hid), if_neg (by decide), if_pos (by decide), if_neg (htruthy hne)]
  exact hrecord

/-- Every record identity is one of an auth collection, signed with the record's own key, and
nobody without a session key is let in, exactly if only auth collections hold texts under
`token_key`. -/
theorem sessions_authentic_iff (settingsSecret : Text) (db : Db) :
    ((∀ read header p, getOptionalAuth read settingsSecret db header = .ok (some p) →
        p.get? "type" = some (.text "authRecord") →
          ∃ text t, bearerToken header = some text ∧ read text = some t ∧ Authentic db t p) ∧
      ∀ knows, WithoutKeys settingsSecret db knows → ∀ read,
        (∀ text t key, read text = some t → t.key = some key → key ∈ knows) →
          ∀ header p, getOptionalAuth read settingsSecret db header ≠ .ok (some p)) ↔
      KeysInAuthCollections db := by
  constructor
  · rintro ⟨h, -⟩ c hne hc ⟨tbl, id, row, k, htbl, hcol, hid, hrow, hk⟩
    have haccept := authenticate_forged settingsSecret hne hc htbl hcol hid hrow hk
    obtain ⟨text, t, -, ht, c', i, row', k', hcid, hc', hauth, -⟩ :=
      h (fun _ => some (forged c id (k ++ tokenSecret c .authToken))) "t" _ haccept rfl
    have hsame : c.id = c'.id := by
      have := Option.some.inj hcid
      exact Value.text.inj this
    rw [← hsame, hc] at hc'
    obtain rfl := Option.some.inj hc'
    exact hauth
  · intro hkeys
    constructor
    · intro read header p h htype
      obtain ⟨text, t, htext, hread, hauth⟩ := of_getOptionalAuth h
      exact ⟨text, t, htext, hread, authentic_of_record hkeys hauth htype⟩
    · intro knows hknows read hmade header p h
      obtain ⟨text, t, -, hread, hauth⟩ := of_getOptionalAuth h
      rcases of_authenticate hauth with ⟨-, -, i, row, k, hrow, hk, hsigned⟩ |
        ⟨c, i, tbl, row, k, -, hne, hc, -, hi, htbl, hcol, hrow, hk, hsigned, -⟩
      · exact hknows.admins i row k hrow hk (hmade text t _ hread hsigned)
      · have htype : c.type = .auth := hkeys c hne hc ⟨tbl, i, row, k, htbl, hcol, hi, hrow, hk⟩
        exact hknows.records c hc htype i row k hrow hk (hmade text t _ hread hsigned)

end

/-- Notes with a text field named `token_key`, in a base collection. -/
def keyedNotes : Collection where
  id := "notes"
  name := "notes"
  schema := [{ name := "token_key", type := .text }]
  createRule := some []

def keyedDb : Db where
  collections := [keyedNotes]
  tables := [("notes", ⟨["id", "token_key"], [[("id", .text "n1"), ("token_key", .text "k")]]⟩)]

/-- Whoever wrote the note can sign in as it. -/
theorem note_author_signs_in :
    ¬((∀ read header p, getOptionalAuth read [] keyedDb header = .ok (some p) →
        p.get? "type" = some (.text "authRecord") →
          ∃ text t, bearerToken header = some text ∧ read text = some t ∧
            Authentic keyedDb t p) ∧
      ∀ knows, WithoutKeys [] keyedDb knows → ∀ read,
        (∀ text t key, read text = some t → t.key = some key → key ∈ knows) →
          ∀ header p, getOptionalAuth read [] keyedDb header ≠ .ok (some p)) := by
  rintro ⟨-, h⟩
  have hwithout : WithoutKeys [] keyedDb {"k".toList} := by
    constructor
    · intro c hc hauth
      have hmem : c ∈ keyedDb.collections := List.mem_of_find?_eq_some hc
      obtain rfl : c = keyedNotes := List.mem_singleton.1 hmem
      exact absurd hauth (by decide)
    · intro id row k hrow
      cases hrow
  refine h {"k".toList} hwithout (fun _ => some (forged keyedNotes "n1" "k")) ?_ "t" _ rfl
  rintro text t key ⟨⟩ ⟨⟩
  rfl

end Session

end PPBase
