import PPBase.Accounts

/-!
# Who is left in an account after an OAuth2 login

A login whose provider reports the email of a record is linked to the record, verified or not,
and nothing of the record changes : its password and its token key stay. `strangers_locked_out` :
a credential from before the login authenticates as the record no longer, in runs in which at
every such login the record's password and key fit none of them, and none is written later that
fits one.
-/

namespace PPBase

namespace Accounts

open Session AuthFlows RecordStore RecordApi OAuth

/-- The credential is taken for the record : by a login with a password, by an endpoint that
asks for a session, by the refresh of a session, or by a password reset. -/
inductive Authenticates (rt : Runtime) (pg : Pg) (verify : Text → Text → Bool)
    (settingsSecret : Text) (db : Db) (c : Collection) (id : Text) : Credential → Prop
  | password {p : Text} {http : HttpRequest} {payload row : Row} {t : SignedToken}
      (h : passwordLogin rt pg verify db c http payload = some (row, t))
      (hp : Response.strOrEmpty rt (payload.get? "password") = p)
      (hid : row.get? "id" = some (.text id)) :
      Authenticates rt pg verify settingsSecret db c id (.password p)
  | session {t : SignedToken} {p : TokenPayload}
      (h : authenticate settingsSecret db t = .ok (some p))
      (htype : p.get? "type" = some (.text "authRecord"))
      (hc : p.get? "collectionId" = some (.text c.id)) (hid : p.get? "id" = some (.text id)) :
      Authenticates rt pg verify settingsSecret db c id (.session t)
  | refresh {t : SignedToken} {p : TokenPayload} (h : verifyRecordAuthToken db c t = .ok (some p))
      (hid : t.claims.get? "id" = some (.text id)) :
      Authenticates rt pg verify settingsSecret db c id (.session t)
  | reset {t : SignedToken} {row : Row}
      (h : tokenRecord db c t "passwordReset" .passwordResetToken = .ok (id, row)) :
      Authenticates rt pg verify settingsSecret db c id (.reset t)

/-- The credential fits the password or the key of the row. -/
def Fits (verify : Text → Text → Bool) (c : Collection) (row : Row) : Credential → Prop
  | .password p => c.options.passwordAuthEnabled = true ∧ passwordMatches verify row p = true
  | .session t => SignedByRow c row .authToken t ∧ t.current = true
  | .reset t => SignedByRow c row .passwordResetToken t ∧ t.current = true

/-- The credential fits the key that is written, or the password if one is. -/
def FitsNew (verify : Text → Text → Bool) (c : Collection) (w : Writer) (given : Option Text) :
    Credential → Prop
  | .password q => c.options.passwordAuthEnabled = true ∧ ∃ p, given = some p ∧
      verify q (w.hashPassword p) = true
  | .session t => t.key = some (w.tokenKey ++ tokenSecret c .authToken) ∧ t.current = true
  | .reset t => t.key = some (w.tokenKey ++ tokenSecret c .passwordResetToken) ∧ t.current = true

/-- Nothing stale about the record fits what is written to it. -/
def Fresh (verify : Text → Text → Bool) (c : Collection) (s : State) (w : Writer) (id : Text)
    (given : Option Text) : Prop :=
  ∀ cr, (id, cr) ∈ s.stale → ¬FitsNew verify c w given cr

/-- At a login that is completed for an unproven record with the reported email, nothing that was
given out fits the record; and what a request writes to a record is fresh. -/
def Settled (rt : Runtime) (pg : Pg) (verify : Text → Text → Bool) (c : Collection) (s : State) :
    Action → Prop
  | .create w _ req _ => ∀ id p, createdId w req.data = .ok id → getKey req.data "password" = .text p →
      Fresh verify c s w id (some p)
  | .update w id _ req _ => ∀ p, getKey req.data "password" = .text p →
      Fresh verify c s w id (some p)
  | .oauth2 w exchange http payload generated => ∀ info, exchange = .ok info →
      (∀ createData db' id p,
        Login.createData ⟨http, payload, info, generated⟩ = .obj createData →
        Makes w rt s.store c ⟨http, payload, info, generated⟩ db' id →
        getKey (recordData c info createData generated) "password" = .text p →
        Fresh verify c s w id (some p)) ∧
      ∀ store id t row, authWithOauth2 exchange w rt pg s.store c http payload generated =
          (store, .ok (id, t)) →
        s.db.rowById c.name id = some row → unproven row (reportedEmail rt info) = true →
        ∀ cr ∈ s.obtained, ∀ r ∈ s.db.rows c.name, r.get? "id" = some (.text id) →
          ¬Fits verify c r cr
  | .confirmPasswordReset w t password _ => ∀ id, t.claims.get? "id" = some (.text id) →
      Fresh verify c s w id (some password)
  | .confirmEmailChange w mail _ _ => ∀ m id, s.mailed[mail]? = some m →
      m.token.claims.get? "id" = some (.text id) → Fresh verify c s w id none
  | _ => True

section

variable {rt : Runtime} {pg : Pg} {verify : Text → Text → Bool} {settingsSecret : Text}
  {db : Db} {c : Collection} {row : Row} {id : Text} {cr : Credential} {w : Writer}
  {given : Option Text}

theorem mem_of_rowById (h : db.rowById c.name id = some row) :
    row ∈ db.rows c.name ∧ row.get? "id" = some (.text id) :=
  ⟨List.mem_of_find?_eq_some h, by simpa using List.find?_some h⟩

theorem fits_of_passwordLogin {http : HttpRequest} {payload : Row} {t : SignedToken}
    (h : passwordLogin rt pg verify db c http payload = some (row, t)) :
    row ∈ db.rows c.name ∧
      Fits verify c row (.password (Response.strOrEmpty rt (payload.get? "password"))) := by
  unfold passwordLogin at h
  dsimp only at h
  split_ifs at h
  split at h
  · rename_i row' t' heq
    split_ifs at h
    obtain ⟨rfl, rfl⟩ := Prod.mk.inj (Option.some.inj h)
    unfold authWithPassword at heq
    by_cases henabled : c.options.passwordAuthEnabled = false
    · rw [if_pos henabled] at heq
      cases heq
    rw [if_neg henabled] at heq
    split at heq
    · cases heq
    · rename_i found hfound
      by_cases hmatches : passwordMatches verify found
          (Response.strOrEmpty rt (payload.get? "password")) = true
      · rw [if_pos hmatches] at heq
        obtain ⟨_, _, hrow⟩ := Failing.map_eq_ok.1 heq
        obtain ⟨rfl, -⟩ := Prod.mk.inj (Option.some.inj hrow)
        obtain ⟨field, -, hfind⟩ := Option.bind_eq_some_iff.1 hfound
        exact ⟨List.mem_of_find?_eq_some hfind, Bool.not_eq_false _ ▸ henabled, hmatches⟩
      · rw [if_neg hmatches] at heq
        cases heq
  · cases h

/-- What authenticates as a record fits it. -/
theorem fits_of_authenticates (hc : collectionById db c.id = some c)
    (h : Authenticates rt pg verify settingsSecret db c id cr) :
    ∃ row ∈ db.rows c.name, row.get? "id" = some (.text id) ∧ Fits verify c row cr := by
  cases h with
  | password h hp hid =>
    obtain ⟨hmem, hfits⟩ := fits_of_passwordLogin h
    exact ⟨_, hmem, hid, hp ▸ hfits⟩
  | @session t p h htype hcoll hid =>
    unfold authenticate at h
    dsimp only at h
    split_ifs at h with hempty hadmin hrecord hnone
    · cases h
    · -- The identity of an admin is no record of the collection.
      obtain ⟨-, -, -, -, -, -, -, -, rfl⟩ := authenticateAdmin_eq_ok.1 h
      unfold normalizeType at hadmin
      rw [htype] at hadmin
      exact absurd hadmin (by decide)
    · cases h
    · obtain ⟨c', cid, i, -, row, k, hcid, hc', hi, -, -, hrow, hk, hsigned, hcurrent, rfl⟩ :=
        authenticateRecord_eq_ok.1 h
      rw [Dict.get?_set_ne _ _ (by decide)] at hcoll hid
      rw [hcoll, Option.getD_some] at hcid
      rw [hid, Option.getD_some] at hi
      obtain rfl := Value.text.inj hcid
      obtain rfl := Value.text.inj hi
      obtain rfl := Option.some.inj (hc.symm.trans hc')
      obtain ⟨hmem, hrowId⟩ := mem_of_rowById hrow
      refine ⟨row, hmem, hrowId, ⟨k, ?_, hsigned⟩, hcurrent⟩
      unfold rowTokenKey
      rw [hk, Option.getD_some]
    · cases h
  | refresh h hid =>
    obtain ⟨-, -, i, row, hi, -, hrow, hsigned, hcurrent⟩ := verifyRecordAuthToken_accepts.1 ⟨_, h⟩
    obtain rfl := Value.text.inj (Option.some.inj (hid.symm.trans hi))
    obtain ⟨hmem, hrowId⟩ := mem_of_rowById hrow
    exact ⟨row, hmem, hrowId, hsigned, hcurrent⟩
  | reset h =>
    obtain ⟨-, -, -, hrow, hsigned, hcurrent, -⟩ := tokenRecord_eq_ok.1 h
    obtain ⟨hmem, hrowId⟩ := mem_of_rowById hrow
    exact ⟨_, hmem, hrowId, hsigned, hcurrent⟩

variable {row' : Row}

theorem fits_congr (h : Fits verify c row' cr)
    (hhash : row'.get? "password_hash" = row.get? "password_hash")
    (hkey : row'.get? "token_key" = row.get? "token_key") : Fits verify c row cr := by
  have hsigned : ∀ {type : TokenType} {t : SignedToken}, SignedByRow c row' type t →
      SignedByRow c row type t := by
    rintro type t ⟨k, hk, hsigned⟩
    refine ⟨k, ?_, hsigned⟩
    unfold rowTokenKey at hk ⊢
    rwa [← hkey]
  cases cr with
  | password q =>
    refine ⟨h.1, ?_⟩
    have hmatches := h.2
    unfold passwordMatches at hmatches ⊢
    rwa [← hhash]
  | session t => exact ⟨hsigned h.1, h.2⟩
  | reset t => exact ⟨hsigned h.1, h.2⟩

/-- The password and the key of a row are its own or what was written. -/
theorem fits_written (h : Fits verify c row' cr)
    (hhash : row'.get? "password_hash" = row.get? "password_hash" ∨ ∃ p, given = some p ∧ row'.get? "password_hash" = some (.text (w.hashPassword p)))
    (hkey : row'.get? "token_key" = row.get? "token_key" ∨ row'.get? "token_key" = some (.text w.tokenKey)) :
    Fits verify c row cr ∨ FitsNew verify c w given cr := by
  have hsigned : ∀ {type : TokenType} {t : SignedToken}, SignedByRow c row' type t →
      SignedByRow c row type t ∨ t.key = some (w.tokenKey ++ tokenSecret c type) := by
    rintro type t ⟨k, hk, hsigned⟩
    rcases hkey with hkey | hkey
    · refine Or.inl ⟨k, ?_, hsigned⟩
      unfold rowTokenKey at hk ⊢
      rwa [← hkey]
    · unfold rowTokenKey at hk
      rw [hkey, Option.getD_some] at hk
      rw [Value.text.inj hk]
      exact Or.inr hsigned
  cases cr with
  | password q =>
    obtain ⟨henabled, hmatches⟩ := h
    rcases hhash with hhash | ⟨p, hp, hhash⟩
    · refine Or.inl ⟨henabled, ?_⟩
      unfold passwordMatches at hmatches ⊢
      rwa [← hhash]
    · refine Or.inr ⟨henabled, p, hp, ?_⟩
      unfold passwordMatches at hmatches
      rw [hhash] at hmatches
      exact (Bool.and_eq_true_iff.1 hmatches).2
  | session t => exact (hsigned h.1).imp (⟨·, h.2⟩) (⟨·, h.2⟩)
  | reset t => exact (hsigned h.1).imp (⟨·, h.2⟩) (⟨·, h.2⟩)

/-- A row with no key fits nothing. -/
theorem not_fits_keyless : ¬Fits verify c [("token_key", .null)] cr := by
  have hsigned : ∀ {type : TokenType} {t : SignedToken},
      ¬SignedByRow c [("token_key", .null)] type t := by
    rintro type t ⟨k, hk, -⟩
    cases hk
  cases cr with
  | password q => exact fun h => absurd h.2 Bool.false_ne_true
  | session t => exact fun h => hsigned h.1
  | reset t => exact fun h => hsigned h.1

/-- What fits a row after an update fits it before, or fits what is written. -/
theorem fits_updateRow {columns : Row} {i : Text} (hnodup : columns.keys.Nodup)
    (hid : columns.get? "id" = none)
    (hhash : columns.get? "password_hash" = none ∨ ∃ p, given = some p ∧ columns.get? "password_hash" = some (.text (w.hashPassword p)))
    (hkey : columns.get? "token_key" = none ∨ columns.get? "token_key" = some (.text w.tokenKey))
    (hrow' : row' ∈ (db.updateRow c.name id columns).rows c.name)
    (hi : row'.get? "id" = some (.text i)) (hfits : Fits verify c row' cr) :
    ∃ row ∈ db.rows c.name, row.get? "id" = some (.text i) ∧
      (Fits verify c row cr ∨ i = id ∧ FitsNew verify c w given cr) := by
  rw [Db.rows_updateRow] at hrow'
  obtain ⟨row, hrow, rfl⟩ := List.mem_map.1 hrow'
  by_cases hrowId : row.get? "id" = some (.text id)
  · rw [if_pos hrowId] at hi hfits
    have hcolumn := Dict.get?_update (d := row) hnodup
    rw [hcolumn, hid, Option.none_or, hrowId] at hi
    obtain rfl : id = i := Value.text.inj (Option.some.inj hi)
    have hwritten : Fits verify c row cr ∨ FitsNew verify c w given cr := by
      refine fits_written hfits ?_ ?_
      · rw [hcolumn]
        rcases hhash with hhash | ⟨p, hp, hhash⟩
        · exact Or.inl (by rw [hhash, Option.none_or])
        · exact Or.inr ⟨p, hp, by rw [hhash, Option.some_or]⟩
      · rw [hcolumn]
        rcases hkey with hkey | hkey
        · exact Or.inl (by rw [hkey, Option.none_or])
        · exact Or.inr (by rw [hkey, Option.some_or])
    exact ⟨row, hrow, hrowId, hwritten.imp_right (⟨rfl, ·⟩)⟩
  · rw [if_neg hrowId] at hi hfits
    exact ⟨row, hrow, hi, Or.inl hfits⟩

theorem mem_rows_insertRow {columns : Row} (h : row' ∈ (db.insertRow c.name columns).rows c.name) :
    row' ∈ db.rows c.name ∨ row' = columns := by
  cases htbl : db.tables.get? c.name with
  | none =>
    unfold Db.insertRow Db.rows at h
    rw [Db.get?_mapTable, htbl] at h
    cases h
  | some tbl =>
    rw [Db.rows_insertRow htbl, List.mem_append, List.mem_singleton] at h
    exact h

end

/-! ## Runs -/

/-- Nothing stale fits the records. -/
structure Locked (verify : Text → Text → Bool) (c : AuthCollection) (s : State) : Prop where
  found : collectionById s.db c.id = some c.toCollection
  locked : ∀ id cr, (id, cr) ∈ s.stale → ∀ row ∈ s.db.rows c.name,
    row.get? "id" = some (.text id) → ¬Fits verify c.toCollection row cr

section

variable {rt : Runtime} {pg : Pg} {verify : Text → Text → Bool} {settingsSecret : Text}
  {c : AuthCollection} {s s' : State} {db' : Db} {id : Text} {row : Row} {cr : Credential}
  {w : Writer}

/-- What is stale and fits a record fitted it before. -/
theorem Locked.of_fits (hs : Locked verify c s) (hcollections : s'.db.collections = s.db.collections)
    (hstale : s'.stale = s.stale)
    (h : ∀ row' ∈ s'.db.rows c.name, ∀ id cr, row'.get? "id" = some (.text id) → (id, cr) ∈ s.stale →
      Fits verify c.toCollection row' cr →
        ∃ row ∈ s.db.rows c.name, row.get? "id" = some (.text id) ∧ Fits verify c.toCollection row cr) :
    Locked verify c s' := by
  refine ⟨?_, fun id cr hmem row' hrow' hid hfits => ?_⟩
  · unfold collectionById
    rw [hcollections]
    exact hs.found
  · rw [hstale] at hmem
    obtain ⟨row, hrow, hrowId, hold⟩ := h row' hrow' id cr hid hmem hfits
    exact hs.locked id cr hmem row hrow hrowId hold

theorem Locked.of_silent (hs : Locked verify c s) (hdb : s'.db = s.db) (hstale : s'.stale = s.stale) :
    Locked verify c s' :=
  hs.of_fits (hdb ▸ rfl) hstale fun row' hrow' _ _ hid _ hfits => ⟨row', hdb ▸ hrow', hid, hfits⟩

/-- A new record. -/
theorem Locked.of_created {data payload : Row} {files : Dict Text (List Upload)}
    (hs : Locked verify c s)
    (hcreate : createRecord w rt s.db c.toCollection data files = .ok (db', id, payload))
    (hfresh : ∀ p, getKey data "password" = .text p → Fresh verify c.toCollection s w id (some p))
    (hdb : s'.db = db') (hstale : s'.stale = s.stale) : Locked verify c s' := by
  obtain ⟨d, -, hd, herrors, -, rfl⟩ := of_createRecord hcreate
  obtain ⟨hid, ⟨p, hp, hhash, hkey⟩, -⟩ := get?_createDraft hd herrors
  refine hs.of_fits (hdb ▸ rfl) hstale fun row' hrow' i cr hi hmem hfits => ?_
  rw [hdb] at hrow'
  rcases mem_rows_insertRow hrow' with hold | rfl
  · exact ⟨row', hold, hi, hfits⟩
  · obtain rfl : id = i := Value.text.inj (Option.some.inj (hid.symm.trans hi))
    rcases fits_written hfits (Or.inr ⟨p, rfl, hhash⟩) (Or.inr hkey) with hnone | hnew
    · exact absurd hnone not_fits_keyless
    · exact absurd hnew (hfresh p hp cr hmem)

/-- Columns written to a record. -/
theorem Locked.of_updateRow {columns : Row} {given : Option Text} (hs : Locked verify c s)
    (hnodup : columns.keys.Nodup) (hid : columns.get? "id" = none)
    (hhash : columns.get? "password_hash" = none ∨
      ∃ p, given = some p ∧ columns.get? "password_hash" = some (.text (w.hashPassword p)))
    (hkey : columns.get? "token_key" = none ∨ columns.get? "token_key" = some (.text w.tokenKey))
    (hfresh : Fresh verify c.toCollection s w id given)
    (hdb : s'.db = s.db.updateRow c.name id columns) (hstale : s'.stale = s.stale) :
    Locked verify c s' := by
  refine hs.of_fits (hdb ▸ rfl) hstale fun row' hrow' i cr hi hmem hfits => ?_
  rw [hdb] at hrow'
  obtain ⟨row, hrow, hrowId, hold | ⟨rfl, hnew⟩⟩ := fits_updateRow hnodup hid hhash hkey hrow' hi hfits
  · exact ⟨row, hrow, hrowId, hold⟩
  · exact absurd hnew (hfresh cr hmem)

/-- Other columns. -/
theorem Locked.of_otherColumns {columns : Row} (hs : Locked verify c s) (hnodup : columns.keys.Nodup)
    (hid : columns.get? "id" = none) (hhash : columns.get? "password_hash" = none)
    (hkey : columns.get? "token_key" = none) (hdb : s'.db = s.db.updateRow c.name id columns)
    (hstale : s'.stale = s.stale) : Locked verify c s' := by
  refine hs.of_fits (hdb ▸ rfl) hstale fun row' hrow' i cr hi _ hfits => ?_
  rw [hdb, Db.rows_updateRow] at hrow'
  obtain ⟨row, hrow, rfl⟩ := List.mem_map.1 hrow'
  refine ⟨row, hrow, ?_⟩
  split_ifs at hi hfits
  · have hsame : ∀ k, columns.get? k = none → (Dict.update row columns).get? k = row.get? k := by
      intro k hk
      rw [Dict.get?_update hnodup, hk, Option.none_or]
    exact ⟨hsame _ hid ▸ hi, fits_congr hfits (hsame _ hhash) (hsame _ hkey)⟩
  · exact ⟨hi, hfits⟩

/-- A login that is linked to a record, or makes one. -/
theorem Locked.oauth2 {exchange : Except Text Row} {http : HttpRequest} {payload : Row}
    {generated : Text} (hs : Locked verify c s)
    (hsettled : Settled rt pg verify c.toCollection s (.oauth2 w exchange http payload generated)) :
    Locked verify c (step rt pg verify c.toCollection s (.oauth2 w exchange http payload generated)) := by
  obtain ⟨store, r, hlogin, hstep⟩ := step_oauth2 rt pg verify c.toCollection s w exchange http
    payload generated
  rw [hstep]
  -- What is stale already, given that nothing new is.
  have hold : ∀ s' : State, s'.db = store.db → s'.stale = s.stale → Locked verify c s' := by
    intro s' hdb hstale
    rcases of_authWithOauth2 hlogin with ⟨rfl, -⟩ | ⟨info, found, rfl, haccepted, hlink, -⟩
    · exact hs.of_silent hdb hstale
    cases leaves_linkOrCreate hlink with
    | found hkept _ => exact hs.of_silent (hdb.trans hkept) hstale
    | @created createData columns i hnew hdata hcreate _ =>
      refine hs.of_created hcreate (fun p hp => ?_) hdb hstale
      exact (hsettled info rfl).1 createData store.db i p hdata
        ⟨haccepted, hnew, createData, columns, hdata, hcreate⟩ hp
  cases r with
  | error e => exact hold _ rfl rfl
  | ok x =>
    obtain ⟨i, t⟩ := x
    have hlocked := hold { s with store := store } rfl rfl
    rcases of_authWithOauth2 hlogin with ⟨-, e, he⟩ | ⟨info, found, rfl, -, hlink, hr⟩
    · cases he
    refine ⟨hlocked.found, fun id cr hmem row hrow hid => ?_⟩
    rcases List.mem_append.1 hmem with hmem | hmem
    · exact hlocked.locked id cr hmem row hrow hid
    -- The record was there, and had no proven email.
    unfold staleAfter at hmem
    split at hmem
    · rename_i old hold'
      split_ifs at hmem with hunproven
      · obtain ⟨cr', hobtained, heq⟩ := List.mem_map.1 hmem
        obtain ⟨rfl, rfl⟩ := Prod.mk.inj heq
        have hsame : store.db = s.db := by
          cases leaves_linkOrCreate hlink with
          | found hkept _ => exact hkept
          | created _ _ hcreate hresult =>
            obtain rfl := hresult _ (hr _ rfl).1
            obtain ⟨-, -, -, -, hfree, -⟩ := of_createRecord hcreate
            rw [show s.db.rowById c.name i = none from hfree] at hold'
            cases hold'
        have hrow : row ∈ s.db.rows c.name := hsame ▸ hrow
        exact (hsettled info rfl).2 store i t old hlogin hold' hunproven cr' hobtained row hrow hid
      · cases hmem
    · cases hmem

/-- One request keeps the invariant. -/
theorem Locked.step {a : Action} (hs : Locked verify c s)
    (hsettled : Settled rt pg verify c.toCollection s a) :
    Locked verify c (step rt pg verify c.toCollection s a) := by
  cases a with
  | create w route req opts =>
    unfold Accounts.step
    dsimp only
    split
    · rename_i db' rest heq
      obtain ⟨id, m⟩ := rest
      obtain ⟨⟨payload, hcreate⟩, -⟩ := of_createHandler heq
      obtain ⟨d, hid, -⟩ := of_createRecord hcreate
      exact hs.of_created hcreate (fun p hp => hsettled id p hid hp) rfl rfl
    · exact hs
  | update w id route req opts =>
    unfold Accounts.step
    dsimp only
    split
    · rename_i db' m heq
      obtain ⟨hupdate, -⟩ := of_updateHandler heq
      obtain ⟨row, d, -, hd, herrors, ⟨-, rfl⟩ | ⟨-, rfl⟩⟩ := of_updateRecord hupdate
      · exact hs.of_silent rfl rfl
      · have hid : d.columns.get? "id" = none :=
          updateDraft_system hd (by decide) (by decide) ⟨fun h => absurd h (by decide),
            fun h => absurd h (by decide), fun h => absurd h (by decide), fun h => absurd h (by decide)⟩
        rcases updateDraft_credentials hd herrors with ⟨hhash, hkey⟩ | ⟨p, hp, hhash, hkey⟩
        · exact hs.of_otherColumns (nodup_updateDraft hd) hid hhash hkey rfl rfl
        · exact hs.of_updateRow (nodup_updateDraft hd) hid (Or.inr ⟨p, rfl, hhash⟩) (Or.inr hkey)
            (hsettled p hp) rfl rfl
    · exact hs
  | remove id =>
    refine hs.of_fits rfl rfl fun row' hrow' i cr hi _ hfits => ⟨row', ?_, hi, hfits⟩
    have hrow' : row' ∈ (s.db.deleteRow c.name id).rows c.name := hrow'
    rw [Db.rows_deleteRow] at hrow'
    exact (List.mem_filter.1 hrow').1
  | oauth2 w exchange http payload generated => exact hs.oauth2 hsettled
  | signIn http payload =>
    unfold Accounts.step
    dsimp only
    split
    · exact hs.of_silent rfl rfl
    · exact hs
  | refresh http t =>
    unfold Accounts.step
    dsimp only
    split
    · exact hs.of_silent rfl rfl
    · exact hs
  | session id refreshable =>
    unfold Accounts.step
    dsimp only
    split
    · exact hs.of_silent rfl rfl
    · exact hs
  | requestVerification email =>
    unfold Accounts.step
    dsimp only
    split
    · exact hs.of_silent rfl rfl
    · exact hs
  | confirmVerification mail current =>
    unfold Accounts.step
    dsimp only
    split
    · exact hs
    · split
      · rename_i m _ _ db' heq
        obtain ⟨⟨i, r⟩, -, h⟩ := Failing.bind_eq_ok.1 heq
        obtain rfl := Except.ok.inj h
        have hnodup : (Dict.keys [("verified".toList, Value.bool true)]).Nodup :=
          List.nodup_singleton _
        exact hs.of_otherColumns hnodup rfl rfl rfl rfl rfl
      · exact hs
  | requestPasswordReset email =>
    unfold Accounts.step
    dsimp only
    split
    · exact hs.of_silent rfl rfl
    · exact hs
  | confirmPasswordReset w t password passwordConfirm =>
    unfold Accounts.step
    dsimp only
    split
    · rename_i db' heq
      obtain ⟨i, row, hrecord, rfl⟩ := of_confirmPasswordReset heq
      refine hs.of_updateRow ?_ rfl (Or.inr ⟨password, rfl, rfl⟩) (Or.inr rfl)
        (hsettled i (tokenRecord_eq_ok.1 hrecord).2.1) rfl rfl
      exact (by decide : (["password_hash", "token_key"] : List Text).Nodup)
    · exact hs
  | requestEmailChange id newEmail =>
    unfold Accounts.step
    dsimp only
    split
    · exact hs.of_silent rfl rfl
    · exact hs
  | confirmEmailChange w mail current password =>
    unfold Accounts.step
    dsimp only
    split
    · exact hs
    · rename_i m hm
      split
      · rename_i db' heq
        obtain ⟨i, row, hrecord, rfl⟩ := of_confirmEmailChange heq
        refine hs.of_updateRow ?_ rfl (Or.inl rfl) (Or.inr rfl)
          (hsettled m i hm (tokenRecord_eq_ok.1 hrecord).2.1) rfl rfl
        exact (by decide : (["email", "verified", "token_key"] : List Text).Nodup)
      · exact hs
  | elsewhere others =>
    refine hs.of_fits rfl rfl fun row' hrow' i cr hi _ hfits => ⟨row', ?_, hi, hfits⟩
    have hsame : row' ∈ (withOthers s.db c.name others).rows c.name := hrow'
    rwa [rows_withOthers] at hsame

/-- In every run in which at each completed login for an unproven record with the reported email
nothing given out fits the record, and nothing stale fits what is written later, no credential
from before such a login authenticates as its record. -/
theorem strangers_locked_out (hfound : collectionById s.db c.id = some c.toCollection)
    (hstart : s.stale = [])
    (hrun : Run rt pg verify c.toCollection (Settled rt pg verify c.toCollection) s s') :
    ∀ id cr, (id, cr) ∈ s'.stale →
      ¬Authenticates rt pg verify settingsSecret s'.db c.toCollection id cr := by
  have hlocked : Locked verify c s' := by
    induction hrun with
    | start =>
      refine ⟨hfound, fun id cr hmem => ?_⟩
      rw [hstart] at hmem
      cases hmem
    | step _ hmeets ih => exact ih.step hmeets
  intro id cr hmem hauth
  obtain ⟨row, hrow, hid, hfits⟩ := fits_of_authenticates hlocked.found hauth
  exact hlocked.locked id cr hmem row hrow hid hfits

end

/-- Members without passwords, unless `passwords`. -/
def providerMembers (passwords : Bool) : AuthCollection where
  toCollection :=
    { members (some []) with
      options := { authRule := some [], oauth2Enabled := true, passwordAuthEnabled := passwords } }
  isAuth := rfl
  fields_ne _ hf := absurd hf List.not_mem_nil

/-- Somebody registers with the email of somebody else. -/
def squats : Action :=
  .create .simple .single { data := [("email", .text "a@b.c"), ("password", .text "password"),
    ("passwordConfirm", .text "password")] } {}

/-- The owner of the email signs in through a provider. -/
def ownerSignsIn : Action :=
  .oauth2 .simple (.ok [("id", .text "g1"), ("email", .text "a@b.c")]) {}
    [("provider", .text "google"), ("code", .text "c"), ("codeVerifier", .text "v"),
      ("redirectUrl", .text "r")] "secret secret"

/-- No member yet. -/
def vacant (passwords : Bool) : State :=
  { store := emptyStore (providerMembers passwords).toCollection }

def squatted (passwords : Bool) : State :=
  step .simple .scalars (fun p h => p = h) (providerMembers passwords).toCollection (vacant passwords)
    squats

def signedIn (passwords : Bool) : State :=
  step .simple .scalars (fun p h => p = h) (providerMembers passwords).toCollection (squatted passwords)
    ownerSignsIn

/-- Where nobody signs in with a password, the one who registered is out. -/
theorem squatter_locked_out : ("new".toList, .password "password") ∈ (signedIn false).stale ∧
    ¬Authenticates .simple .scalars (fun p h => p = h) [] (signedIn false).db
      (providerMembers false).toCollection "new" (.password "password") := by
  have hmem : ("new".toList, Credential.password "password") ∈ (signedIn false).stale :=
    List.mem_cons_self
  refine ⟨hmem, strangers_locked_out (s := vacant false) rfl rfl
    (.step (.step .start (a := squats) ?_) (a := ownerSignsIn) ?_) _ _ hmem⟩
  · intro id p _ _ cr hstale
    cases hstale
  · rintro info ⟨⟩
    refine ⟨fun _ _ _ _ _ _ _ cr hstale => ?_, fun _ _ _ _ _ _ _ cr hcr r _ _ hfits => ?_⟩
    · cases hstale
    · obtain rfl := List.mem_singleton.1 hcr
      exact absurd hfits.1 (by decide)

/-- Where passwords are in use, the password of the one who registered still signs in. -/
theorem squatter_signs_in : ¬∀ s, Run .simple .scalars (fun p h => p = h)
    (providerMembers true).toCollection (fun _ _ => True) (vacant true) s →
      ∀ id cr, (id, cr) ∈ s.stale →
        ¬Authenticates .simple .scalars (fun p h => p = h) [] s.db (providerMembers true).toCollection
          id cr := by
  intro h
  have hlogin : ∃ row t, passwordLogin .simple .scalars (fun p h => p = h) (signedIn true).db
      (providerMembers true).toCollection {}
      [("identity", .text "a@b.c"), ("password", .text "password")] = some (row, t) ∧
        row.get? "id" = some (.text "new") := ⟨_, _, rfl, rfl⟩
  obtain ⟨row, t, hlogin, hid⟩ := hlogin
  exact h (signedIn true) (.step (.step .start trivial) trivial) "new" (.password "password")
    List.mem_cons_self (.password hlogin rfl hid)

end Accounts

end PPBase
