import PPBase.Accounts

/-!
# What a verified email shows

`verified` is set by the confirmation of a verification or of an email change, and for every
record an OAuth2 login makes. The confirmations look at the email of the record. A login does
not : it takes the email from `createData` if there is one, and marks as verified what its
client wrote. `verified_proven` : in runs in which a login that makes a record stores the email
the provider reports, and completes, a verified email is one somebody has shown to have.
-/

namespace PPBase

namespace Accounts

open Session AuthFlows RecordStore RecordApi OAuth

/-- Somebody presented a token that was mailed to the address for the record, or completed a
login for the record whose provider reported the address. -/
inductive Proven (s : State) (id email : Text) : Prop
  | mail {m : Mail} (hpresented : .mail m ∈ s.evidence) (hmailed : m ∈ s.mailed)
      (hid : m.id = .text id) (haddress : m.address = email) : Proven s id email
  | login (h : .login id email ∈ s.evidence) : Proven s id email

def isVerified (row : Row) : Prop := row.get? "verified" = some (.bool true)

/-- What is verified is proven. -/
def VerifiedProven (c : AuthCollection) (s : State) : Prop :=
  ∀ id row email, s.db.rowById c.name id = some row → isVerified row →
    row.get? "email" = some (.text email) → Proven s id email

/-- A mail is addressed to the email its token is for. -/
def Addressed (m : Mail) : Prop :=
  m.id = (m.token.claims.get? "id").getD .null ∧
    (m.token.claims.get? "type" = some (.text "verification") ∧
        m.token.claims.get? "email" = some (.text m.address) ∨
      m.token.claims.get? "type" = some (.text "emailChange") ∧
        m.token.claims.get? "newEmail" = some (.text m.address) ∧ Text.strip m.address = m.address)

/-- No record is verified yet, and nothing is mailed. -/
structure Unverified (c : AuthCollection) (s : State) : Prop where
  rows : ∀ id row, s.db.rowById c.name id = some row → ¬isVerified row
  mailed : s.mailed = []

/-- The client is no superuser and has no manage access to the record it writes. -/
def Unprivileged (rt : Runtime) (pg : Pg) (c : AuthCollection) (s : State) : Action → Prop
  | .create w route req opts => isAdminPayload req.auth = false ∧
      ∀ db' id m, createHandler w rt pg s.db c.toCollection route req opts = .ok (db', id, m) →
        hasManageAccess rt pg db' c.toCollection id false (ruleContext w c.toCollection .create route req) ≠
          .ok true
  | .update w id route req _ => isAdminPayload req.auth = false ∧
      hasManageAccess rt pg s.db c.toCollection id false (ruleContext w c.toCollection .update route req) ≠
        .ok true
  | _ => True

/-- A login that makes a record stores the email the provider reports, and completes. -/
def StoresReported (rt : Runtime) (pg : Pg) (c : AuthCollection) (s : State) : Action → Prop
  | .oauth2 w exchange http payload generated => ∀ info db' id, exchange = .ok info →
      Makes w rt s.store c.toCollection ⟨http, payload, info, generated⟩ db' id →
      (∀ row, db'.rowById c.name id = some row →
        row.get? "email" = some (.text (reportedEmail rt info))) ∧
      Completes rt pg { s.store with db := db' } c.toCollection ⟨http, payload, info, generated⟩ id
  | _ => True

section

variable {rt : Runtime} {pg : Pg} {verify : Text → Text → Bool} {c : AuthCollection}
  {s s' : State} {db' : Db} {id email : Text} {row : Row}

theorem Proven.mono (h : Proven s id email) (hevidence : s.evidence ⊆ s'.evidence)
    (hmailed : s.mailed ⊆ s'.mailed) : Proven s' id email := by
  cases h with
  | mail hpresented hm hid haddress => exact .mail (hevidence hpresented) (hmailed hm) hid haddress
  | login h => exact .login (hevidence h)

/-- Where every record has the email and the verification it had, nothing is to show. -/
theorem verifiedProven_of_kept (h : VerifiedProven c s)
    (hkept : ∀ id row', s'.db.rowById c.name id = some row' → isVerified row' →
      ∃ row, s.db.rowById c.name id = some row ∧ isVerified row ∧
        row'.get? "email" = row.get? "email")
    (hevidence : s.evidence ⊆ s'.evidence) (hmailed : s.mailed ⊆ s'.mailed) :
    VerifiedProven c s' := by
  intro id row' email hrow' hverified hemail
  obtain ⟨row, hrow, hwas, hsame⟩ := hkept id row' hrow' hverified
  exact (h id row email hrow hwas (hsame ▸ hemail)).mono hevidence hmailed

/-- An update of other columns. -/
theorem kept_updateRow {columns : Row} (hid : "id".toList ∉ columns.keys)
    (hemail : columns.get? "email" = none) (hverified : columns.get? "verified" = none) :
    ∀ i row', (s.db.updateRow c.name id columns).rowById c.name i = some row' → isVerified row' →
      ∃ row, s.db.rowById c.name i = some row ∧ isVerified row ∧
        row'.get? "email" = row.get? "email" := by
  intro i row' hrow' hwas
  rw [Db.rowById_updateRow_eq hid] at hrow'
  obtain ⟨row, hrow, rfl⟩ := Option.map_eq_some_iff.1 hrow'
  have hother : ∀ k, columns.get? k = none → (Dict.update row columns).get? k = row.get? k :=
    fun k hk => Dict.get?_foldl_set_of_notMem Prod.fst Prod.snd _ _ (Dict.get?_eq_none_iff.1 hk)
  refine ⟨row, hrow, ?_, ?_⟩
  · unfold isVerified at hwas ⊢
    split_ifs at hwas
    · rwa [hother _ hverified] at hwas
    · exact hwas
  · split_ifs
    · exact hother _ hemail
    · rfl

variable {w : Writer}

/-- A creation by a client without manage access makes no verified record. -/
theorem kept_create {route : Route} {req : RecordRequest} {opts : Options} {m : ExpandedRecord}
    (hunprivileged : Unprivileged rt pg c s (.create w route req opts))
    (h : createHandler w rt pg s.db c.toCollection route req opts = .ok (db', id, m)) :
    ∀ i row', db'.rowById c.name i = some row' → isVerified row' →
      ∃ row, s.db.rowById c.name i = some row ∧ isVerified row ∧
        row'.get? "email" = row.get? "email" := by
  obtain ⟨⟨payload, hcreate⟩, -, hmanaged, -⟩ := of_createHandler h
  obtain ⟨d, -, hd, herrors, -, rfl⟩ := of_createRecord hcreate
  rw [hunprivileged.1] at hmanaged
  have hkeys := (createManaged_eq_ok.1 hmanaged).resolve_right (hunprivileged.2 _ _ _ h)
  have hno : getKey req.data "verified" = .null := by
    have hmem : "verified".toList ∉ req.data.keys := by
      intro hmem
      unfold managedKeys at hkeys
      rw [if_pos c.isAuth] at hkeys
      exact absurd (List.mem_filter.2 ⟨hmem, by decide⟩) (hkeys ▸ List.not_mem_nil)
    unfold getKey
    rw [Dict.get?_eq_none_iff.2 hmem]
    rfl
  intro i row' hrow' hwas
  rcases Db.rowById_of_insertRow hrow' with hrow | ⟨-, rfl, -⟩
  · exact ⟨row', hrow, hwas, rfl⟩
  · have htruthy := (get?_createDraft hd herrors).2.2 hwas
    rw [hno] at htruthy
    cases htruthy

/-- Without manage access a payload has no other managed key than the password. -/
theorem has_of_updateManaged {ctx : RequestContext} {auth : Option TokenPayload} {data : Row}
    {k : Text} (h : updateManaged rt pg s.db c.toCollection id false ctx auth data = .ok ())
    (hno : hasManageAccess rt pg s.db c.toCollection id false ctx ≠ .ok true)
    (hk : k ∈ authManagedUpdateFields) (hself : k ∉ authSelfAllowedUpdateFields) :
    data.has k = false := by
  rw [← Bool.not_eq_true, Dict.has_iff_mem_keys]
  intro hmem
  have hmanaged : k ∈ managedKeys c.toCollection authManagedUpdateFields data := by
    unfold managedKeys
    rw [if_pos c.isAuth]
    exact List.mem_filter.2 ⟨hmem, decide_eq_true hk⟩
  unfold updateManaged at h
  dsimp only at h
  rw [if_neg (List.ne_nil_of_mem hmanaged)] at h
  obtain ⟨access, haccess, h⟩ := Failing.bind_eq_ok.1 h
  split_ifs at h with hallowed
  rcases hallowed with htrue | ⟨-, hall⟩
  · exact hno (haccess.trans (congrArg _ htrue))
  · exact hself (of_decide_eq_true (List.all_eq_true.1 hall k hmanaged))

/-- Nor does an update verify a record, or change an email. -/
theorem kept_update {route : Route} {req : RecordRequest} {opts : Options} {m : ExpandedRecord}
    (hunprivileged : Unprivileged rt pg c s (.update w id route req opts))
    (h : updateHandler w rt pg s.db c.toCollection id route req opts = .ok (db', m)) :
    ∀ i row', db'.rowById c.name i = some row' → isVerified row' →
      ∃ row, s.db.rowById c.name i = some row ∧ isVerified row ∧
        row'.get? "email" = row.get? "email" := by
  obtain ⟨hupdate, -, hmanaged, -⟩ := of_updateHandler h
  rw [hunprivileged.1] at hmanaged
  obtain ⟨row, d, -, hd, -, ⟨-, rfl⟩ | ⟨-, rfl⟩⟩ := of_updateRecord hupdate
  · exact fun i row' hrow' hwas => ⟨row', hrow', hwas, rfl⟩
  · have hemail := has_of_updateManaged (k := "email") hmanaged hunprivileged.2 (by decide) (by decide)
    have hverified :=
      has_of_updateManaged (k := "verified") hmanaged hunprivileged.2 (by decide) (by decide)
    refine kept_updateRow (Dict.get?_eq_none_iff.1 ?_) ?_ ?_
    · exact updateDraft_system hd (by decide) (by decide) ⟨fun h => absurd h (by decide),
        fun h => absurd h (by decide), fun h => absurd h (by decide), fun h => absurd h (by decide)⟩
    · exact updateDraft_system hd (by decide) (by decide) ⟨fun h => absurd h (by decide),
        fun _ => hemail, fun h => absurd h (by decide), fun h => absurd h (by decide)⟩
    · exact updateDraft_system hd (by decide) (by decide) ⟨fun h => absurd h (by decide),
        fun h => absurd h (by decide), fun h => absurd h (by decide), fun _ => hverified⟩

/-- A login : the record it makes has the email that is reported. -/
theorem proven_oauth2 {exchange : Except Text Row} {http : HttpRequest} {payload : Row}
    {generated : Text} (hs : VerifiedProven c s)
    (hstores : StoresReported rt pg c s (.oauth2 w exchange http payload generated)) :
    VerifiedProven c (step rt pg verify c.toCollection s (.oauth2 w exchange http payload generated)) := by
  obtain ⟨store, r, hlogin, hstep⟩ := step_oauth2 rt pg verify c.toCollection s w exchange http
    payload generated
  rw [hstep]
  have hdb : (afterLogin rt s c.toCollection exchange payload store r).db = store.db := by
    cases r <;> rfl
  have hevidence : s.evidence ⊆ (afterLogin rt s c.toCollection exchange payload store r).evidence := by
    cases r with
    | error e => exact List.Subset.refl _
    | ok x => exact List.subset_append_left _ _
  have hmailed : s.mailed ⊆ (afterLogin rt s c.toCollection exchange payload store r).mailed := by
    cases r <;> exact List.Subset.refl _
  have hsame : store.db = s.db →
      VerifiedProven c (afterLogin rt s c.toCollection exchange payload store r) := by
    intro hsame
    refine verifiedProven_of_kept hs (fun i row' hrow' hwas => ?_) hevidence hmailed
    rw [hdb, hsame] at hrow'
    exact ⟨row', hrow', hwas, rfl⟩
  rcases of_authWithOauth2 hlogin with ⟨rfl, -⟩ | ⟨info, found, rfl, haccepted, hlink, hr⟩
  · exact hsame rfl
  cases leaves_linkOrCreate hlink with
  | found hkept _ => exact hsame hkept
  | @created createData columns i hnew hdata hcreate _ =>
    have hmakes : Makes w rt s.store c.toCollection ⟨http, payload, info, generated⟩ store.db i :=
      ⟨haccepted, hnew, createData, columns, hdata, hcreate⟩
    obtain ⟨hemail, hcompletes⟩ := hstores info store.db i rfl hmakes
    obtain ⟨store', t, hlogin', -⟩ := authWithOauth2_of_makes hmakes hcompletes
    obtain ⟨rfl, rfl⟩ := Prod.mk.inj (hlogin.symm.trans hlogin')
    intro id row' email hrow' hwas hrowEmail
    rw [hdb] at hrow'
    obtain ⟨d, -, -, -, hfree, hstore⟩ := of_createRecord hcreate
    have hinserted := hrow'
    rw [hstore] at hinserted
    rcases Db.rowById_of_insertRow hinserted with hrow | ⟨-, rfl, hid⟩
    · exact (hs id row' email hrow hwas hrowEmail).mono hevidence hmailed
    · -- The session is one of the new record, and there is only one.
      obtain ⟨_, _, -, -, hopen⟩ := hcompletes
      have hnew' := row_of_openSession hopen
      have hi := new_row hfree (Option.isSome_iff_exists.2 (hstore ▸ hnew'))
      obtain rfl : i = id := Value.text.inj (Option.some.inj (hi.symm.trans hid))
      obtain rfl : reportedEmail rt info = email :=
        Value.text.inj (Option.some.inj ((hemail _ hrow').symm.trans hrowEmail))
      exact .login (List.mem_append_right _ List.mem_cons_self)

/-- The confirmation of a verification. -/
theorem proven_confirmVerification {m : Mail} {current : Bool} (hs : VerifiedProven c s)
    (hm : m ∈ s.mailed) (haddressed : Addressed m)
    (h : confirmVerification s.db c.toCollection (m.presented current) = .ok db') :
    VerifiedProven c { s.withDb db' with evidence := s.evidence ++ [.mail m] } := by
  obtain ⟨⟨i, r⟩, hrecord, h⟩ := Failing.bind_eq_ok.1 h
  obtain rfl := Except.ok.inj h
  obtain ⟨htype, hclaim, -, hrow, -, -, hemail⟩ := tokenRecord_eq_ok.1 hrecord
  obtain ⟨hid, ⟨-, haddress⟩ | ⟨hchange, -⟩⟩ := haddressed
  · intro id row' email hrow' hwas hrowEmail
    have hrow' : (s.db.updateRow c.name i [("verified", .bool true)]).rowById c.name id = some row' :=
      hrow'
    rw [Db.rowById_updateRow_eq (by decide)] at hrow'
    obtain ⟨row, hold, rfl⟩ := Option.map_eq_some_iff.1 hrow'
    split_ifs at hwas hrowEmail with hsame
    · obtain rfl : i = id :=
        Value.text.inj (Option.some.inj (hsame.symm.trans (by simpa using List.find?_some hold)))
      obtain rfl := Option.some.inj (hrow.symm.trans hold)
      have hrowEmail : r.get? "email" = some (.text email) :=
        (Dict.get?_set_ne r _ (by decide)).symm.trans hrowEmail
      have hclaimed : (m.token.claims.get? "email").getD .null = (r.get? "email").getD .null := hemail
      rw [haddress, hrowEmail] at hclaimed
      refine .mail (List.mem_append_right _ List.mem_cons_self) hm ?_ (Value.text.inj hclaimed)
      rw [hid]
      exact claim_eq_text.2 hclaim
    · exact (hs id row email hold hwas hrowEmail).mono (List.subset_append_left _ _)
        (List.Subset.refl _)
  · exact absurd (htype.symm.trans hchange) (by decide)

/-- The confirmation of an email change. -/
theorem proven_confirmEmailChange {m : Mail} {current : Bool} {password : Text}
    (hs : VerifiedProven c s) (hm : m ∈ s.mailed) (haddressed : Addressed m)
    (h : confirmEmailChange w verify rt s.db c.toCollection (m.presented current) password = .ok db') :
    VerifiedProven c { s.withDb db' with evidence := s.evidence ++ [.mail m] } := by
  obtain ⟨i, r, hrecord, rfl⟩ := of_confirmEmailChange h
  obtain ⟨htype, hclaim, -, hrow, -, -, -⟩ := tokenRecord_eq_ok.1 hrecord
  obtain ⟨hid, ⟨hverification, -⟩ | ⟨-, haddress, hstrip⟩⟩ := haddressed
  · exact absurd (htype.symm.trans hverification) (by decide)
  have hnew : newEmail rt (m.presented current) = m.address := by
    unfold newEmail
    have hclaims : (m.presented current).claims.get? "newEmail" = some (.text m.address) := haddress
    rw [hclaims]
    exact hstrip
  rw [hnew]
  intro id row' email hrow' hwas hrowEmail
  have hrow' : (s.db.updateRow c.name i [("email", .text m.address), ("verified", .bool true),
      ("token_key", .text w.tokenKey)]).rowById c.name id = some row' := hrow'
  have hkeys : "id".toList ∉ Dict.keys [("email".toList, Value.text m.address),
      ("verified".toList, .bool true), ("token_key".toList, .text w.tokenKey)] :=
    (by decide : "id".toList ∉ (["email", "verified", "token_key"] : List Text))
  rw [Db.rowById_updateRow_eq hkeys] at hrow'
  obtain ⟨row, hold, rfl⟩ := Option.map_eq_some_iff.1 hrow'
  split_ifs at hwas hrowEmail with hsame
  · obtain rfl : i = id :=
      Value.text.inj (Option.some.inj (hsame.symm.trans (by simpa using List.find?_some hold)))
    have hset : (Dict.update row [("email", .text m.address), ("verified", .bool true),
        ("token_key", .text w.tokenKey)]).get? "email" = some (.text m.address) :=
      (Dict.get?_set_ne _ _ (show "token_key".toList ≠ "email".toList by decide)).trans
        ((Dict.get?_set_ne _ _ (show "verified".toList ≠ "email".toList by decide)).trans
          (Dict.get?_set_self _ _ _))
    refine .mail (List.mem_append_right _ List.mem_cons_self) hm ?_
      (Value.text.inj (Option.some.inj (hset.symm.trans hrowEmail)))
    rw [hid]
    exact claim_eq_text.2 hclaim
  · exact (hs id row email hold hwas hrowEmail).mono (List.subset_append_left _ _)
      (List.Subset.refl _)

/-! ## Mails -/

theorem addressed_requestVerification {t : SignedToken}
    (h : requestVerification s.db c.toCollection email = .ok (some t)) : Addressed (mailOf email t) := by
  unfold requestVerification at h
  split at h
  · cases h
  · split_ifs at h
    · cases h
    · obtain ⟨key, -, h⟩ := Failing.map_eq_ok.1 h
      obtain rfl := Option.some.inj h
      exact ⟨rfl, Or.inl ⟨rfl, rfl⟩⟩

theorem addressed_requestEmailChange {claimed : Value} {new : Text} {t : SignedToken}
    (h : requestEmailChange s.db c.toCollection claimed new = .ok t) :
    Addressed (mailOf (Text.strip new) t) := by
  obtain ⟨row?, -, h⟩ := Failing.bind_eq_ok.1 h
  cases row? with
  | none => cases h
  | some row =>
    dsimp only [emailChangeToken] at h
    split_ifs at h
    obtain ⟨key, -, rfl⟩ := Failing.map_eq_ok.1 h
    exact ⟨rfl, Or.inr ⟨rfl, rfl, Text.strip_strip new⟩⟩

/-! ## Runs -/

/-- What is verified is proven, and every mail is addressed to the email it is for. -/
structure Sound (c : AuthCollection) (s : State) : Prop where
  verified : VerifiedProven c s
  addressed : ∀ m ∈ s.mailed, Addressed m

/-- A request that writes no email and verifies nobody. -/
theorem Sound.of_kept (hs : Sound c s)
    (hkept : ∀ id row', s'.db.rowById c.name id = some row' → isVerified row' →
      ∃ row, s.db.rowById c.name id = some row ∧ isVerified row ∧
        row'.get? "email" = row.get? "email")
    (hevidence : s'.evidence = s.evidence) (hmailed : s'.mailed = s.mailed) : Sound c s' :=
  ⟨verifiedProven_of_kept hs.verified hkept (hevidence ▸ List.Subset.refl _)
    (hmailed ▸ List.Subset.refl _), hmailed ▸ hs.addressed⟩

theorem Sound.of_silent (hs : Sound c s) (hdb : s'.db = s.db) (hevidence : s'.evidence = s.evidence)
    (hmailed : s'.mailed = s.mailed) : Sound c s' :=
  hs.of_kept (fun _ row' hrow' hwas => ⟨row', hdb ▸ hrow', hwas, rfl⟩) hevidence hmailed

/-- A mail is sent. -/
theorem Sound.of_mailed {m : Mail} (hs : Sound c s) (hm : Addressed m) :
    Sound c { s with mailed := s.mailed ++ [m] } := by
  refine ⟨fun id row email hrow hwas hemail => ?_, fun m' hm' => ?_⟩
  · exact (hs.verified id row email hrow hwas hemail).mono (List.Subset.refl _)
      (List.subset_append_left _ _)
  · rcases List.mem_append.1 hm' with hm' | hm'
    · exact hs.addressed m' hm'
    · rw [List.mem_singleton.1 hm']
      exact hm

/-- One request keeps the invariant. -/
theorem Sound.step {a : Action} (hs : Sound c s) (hunprivileged : Unprivileged rt pg c s a)
    (hstores : StoresReported rt pg c s a) : Sound c (step rt pg verify c.toCollection s a) := by
  cases a with
  | create w route req opts =>
    unfold Accounts.step
    dsimp only
    split
    · rename_i db' rest heq
      exact hs.of_kept (kept_create hunprivileged heq) rfl rfl
    · exact hs
  | update w id route req opts =>
    unfold Accounts.step
    dsimp only
    split
    · rename_i db' m heq
      exact hs.of_kept (kept_update hunprivileged heq) rfl rfl
    · exact hs
  | remove id =>
    refine hs.of_kept (fun i row' hrow' hwas => ⟨row', ?_, hwas, rfl⟩) rfl rfl
    exact (Db.rowById_deleteRow hrow').2
  | oauth2 w exchange http payload generated =>
    refine ⟨proven_oauth2 hs.verified hstores, ?_⟩
    have hmailed : (Accounts.step rt pg verify c.toCollection s
        (.oauth2 w exchange http payload generated)).mailed = s.mailed := by
      unfold Accounts.step
      dsimp only
      generalize authWithOauth2 exchange w rt pg s.store c.toCollection http payload generated = x
      obtain ⟨store, r⟩ := x
      cases r <;> rfl
    rw [hmailed]
    exact hs.addressed
  | signIn http payload =>
    unfold Accounts.step
    dsimp only
    split
    · exact hs.of_silent rfl rfl rfl
    · exact hs
  | refresh http t =>
    unfold Accounts.step
    dsimp only
    split
    · exact hs.of_silent rfl rfl rfl
    · exact hs
  | session id refreshable =>
    unfold Accounts.step
    dsimp only
    split
    · exact hs.of_silent rfl rfl rfl
    · exact hs
  | requestVerification email =>
    unfold Accounts.step
    dsimp only
    split
    · rename_i t heq
      exact hs.of_mailed (addressed_requestVerification heq)
    · exact hs
  | confirmVerification mail current =>
    unfold Accounts.step
    dsimp only
    split
    · exact hs
    · rename_i m hm
      have hmem := List.mem_of_getElem? hm
      split
      · rename_i db' heq
        exact ⟨proven_confirmVerification hs.verified hmem (hs.addressed m hmem) heq, hs.addressed⟩
      · exact hs
  | requestPasswordReset email =>
    unfold Accounts.step
    dsimp only
    split
    · exact hs.of_silent rfl rfl rfl
    · exact hs
  | confirmPasswordReset w t password passwordConfirm =>
    unfold Accounts.step
    dsimp only
    split
    · rename_i db' heq
      obtain ⟨i, row, -, rfl⟩ := of_confirmPasswordReset heq
      refine hs.of_kept (kept_updateRow ?_ rfl rfl) rfl rfl
      exact (by decide : "id".toList ∉ (["password_hash", "token_key"] : List Text))
    · exact hs
  | requestEmailChange id newEmail =>
    unfold Accounts.step
    dsimp only
    split
    · rename_i t heq
      exact hs.of_mailed (addressed_requestEmailChange heq)
    · exact hs
  | confirmEmailChange w mail current password =>
    unfold Accounts.step
    dsimp only
    split
    · exact hs
    · rename_i m hm
      have hmem := List.mem_of_getElem? hm
      split
      · rename_i db' heq
        exact ⟨proven_confirmEmailChange hs.verified hmem (hs.addressed m hmem) heq, hs.addressed⟩
      · exact hs
  | elsewhere others =>
    refine hs.of_kept (fun i row' hrow' hwas => ⟨row', ?_, hwas, rfl⟩) rfl rfl
    have hsame : (withOthers s.db c.name others).rowById c.name i = some row' := hrow'
    unfold Db.rowById at hsame ⊢
    rwa [rows_withOthers] at hsame

/-- In every run whose clients are neither superusers nor have manage access, and in which every
login that makes a record stores the reported email and completes, a verified email is proven. -/
theorem verified_proven (hstart : Unverified c s)
    (hrun : Run rt pg verify c.toCollection
      (fun s a => Unprivileged rt pg c s a ∧ StoresReported rt pg c s a) s s') :
    VerifiedProven c s' := by
  have hsound : Sound c s' := by
    induction hrun with
    | start =>
      refine ⟨fun id row email hrow hwas => absurd hwas (hstart.rows id row hrow), ?_⟩
      rw [hstart.mailed]
      exact nofun
    | step _ hmeets ih => exact ih.step hmeets.1 hmeets.2
  exact hsound.verified

end

/-- Members that anyone may become. -/
def openMembers : AuthCollection where
  toCollection := members (some [])
  isAuth := rfl
  fields_ne _ hf := absurd hf List.not_mem_nil

def noMembers : State := { store := emptyStore openMembers.toCollection }

theorem noMembers_unverified : Unverified openMembers noMembers := by
  refine ⟨fun id row hrow => ?_, rfl⟩
  cases hrow

/-- A client registers. -/
def registers : Action :=
  .create .simple .single { data := [("email", .text "a@b.c"), ("password", .text "password"),
    ("passwordConfirm", .text "password")] } {}

theorem registers_unprivileged (s : State) :
    Unprivileged .simple .scalars openMembers s registers :=
  ⟨rfl, fun _ _ _ _ h => absurd (Except.ok.inj h) Bool.false_ne_true⟩

/-- A client that registers and confirms its email. -/
theorem confirmed_proven : ∃ s', (∃ row, s'.db.rowById "members" "new" = some row ∧ isVerified row ∧
    row.get? "email" = some (.text "a@b.c")) ∧ VerifiedProven openMembers s' := by
  refine ⟨_, ?_, @verified_proven .simple .scalars (fun _ _ => true) _ _ _ noMembers_unverified
    (.step (.step (.step .start (a := registers) ⟨registers_unprivileged _, trivial⟩)
      (a := .requestVerification "a@b.c") ⟨trivial, trivial⟩)
      (a := .confirmVerification 0 true) ⟨trivial, trivial⟩)⟩
  exact ⟨_, rfl, rfl, rfl⟩

/-- A login whose client writes another email than the provider reports. -/
def borrowsEmail : Action :=
  .oauth2 .simple (.ok [("id", .text "g1"), ("email", .text "a@b.c")]) {}
    [("provider", .text "google"), ("code", .text "c"), ("codeVerifier", .text "v"),
      ("redirectUrl", .text "r"), ("createData", .obj [("email", .text "x@y.z")])] "secret secret"

/-- Its record is verified with the email of somebody else. -/
theorem borrowed_email_verified : ¬∀ s, Run .simple .scalars (fun _ _ => true)
    openMembers.toCollection (Unprivileged .simple .scalars openMembers) noMembers s →
      VerifiedProven openMembers s := by
  intro h
  have hproven := h _ (.step .start (a := borrowsEmail) trivial)
  have hlogin : ∃ row, (step .simple .scalars (fun _ _ => true) openMembers.toCollection noMembers
      borrowsEmail).db.rowById "members" "new" = some row ∧ isVerified row ∧
        row.get? "email" = some (.text "x@y.z") := ⟨_, rfl, rfl, rfl⟩
  obtain ⟨row, hrow, hwas, hemail⟩ := hlogin
  have hevidence : (step .simple .scalars (fun _ _ => true) openMembers.toCollection noMembers
      borrowsEmail).evidence = [.login "new" "a@b.c"] := rfl
  cases hproven "new" row "x@y.z" hrow hwas hemail with
  | mail hpresented =>
    rw [hevidence] at hpresented
    cases List.mem_singleton.1 hpresented
  | login hpresented =>
    rw [hevidence] at hpresented
    exact absurd (Evidence.login.inj (List.mem_singleton.1 hpresented)).2 (by decide)

end Accounts

end PPBase
