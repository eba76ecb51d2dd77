import PPBase.Accounts
import PPBase.Counters

/-!
# Passwords

A password is set by a creation, an update or a confirmed reset (`Sets`). Each of them asks for
eight characters and for no upper bound, although its message names one. bcrypt compares 72 bytes
(`ComparesBytes`), so that a password is the only one that signs in exactly if it has fewer
(`only_password_iff`).
-/

namespace PPBase

namespace Passwords

open Session AuthFlows RecordStore Accounts Counters

/-- What bcrypt promises : a password matches a hash if its first 72 bytes are those of the password
that was hashed. -/
structure ComparesBytes (verify : Text → Text → Bool) (hash : Text → Text) : Prop where
  ne_nil : ∀ p, hash p ≠ []
  verify_hash : ∀ p q, verify q (hash p) = true ↔
    (Text.encodeUtf8 q).take 72 = (Text.encodeUtf8 p).take 72

section

variable {w : Writer} {rt : Runtime} {verify : Text → Text → Bool} {db db' later : Db}
  {c : AuthCollection} {id identity p : Text} {given : Option Text} {row : Row}

/-- A request that makes this the password of the record. -/
inductive Sets (w : Writer) (rt : Runtime) (db : Db) (c : AuthCollection) (id p : Text) (db' : Db) :
    Prop
  | create {data : Row} {files : Dict Text (List Upload)} {payload : Row}
      (hp : getKey data "password" = .text p)
      (h : createRecord w rt db c.toCollection data files = .ok (db', id, payload))
  | update {data : Row} {files : Dict Text (List Upload)} (hp : getKey data "password" = .text p)
      (h : updateRecord w rt db c.toCollection id data files = .ok (some db'))
  | reset {t : SignedToken} {confirm : Text} (hid : t.claims.get? "id" = some (.text id))
      (h : confirmPasswordReset w db c.toCollection t p confirm = .ok db')

/-- A login that reads the record, whose password was not written again. -/
structure Reads (db' later : Db) (c : Collection) (id identity : Text) (given : Option Text) :
    Prop where
  enabled : c.options.passwordAuthEnabled = true
  found : ((identityField c given).bind fun field => rawRecordByField later c field identity) =
    later.rowById c.name id
  kept : ∃ row row', db'.rowById c.name id = some row ∧ later.rowById c.name id = some row' ∧
    row'.get? "password_hash" = row.get? "password_hash"
  signs : ∀ row, later.rowById c.name id = some row → ∃ t, signInToken row c = .ok t

/-! ## The stored hash -/

/-- An update with a password writes it. -/
theorem updateDraft_password {data : Row} {files : Dict Text (List Upload)} {d : Draft}
    (h : updateDraft w rt c.toCollection row data files = .ok d) (herrors : d.errors = [])
    (hp : getKey data "password" = .text p) :
    d.columns.get? "password_hash" = some (.text (w.hashPassword p)) := by
  obtain ⟨d₁, h₁, hhash, herrors₁⟩ := updateDraft_fields h (k := "password_hash")
    (fun _ _ _ _ => spares_system (by decide)) fun _ _ => spares_system (by decide)
  rw [if_pos c.isAuth] at h₁
  obtain ⟨p', hp', hcolumn, -⟩ := authUpdates_credentials h₁ (herrors₁ herrors) fun hnull =>
    Value.noConfusion (hp.symm.trans hnull)
  obtain rfl := Value.text.inj (hp.symm.trans hp')
  rw [hhash, hcolumn]

/-- The record has the hash of the password that was set. -/
theorem Sets.hash (h : Sets w rt db c id p db') (hrow : db'.rowById c.name id = some row) :
    row.get? "password_hash" = some (.text (w.hashPassword p)) := by
  cases h with
  | create hp h =>
    obtain ⟨d, -, hd, herrors, hnone, rfl⟩ := of_createRecord h
    obtain ⟨-, ⟨p', hp', hhash, -⟩, -⟩ := get?_createDraft hd herrors
    obtain rfl := Value.text.inj (hp.symm.trans hp')
    rcases Db.rowById_of_insertRow hrow with hold | ⟨-, rfl, -⟩
    · rw [hnone] at hold
      cases hold
    · exact hhash
  | update hp h =>
    obtain ⟨row₁, d, -, hd, herrors, hdb⟩ := of_updateRecord h
    have hcolumn := updateDraft_password hd herrors hp
    rcases hdb with ⟨hlength, -⟩ | ⟨-, rfl⟩
    · exact absurd (eq_updated (grows_updateDraft hd) hlength hcolumn) (by decide)
    · obtain ⟨row₂, -, rfl⟩ := Db.rowById_updateRow hrow
      rw [Dict.get?_update (nodup_updateDraft hd), hcolumn]
      rfl
  | reset hid h =>
    obtain ⟨id', row₁, hrecord, rfl⟩ := of_confirmPasswordReset h
    obtain ⟨-, hid', -⟩ := tokenRecord_eq_ok.1 hrecord
    obtain rfl := Value.text.inj (Option.some.inj (hid.symm.trans hid'))
    obtain ⟨row₂, -, rfl⟩ := Db.rowById_updateRow hrow
    have hnodup : (Dict.keys [("password_hash".toList, Value.text (w.hashPassword p)),
        ("token_key", .text w.tokenKey)]).Nodup := by
      show (["password_hash", "token_key"] : List Text).Nodup
      decide
    rw [Dict.get?_update hnodup]
    rfl

/-! ## Logging in -/

theorem passwordMatches_iff {hash : Text → Text} (hverify : ComparesBytes verify hash)
    (hhash : row.get? "password_hash" = some (.text (hash p))) {q : Text} :
    passwordMatches verify row q = true ↔
      (Text.encodeUtf8 q).take 72 = (Text.encodeUtf8 p).take 72 := by
  unfold passwordMatches
  rw [hhash, ← hverify.verify_hash]
  simp [hverify.ne_nil]

/-- Whom a login lets in, by the bytes that are compared. -/
theorem authWithPassword_iff (hverify : ComparesBytes verify w.hashPassword)
    (hsets : Sets w rt db c id p db') (hreads : Reads db' later c.toCollection id identity given)
    {q : Text} :
    (∃ s, authWithPassword verify later c.toCollection identity q given = .ok (some s)) ↔
      (Text.encodeUtf8 q).take 72 = (Text.encodeUtf8 p).take 72 := by
  obtain ⟨row, row', hrow, hrow', hkept⟩ := hreads.kept
  obtain ⟨t, ht⟩ := hreads.signs row' hrow'
  rw [← passwordMatches_iff hverify (hkept.trans (hsets.hash hrow))]
  unfold authWithPassword
  rw [if_neg (by simp [hreads.enabled]), hreads.found, hrow']
  dsimp only
  by_cases hmatches : passwordMatches verify row' q = true
  · rw [if_pos hmatches, ht]
    exact iff_of_true ⟨(row', t), rfl⟩ hmatches
  · rw [if_neg hmatches]
    exact iff_of_false (fun ⟨_, h⟩ => by cases h) hmatches

theorem take_eq_take_iff {α : Type*} {n : ℕ} {a b : List α} (h : a.length < n) :
    b.take n = a.take n ↔ b = a := by
  refine ⟨fun hab => ?_, fun hab => hab ▸ rfl⟩
  rw [List.take_of_length_le h.le] at hab
  have hlength := congrArg List.length hab
  rw [List.length_take] at hlength
  rwa [List.take_of_length_le (by omega)] at hab

theorem take_encodeUtf8_append (p q : Text) (h : 72 ≤ (Text.encodeUtf8 p).length) :
    (Text.encodeUtf8 (p ++ q)).take 72 = (Text.encodeUtf8 p).take 72 := by
  rw [Text.encodeUtf8_append, List.take_append_of_le_length h]

/-- A password is the only one to sign in exactly if it has fewer than 72 bytes. -/
theorem only_password_iff (hverify : ComparesBytes verify w.hashPassword)
    (hsets : Sets w rt db c id p db')
    (hreads : Reads db' later c.toCollection id identity given) :
    (∀ q, (∃ s, authWithPassword verify later c.toCollection identity q given = .ok (some s)) ↔
      q = p) ↔ (Text.encodeUtf8 p).length < 72 := by
  have hlogin := @authWithPassword_iff w rt verify db db' later c id identity p given hverify hsets
    hreads
  constructor
  · intro h
    by_contra hlong
    have hsame := (h (p ++ ['a'])).1 (hlogin.2 (take_encodeUtf8_append p _ (not_lt.1 hlong)))
    simp at hsame
  · intro hshort q
    rw [hlogin, take_eq_take_iff hshort]
    exact ⟨Text.encodeUtf8_injective, congrArg _⟩

end

/-! ## Two passwords for one record -/

/-- An auth collection without fields. -/
def users : AuthCollection where
  toCollection := { id := "users", name := "users", type := .auth }
  isAuth := rfl
  fields_ne _ hf := absurd hf List.not_mem_nil

def usersDb : Db := ⟨[users.toCollection], [("users", ⟨systemColumns, []⟩)]⟩

/-- Hashing that keeps the password, and compares 72 bytes of it. -/
def keeping : Writer := { Writer.simple with hashPassword := fun p => '$' :: p }

def comparing (q h : Text) : Bool := (Text.encodeUtf8 q).take 72 = (Text.encodeUtf8 h.tail).take 72

theorem comparing_comparesBytes : ComparesBytes comparing keeping.hashPassword where
  ne_nil _ := List.cons_ne_nil _ _
  verify_hash _ _ := decide_eq_true_iff

/-- The payload of the only record. -/
def userData (p : Text) : Row :=
  [("email", .text "a@b.c"), ("password", .text p), ("passwordConfirm", .text p)]

def userRow (p : Text) : Row :=
  [("id", .text "new"), ("created", .time 0), ("updated", .time 0),
    ("password_hash", .text ('$' :: p)), ("token_key", .text "key"), ("email", .text "a@b.c"),
    ("email_visibility", .bool false), ("verified", .bool false)]

def oneUser (p : Text) : Db :=
  ⟨[users.toCollection], [("users", ⟨systemColumns, [userRow p]⟩)]⟩

theorem oneUser_reads (p : Text) :
    Reads (oneUser p) (oneUser p) users.toCollection "new" "a@b.c" none where
  enabled := rfl
  found := rfl
  kept := ⟨_, _, rfl, rfl, rfl⟩
  signs _ hrow := Option.some.inj hrow ▸ ⟨_, rfl⟩

theorem oneUser_only_password : (∃ s, authWithPassword comparing (oneUser "password")
      users.toCollection "a@b.c" "password" none = .ok (some s)) ∧
    ¬∃ s, authWithPassword comparing (oneUser "password") users.toCollection "a@b.c" "Password"
      none = .ok (some s) := by
  have hsets : Sets keeping .simple usersDb users "new" "password" (oneUser "password") :=
    @Sets.create keeping .simple usersDb users "new" "password" _ (userData "password") [] _ rfl rfl
  have honly := (only_password_iff comparing_comparesBytes hsets (oneUser_reads "password")).2
    (by decide)
  exact ⟨(honly "password").2 rfl, fun h => absurd ((honly "Password").1 h) (by decide)⟩

/-- 72 characters, which any continuation signs in for. -/
def longPassword : Text := List.replicate 72 'a'

theorem longPassword_not_only : ¬∀ (w : Writer) (rt : Runtime) (verify : Text → Text → Bool)
    (db db' later : Db) (c : AuthCollection) (id identity p : Text) (given : Option Text),
    ComparesBytes verify w.hashPassword → Sets w rt db c id p db' →
      Reads db' later c.toCollection id identity given → ∀ q,
        (∃ s, authWithPassword verify later c.toCollection identity q given = .ok (some s)) ↔
          q = p := by
  intro h
  have hsets : Sets keeping .simple usersDb users "new" longPassword (oneUser longPassword) :=
    @Sets.create keeping .simple usersDb users "new" longPassword _ (userData longPassword) [] _ rfl
      rfl
  have hreads := oneUser_reads longPassword
  have hlogin := authWithPassword_iff comparing_comparesBytes hsets hreads
    (q := longPassword ++ ['a'])
  have hsame := (h _ _ _ _ _ _ _ _ _ _ _ comparing_comparesBytes hsets hreads _).1
    (hlogin.2 (take_encodeUtf8_append _ _ (by decide)))
  exact absurd hsame (by decide)

end Passwords

end PPBase
