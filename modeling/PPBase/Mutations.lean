import PPBase.Delivery
import PPBase.RecordApi

/-!
# What the response of a mutation reveals

The email of an auth record and the hidden fields are withheld from clients by the view
endpoint. The record of a mutation's response is built for anyone : it always carries the
email, whatever the view rule says. With a `fields` parameter in a batch it is built for the
client, but the view rule is still not read.
-/

namespace PPBase

namespace Mutations

open RecordApi Response

/-- A create or update request that went through, alone or in a batch : the state after it, the
record and the response. -/
inductive Mutated (w : Writer) (rt : Runtime) (pg : Pg) (db : Db) (c : Collection) (route : Route)
    (req : RecordRequest) (opts : Options) : Db → Text → ExpandedRecord → Prop
  | create {db' : Db} {id : Text} {m : ExpandedRecord}
      (h : createHandler w rt pg db c route req opts = .ok (db', id, m)) :
      Mutated w rt pg db c route req opts db' id m
  | update {db' : Db} {id : Text} {m : ExpandedRecord}
      (h : updateHandler w rt pg db c id route req opts = .ok (db', m)) :
      Mutated w rt pg db c route req opts db' id m

/-- The email of an auth record, and hidden fields. -/
def Sensitive (c : Collection) (k : Text) : Prop :=
  c.type = .auth ∧ k = "email".toList ∨ k ∈ hiddenFields c

/-- Every sensitive value of the response is one the view endpoint shows. -/
def RevealsNoMore (c : Collection) (response : Dict Text Value)
    (view : Except ErrorResponse (Dict Text Value)) : Prop :=
  ∀ k v, Sensitive c k → response.get? k = some v → ∃ m, view = .ok m ∧ m.get? k = some v

/-- The response is cut to a `fields` parameter. -/
def selects (route : Route) (opts : Options) : Bool := route = .batch && opts.fields ≠ []

/-- The client may see the email, or the schema shows it as an ordinary field. -/
def seesEmail (rt : Runtime) (c : Collection) (row : Row) (auth : Option TokenPayload) : Bool :=
  canViewAuthEmail rt c (strippedRow c row) (viewer auth) ||
    decide (SchemaShows c (hiddenFields c) "email")

/-- The keys every record of the collection is shown with. -/
def systemKeys (c : Collection) (seesEmail : Bool) : List Text :=
  let base : List Text := ["id", "collectionId", "collectionName", "created", "updated"]
  let email : List Text := if seesEmail then ["email"] else []
  let flags : List Text := ["emailVisibility", "verified"]
  if c.type = .auth then base ++ email ++ flags else base

/-- A sensitive key is in the response. -/
def carries (rt : Runtime) (c : Collection) (row : Row) (route : Route)
    (auth : Option TokenPayload) (opts : Options) (k : Text) : Bool :=
  if selects route opts then
    Realtime.keepsKey (fieldsFilter? opts.fields) k && k ∈ systemKeys c (seesEmail rt c row auth)
  else k ∈ systemKeys c true

/-- The client has no superuser rights. -/
def Client (auth : Option TokenPayload) : Prop :=
  isSuperuserAuth (some ((auth.map TokenPayload.authInfo).getD [])) = false

/-- The client passes the view rule if a sensitive key is in the response, and may see the email
if the response is built for anyone. -/
structure Discreet (rt : Runtime) (pg : Pg) (db : Db) (c : Collection) (row : Row) (route : Route)
    (http : HttpRequest) (auth : Option TokenPayload) (opts : Options) : Prop where
  view : (∃ k, Sensitive c k ∧ carries rt c row route auth opts k = true) →
    viewable rt pg db (isAdminPayload auth) (prepareRequestContext http auth []) (c, row) = true
  email : c.type = .auth → selects route opts = false → seesEmail rt c row auth = true

section

variable {w : Writer} {rt : Runtime} {pg : Pg} {db db' : Db} {c : Collection} {route : Route}
  {req : RecordRequest} {opts : Options} {id : Text} {m : ExpandedRecord} {row : Row}
  {auth : Option TokenPayload} {http : HttpRequest}

theorem response_of_mutated (h : Mutated w rt pg db c route req opts db' id m) :
    mutationResponse rt db' c id route req.auth opts = some m := by
  cases h with
  | create h => exact (of_createHandler h).2.2.2
  | update h => exact (of_updateHandler h).2.2.2

/-- Expansion leaves the record's own fields as they are. -/
theorem fields_expanded (d : Dict Text Value) : (expanded rt db c auth opts row d).fields = d := by
  unfold expanded
  split_ifs
  · rfl
  · obtain ⟨e, he⟩ := Realtime.expandRecord_eq rt db (viewer auth) opts.expand (Expand.root c row d)
    rw [he]
    rfl

/-- What the view endpoint shows. -/
theorem viewHandler_eq_ok (hrow : db.rowById c.name id = some row) {d : Dict Text Value} :
    viewHandler rt pg db c id http auth [] = .ok d ↔
      viewable rt pg db (isAdminPayload auth) (prepareRequestContext http auth []) (c, row) = true ∧
        d = buildRecordResponse rt c (strippedRow c row) (hiddenFields c) none (viewer auth) := by
  have hget : getRecord rt db c id [] (viewer auth) =
      some (buildRecordResponse rt c (strippedRow c row) (hiddenFields c) none (viewer auth)) := by
    unfold getRecord
    rw [hrow]
    rfl
  have hid := Expand.rowById_id hrow
  unfold viewHandler viewable
  dsimp only
  rw [hget]
  cases checkRule c.viewRule (isAdminPayload auth) with
  | deny => simp
  | allow => simp [eq_comm]
  | expression rule =>
    dsimp only
    rw [hid]
    dsimp only
    rw [passes_eq_true]
    unfold recordRule
    cases checkRecordRule rt pg db c id rule (prepareRequestContext http auth []) with
    | error e =>
      constructor
      · rintro ⟨⟩
      · rintro ⟨⟨⟩, -⟩
    | ok b =>
      cases b with
      | false =>
        constructor
        · rintro ⟨⟩
        · rintro ⟨⟨⟩, -⟩
      | true =>
        constructor
        · rintro ⟨⟩
          exact ⟨rfl, rfl⟩
        · rintro ⟨-, rfl⟩
          rfl

/-- The columns every record of the collection is shown with. -/
def systemColumns (rt : Runtime) (c : Collection) (row : Row) (seesEmail : Bool) : Dict Text Value :=
  if c.type = .auth then authColumns row seesEmail (baseColumns rt c row) else baseColumns rt c row

variable {k : Text}

theorem has_systemColumns {sees : Bool} :
    ((systemColumns rt c row sees).get? k).isSome = true ↔ k ∈ systemKeys c sees := by
  have hkeys : (systemColumns rt c row sees).keys = systemKeys c sees := by
    unfold systemColumns systemKeys
    by_cases hauth : c.type = .auth
    · rw [if_pos hauth, if_pos hauth]
      cases sees <;> rfl
    · rw [if_neg hauth, if_neg hauth]
      rfl
  rw [← hkeys]
  exact Dict.has_iff_mem_keys

theorem mem_systemKeys_ne_email {b b' : Bool} (hk : k ≠ "email".toList) :
    k ∈ systemKeys c b ↔ k ∈ systemKeys c b' := by
  have hnil : k ∉ ["email".toList] := fun h => hk (List.mem_singleton.1 h)
  unfold systemKeys
  dsimp only
  split_ifs <;> simp only [List.mem_append, hnil, List.not_mem_nil]

theorem mem_systemKeys_email {b : Bool} (hauth : c.type = .auth) :
    "email".toList ∈ systemKeys c b ↔ b = true := by
  unfold systemKeys
  dsimp only
  rw [if_pos hauth]
  cases b <;> decide

theorem get?_systemColumns_eq_none {sees : Bool}
    (hk : k = "password_hash".toList ∨ k = "token_key".toList ∨ k = "email_visibility".toList) :
    (systemColumns rt c row sees).get? k = none := by
  rw [← Option.not_isSome_iff_eq_none, has_systemColumns]
  unfold systemKeys
  rcases hk with rfl | rfl | rfl <;> split_ifs <;> decide

/-- A hidden field is shown only if a system column has its name. -/
theorem get?_hidden (hk : k ∈ hiddenFields c) (v : Viewer) :
    (buildRecordResponse rt c row (hiddenFields c) none v).get? k =
      (systemColumns rt c row (canViewAuthEmail rt c row v)).get? k := by
  have hschema : c.schema ≠ [] := by
    intro hnil
    unfold hiddenFields at hk
    rw [hnil] at hk
    cases hk
  have hnot : ¬∃ f ∈ c.schema, f.name = k ∧ showsField (hiddenFields c) none .anyone f = true := by
    rintro ⟨f, -, rfl, hf⟩
    exact ((showsField_none _ f).1 hf).2.2 hk
  rw [buildRecordResponse_none, if_pos hschema]
  show (stripInternal (schemaColumns rt row _ c.schema
    (systemColumns rt c row (canViewAuthEmail rt c row v)))).get? k = _
  rw [get?_stripInternal]
  split_ifs with hstrip
  · exact (get?_systemColumns_eq_none (hstrip.imp_right (Or.imp_right And.left))).symm
  · rw [get?_schemaColumns, if_neg hnot]

/-- For a client who is no superuser a `fields` parameter only cuts the response. -/
theorem buildRecordResponse_fields (hclient : Client auth) (ff : Option (List Text)) :
    buildRecordResponse rt c row (hiddenFields c) ff (viewer auth) =
      applyFields ff (buildRecordResponse rt c row (hiddenFields c) none (viewer auth)) := by
  have hshows : showsField (hiddenFields c) ff (viewer auth) =
      showsField (hiddenFields c) none (viewer auth) := by
    funext f
    unfold showsField viewer
    dsimp only
    rw [hclient, Bool.and_false, Bool.and_false]
  unfold buildRecordResponse
  dsimp only
  rw [hshows]
  rfl

/-- What the view endpoint shows of the record, if anything. -/
def shown (rt : Runtime) (c : Collection) (row : Row) (v : Viewer) : Dict Text Value :=
  buildRecordResponse rt c (strippedRow c row) (hiddenFields c) none v

/-- The fields of a response. -/
theorem fields_of_mutated (h : Mutated w rt pg db c route req opts db' id m)
    (hclient : Client req.auth) : ∃ row, db'.rowById c.name id = some row ∧
      m.fields = if selects route opts then
          applyFields (fieldsFilter? opts.fields) (shown rt c row (viewer req.auth))
        else shown rt c row .anyone := by
  obtain ⟨row, hrow, hm⟩ := Option.bind_eq_some_iff.1 (response_of_mutated h)
  obtain ⟨d, hd, rfl⟩ := Option.map_eq_some_iff.1 hm
  refine ⟨row, hrow, ?_⟩
  rw [fields_expanded]
  unfold mutationRecord getRecord at hd
  rw [hrow] at hd
  by_cases hs : route = .batch ∧ opts.fields ≠ []
  · have hsel : selects route opts = true := by
      unfold selects
      rw [decide_eq_true hs.1, decide_eq_true hs.2, Bool.and_self]
    rw [if_pos hs, Option.map_some, Option.some.injEq] at hd
    rw [if_pos hsel, ← hd]
    exact buildRecordResponse_fields hclient _
  · have hsel : ¬selects route opts = true := by
      unfold selects
      rwa [Bool.and_eq_true_iff, decide_eq_true_iff, decide_eq_true_iff]
    rw [if_neg hs, Option.map_some, Option.some.injEq] at hd
    rw [if_neg hsel, ← hd]
    rfl

/-- A sensitive key is shown exactly if it is a system column. -/
theorem shown_sensitive (hk : Sensitive c k) (v : Viewer) :
    ((shown rt c row v).get? k).isSome = true ↔
      k ∈ systemKeys c (canViewAuthEmail rt c (strippedRow c row) v ||
        decide (SchemaShows c (hiddenFields c) "email")) := by
  by_cases hhidden : k ∈ hiddenFields c
  · have hkeys : k ∈ systemKeys c (canViewAuthEmail rt c (strippedRow c row) v) ↔
        k ∈ systemKeys c (canViewAuthEmail rt c (strippedRow c row) v ||
          decide (SchemaShows c (hiddenFields c) "email")) := by
      by_cases hshows : SchemaShows c (hiddenFields c) "email"
      · have hne : k ≠ "email".toList := by
          rintro rfl
          obtain ⟨f, -, hf, -, -, hnot⟩ := hshows
          exact hnot (hf ▸ hhidden)
        rw [decide_eq_true hshows, Bool.or_true]
        exact mem_systemKeys_ne_email hne
      · rw [decide_eq_false hshows, Bool.or_false]
    unfold shown
    rw [get?_hidden hhidden, has_systemColumns, hkeys]
  · obtain ⟨hauth, rfl⟩ := hk.resolve_right hhidden
    unfold shown
    rw [mem_systemKeys_email hauth, get?_email_buildRecordResponse hauth]
    by_cases hshows : SchemaShows c (hiddenFields c) "email"
    · rw [if_pos hshows, decide_eq_true hshows, Bool.or_true]
      rfl
    · rw [if_neg hshows, decide_eq_false hshows, Bool.or_false]
      cases canViewAuthEmail rt c (strippedRow c row) v with
      | true => exact ⟨fun _ => rfl, fun _ => rfl⟩
      | false => rfl

/-- The response has a sensitive key exactly if it carries it. -/
theorem carries_iff
    (hfields : m.fields = if selects route opts then applyFields (fieldsFilter? opts.fields) (shown rt c row (viewer auth)) else shown rt c row .anyone)
    (hk : Sensitive c k) :
    (m.fields.get? k).isSome = true ↔ carries rt c row route auth opts k = true := by
  unfold carries
  rw [hfields]
  by_cases hsel : selects route opts = true
  · rw [if_pos hsel, if_pos hsel, get?_applyFields]
    cases Realtime.keepsKey (fieldsFilter? opts.fields) k with
    | false => rfl
    | true =>
      rw [if_pos rfl, shown_sensitive hk, Bool.true_and, decide_eq_true_iff]
      rfl
  · rw [if_neg hsel, if_neg hsel, shown_sensitive hk, decide_eq_true_iff]
    rfl

/-- A client who sees the email sees what anyone would. -/
theorem shown_email (hauth : c.type = .auth) (hsees : seesEmail rt c row auth = true) :
    (shown rt c row (viewer auth)).get? "email".toList =
      (shown rt c row .anyone).get? "email".toList := by
  unfold shown
  rw [get?_email_buildRecordResponse hauth, get?_email_buildRecordResponse hauth]
  by_cases hshows : SchemaShows c (hiddenFields c) "email"
  · rw [if_pos hshows, if_pos hshows]
  · unfold seesEmail at hsees
    rw [decide_eq_false hshows, Bool.or_false] at hsees
    rw [if_neg hshows, if_neg hshows, if_pos hsees]
    rfl

/-- A response of a mutation reveals no more than the view endpoint exactly if the client passes
the view rule, where a sensitive key is carried, and may see the email, where the response is
built for anyone. -/
theorem mutation_reveals_iff (h : Mutated w rt pg db c route req opts db' id m)
    (hclient : Client req.auth) (http : HttpRequest) :
    ∃ row, db'.rowById c.name id = some row ∧
      (RevealsNoMore c m.fields (viewHandler rt pg db' c id http req.auth []) ↔
        Discreet rt pg db' c row route http req.auth opts) := by
  obtain ⟨row, hrow, hfields⟩ := fields_of_mutated h hclient
  refine ⟨row, hrow, ?_, ?_⟩
  · intro hreveals
    refine ⟨?_, ?_⟩
    · rintro ⟨k, hk, hcarries⟩
      obtain ⟨v, hv⟩ := Option.isSome_iff_exists.1 ((carries_iff hfields hk).2 hcarries)
      obtain ⟨d, hd, -⟩ := hreveals k v hk hv
      exact ((viewHandler_eq_ok hrow).1 hd).1
    · intro hauth hsel
      have hk : Sensitive c "email".toList := Or.inl ⟨hauth, rfl⟩
      have hcarries : carries rt c row route req.auth opts "email".toList = true := by
        unfold carries
        rw [hsel, if_neg Bool.false_ne_true, decide_eq_true_iff, mem_systemKeys_email hauth]
      obtain ⟨v, hv⟩ := Option.isSome_iff_exists.1 ((carries_iff hfields hk).2 hcarries)
      obtain ⟨d, hd, hdv⟩ := hreveals _ v hk hv
      have hsome : ((shown rt c row (viewer req.auth)).get? "email".toList).isSome = true := by
        unfold shown
        rw [← ((viewHandler_eq_ok hrow).1 hd).2, hdv]
        rfl
      exact (mem_systemKeys_email hauth).1 ((shown_sensitive hk _).1 hsome)
  · intro hdiscreet k v hk hv
    have hcarries : carries rt c row route req.auth opts k = true := by
      rw [← carries_iff hfields hk, hv]
      rfl
    refine ⟨_, (viewHandler_eq_ok hrow).2 ⟨hdiscreet.view ⟨k, hk, hcarries⟩, rfl⟩, ?_⟩
    show (shown rt c row (viewer req.auth)).get? k = some v
    rw [hfields] at hv
    by_cases hsel : selects route opts = true
    · rw [if_pos hsel, get?_applyFields] at hv
      split_ifs at hv
      exact hv
    · rw [if_neg hsel] at hv
      rw [← hv]
      by_cases hemail : c.type = .auth ∧ k = "email".toList
      · obtain ⟨hauth, rfl⟩ := hemail
        exact shown_email hauth (hdiscreet.email hauth (Bool.not_eq_true _ ▸ hsel))
      · unfold shown
        by_cases hauth : c.type = .auth
        · exact get?_buildRecordResponse_ne_email (fun hk => hemail ⟨hauth, hk⟩) _ _
        · rw [buildRecordResponse_of_not_auth hauth]

end

/-- Profiles that everyone may view and edit, with emails of their own. -/
def profiles : Collection where
  id := "profiles"
  name := "profiles"
  type := .auth
  viewRule := some []
  updateRule := some []

/-- One profile that keeps its email to itself, unless `visible`. -/
def profilesDb (visible : Bool) : Db where
  collections := [profiles]
  tables := [("profiles", ⟨["id", "email", "email_visibility", "updated"],
    [[("id", .text "p1"), ("email", .text "p@x"), ("email_visibility", .bool visible)]]⟩)]

/-- An anonymous update of a profile with a visible email reveals what the view endpoint does. -/
theorem visible_email_revealed :
    ∃ db' m, Mutated .simple .simple .scalars (profilesDb true) profiles .single {} {} db' "p1" m ∧
      Client none ∧
      RevealsNoMore profiles m.fields (viewHandler .simple .scalars db' profiles "p1" {} none []) := by
  have hupdate : ∃ db' m, updateHandler .simple .simple .scalars (profilesDb true) profiles "p1"
      .single {} {} = .ok (db', m) ∧ ∃ row, db'.rowById "profiles" "p1" = some row ∧
        Discreet .simple .scalars db' profiles row .single {} none {} :=
    ⟨_, _, rfl, _, rfl, fun _ => rfl, fun _ _ => rfl⟩
  obtain ⟨db', m, hm, row, hrow, hdiscreet⟩ := hupdate
  obtain ⟨row', hrow', hiff⟩ := mutation_reveals_iff (.update hm) rfl {}
  obtain rfl := Option.some.inj (hrow.symm.trans hrow')
  exact ⟨db', m, .update hm, rfl, hiff.2 hdiscreet⟩

/-- One of a profile with a private email answers with that email. -/
theorem private_email_revealed :
    ∃ db' m, Mutated .simple .simple .scalars (profilesDb false) profiles .single {} {} db' "p1" m ∧
      Client none ∧
      ¬RevealsNoMore profiles m.fields
        (viewHandler .simple .scalars db' profiles "p1" {} none []) := by
  have hupdate : ∃ db' m d, updateHandler .simple .simple .scalars (profilesDb false) profiles "p1"
      .single {} {} = .ok (db', m) ∧ m.fields.get? "email".toList = some (.text "p@x") ∧
        viewHandler .simple .scalars db' profiles "p1" {} none [] = .ok d ∧
        d.get? "email".toList = none :=
    ⟨_, _, _, rfl, rfl, rfl, rfl⟩
  obtain ⟨db', m, d, hm, hemail, hview, hnone⟩ := hupdate
  refine ⟨db', m, .update hm, rfl, fun h => ?_⟩
  obtain ⟨d', hd', hv⟩ := h _ _ (Or.inl ⟨rfl, rfl⟩) hemail
  obtain rfl := Except.ok.inj (hview.symm.trans hd')
  rw [hnone] at hv
  cases hv

end Mutations

end PPBase
