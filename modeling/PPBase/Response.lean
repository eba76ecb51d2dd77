import PPBase.Rules

/-!
# Record responses

`build_record_response` turns a row into what the API shows of it. Through the API the email
of an auth record is shown to its owner, to superusers and to everyone if the record says so;
the `Viewer` says who asks, or that nobody in particular does. Without a `fields` parameter
two viewers see the same but for the email (`get?_buildRecordResponse_ne_email`), and the
email is there if the viewer may see it or the schema shows a field of that name
(`get?_email_buildRecordResponse`).
-/

namespace PPBase

/-- Whom a response is built for. `anyone` is a call without request context. -/
inductive Viewer
  | anyone
  | request (auth : Option (Dict Text Value))

/-- `_AUTH_HIDDEN_COLUMNS` -/
def authHiddenColumns : List Text := ["password_hash", "token_key"]

namespace Response

/-- `format_datetime` of an optional column. -/
def formatDatetime (rt : Runtime) : Option Value → Value
  | some (.time t) => .text (rt.formatTime t)
  | some .null | none => .text []
  | some v => v

/-- A column as it is shown. -/
def showValue (rt : Runtime) : Value → Value
  | .time t => .text (rt.formatTime t)
  | v => v

/-- `str(v or "")` -/
def strOrEmpty (rt : Runtime) (v : Option Value) : Text :=
  match v with
  | some v => if v.truthy then Macros.idText rt v else []
  | none => []

/-- `_is_superuser_auth` -/
def isSuperuserAuth : Option (Dict Text Value) → Bool
  | some a => a.get? "type" = some (.text "admin") || a.get? "collectionName" = some (.text "_superusers")
  | none => false

/-- The owner of the row, by the claims of a record's token. -/
def isOwner (rt : Runtime) (c : Collection) (row : Row) (a : Dict Text Value) : Bool :=
  a.get? "type" = some (.text "authRecord") &&
    strOrEmpty rt (a.get? "id") = strOrEmpty rt (row.get? "id") &&
    (strOrEmpty rt (a.get? "collectionId") = c.id || strOrEmpty rt (a.get? "collectionName") = c.name)

/-- `_can_view_auth_email` -/
def canViewAuthEmail (rt : Runtime) (c : Collection) (row : Row) : Viewer → Bool
  | .anyone => true
  | .request auth =>
    (((row.get? "email_visibility").map Value.truthy).getD false) ||
      match auth with
      | some (e :: a) =>
        Dict.get? (e :: a) "type" = some (.text "admin") || isOwner rt c row (e :: a)
      | _ => false

/-- The columns of every record. -/
def baseColumns (rt : Runtime) (c : Collection) (row : Row) : Dict Text Value :=
  [("id", (row.get? "id").getD (.text [])), ("collectionId", .text c.id),
    ("collectionName", .text c.name), ("created", formatDatetime rt (row.get? "created")),
    ("updated", formatDatetime rt (row.get? "updated"))]

/-- The columns of an auth record, the email only if it may be seen. -/
def authColumns (row : Row) (seesEmail : Bool) (d : Dict Text Value) : Dict Text Value :=
  let d := if seesEmail then d.set "email" ((row.get? "email").getD (.text [])) else d
  (d.set "emailVisibility" ((row.get? "email_visibility").getD (.bool false))).set "verified"
    ((row.get? "verified").getD (.bool false))

/-- The schema field is shown : it is no password, and if hidden it is asked for by name and
the viewer may ask. -/
def showsField (hidden : List Text) (fieldsFilter : Option (List Text)) (viewer : Viewer)
    (f : Field) : Bool :=
  f.name ≠ [] && f.type ≠ .password &&
    (f.name ∉ hidden ||
      (fieldsFilter.any fun ff => f.name ∈ ff) &&
        match viewer with
        | .anyone => true
        | .request auth => isSuperuserAuth auth)

def schemaColumns (rt : Runtime) (row : Row) (shows : Field → Bool) (schema : List Field)
    (d : Dict Text Value) : Dict Text Value :=
  schema.foldl (fun d f =>
    if shows f then d.set f.name (showValue rt ((row.get? f.name).getD .null)) else d) d

/-- The columns of a view without a schema. -/
def viewColumns (rt : Runtime) (row : Row) (d : Dict Text Value) : Dict Text Value :=
  row.foldl (fun d e =>
    if e.1 ∈ baseFields ∨ e.1 ∈ authHiddenColumns then d
    else
      let key : Text := if e.1 = ("email_visibility" : Text) then "emailVisibility" else e.1
      d.set key (showValue rt e.2)) d

/-- The internal columns removed at the end. -/
def stripInternal (d : Dict Text Value) : Dict Text Value :=
  let d := (d.del "password_hash").del "token_key"
  if d.has "email_visibility" && d.has "emailVisibility" then d.del "email_visibility" else d

/-- The `fields` parameter. -/
def applyFields (fieldsFilter : Option (List Text)) (d : Dict Text Value) : Dict Text Value :=
  match fieldsFilter with
  | none | some [] => d
  | some ff => if ("*" : Text) ∈ ff then d else d.filter fun e => e.1 ∈ ff

end Response

open Response

/-- `build_record_response` -/
def buildRecordResponse (rt : Runtime) (c : Collection) (row : Row) (hidden : List Text)
    (fieldsFilter : Option (List Text)) (viewer : Viewer) : Dict Text Value :=
  let d := baseColumns rt c row
  let d := if c.type = .auth then authColumns row (canViewAuthEmail rt c row viewer) d else d
  let d :=
    if c.schema ≠ [] then schemaColumns rt row (showsField hidden fieldsFilter viewer) c.schema d
    else if c.type = .view then viewColumns rt row d
    else d
  applyFields fieldsFilter (stripInternal d)

/-- `_SUPERUSERS_HIDDEN_COLUMNS` -/
def superusersHiddenColumns : List Text := ["password_hash", "token_key", "last_reset_sent_at"]

/-- The row without the columns stripped from `_superusers`. -/
def strippedRow (c : Collection) (row : Row) : Row :=
  if c.name = "_superusers" then row.filter fun e => e.1 ∉ superusersHiddenColumns else row

/-- `_get_hidden_fields` -/
def hiddenFields (c : Collection) : List Text := (c.schema.filter Field.hidden).map Field.name

/-- `_fields_filter` -/
def fieldsFilter? (param : Text) : Option (List Text) :=
  if param = [] then none
  else some ((Text.split ',' param).filterMap fun f =>
    if Text.strip f = [] then none else some (Text.strip f))

/-- `get_record` -/
def getRecord (rt : Runtime) (db : Db) (c : Collection) (id : Text) (fields : Text)
    (viewer : Viewer) : Option (Dict Text Value) :=
  (db.rowById c.name id).map fun row =>
    buildRecordResponse rt c (strippedRow c row) (hiddenFields c) (fieldsFilter? fields) viewer

/-! ## What two viewers see -/

section

variable {rt : Runtime} {c : Collection} {row : Row} {hidden : List Text}

/-- A schema field of that name is shown. -/
def SchemaShows (c : Collection) (hidden : List Text) (name : Text) : Prop :=
  ∃ f ∈ c.schema, f.name = name ∧ f.name ≠ [] ∧ f.type ≠ .password ∧ f.name ∉ hidden

instance (name : Text) : Decidable (SchemaShows c hidden name) :=
  inferInstanceAs (Decidable (∃ f ∈ c.schema, _))

/-- Without a `fields` parameter nobody sees hidden fields. -/
theorem showsField_none (viewer : Viewer) (f : Field) :
    showsField hidden none viewer f = true ↔ f.name ≠ [] ∧ f.type ≠ .password ∧ f.name ∉ hidden := by
  simp [showsField, and_assoc]

theorem get?_schemaColumns {shows : Field → Bool} (k : Text) : ∀ (schema : List Field)
    (d : Dict Text Value), (schemaColumns rt row shows schema d).get? k =
      if ∃ f ∈ schema, f.name = k ∧ shows f = true then
        some (showValue rt ((row.get? k).getD .null))
      else d.get? k
  | [], d => by simp [schemaColumns]
  | f :: schema, d => by
    have hstep : schemaColumns rt row shows (f :: schema) d = schemaColumns rt row shows schema
        (if shows f then d.set f.name (showValue rt ((row.get? f.name).getD .null)) else d) := rfl
    rw [hstep, get?_schemaColumns k schema]
    by_cases hrest : ∃ f ∈ schema, f.name = k ∧ shows f = true
    · have hsome : ∃ g ∈ f :: schema, g.name = k ∧ shows g = true := by
        obtain ⟨g, hg, h⟩ := hrest
        exact ⟨g, List.mem_cons_of_mem _ hg, h⟩
      rw [if_pos hrest, if_pos hsome]
    · rw [if_neg hrest]
      by_cases hf : f.name = k ∧ shows f = true
      · obtain ⟨rfl, hs⟩ := hf
        rw [if_pos hs, Dict.get?_set_self, if_pos ⟨f, List.mem_cons_self, rfl, hs⟩]
      · have hnone : ¬∃ g ∈ f :: schema, g.name = k ∧ shows g = true := by
          rintro ⟨g, hg, h⟩
          rcases List.mem_cons.1 hg with rfl | hg
          · exact hf h
          · exact hrest ⟨g, hg, h⟩
        rw [if_neg hnone]
        split_ifs with hs
        · exact Dict.get?_set_ne _ _ fun h => hf ⟨h, hs⟩
        · rfl

theorem get?_stripInternal (d : Dict Text Value) (k : Text) :
    (stripInternal d).get? k =
      if k = "password_hash" ∨ k = "token_key" ∨
          (k = "email_visibility" ∧ d.has "emailVisibility" = true) then none
      else d.get? k := by
  have hdel : ∀ j, ((d.del "password_hash").del "token_key").get? j =
      if j = "password_hash" ∨ j = "token_key" then none else d.get? j := by
    intro j
    rw [Dict.get?_del, Dict.get?_del]
    by_cases h₁ : j = ("token_key" : Text)
    · rw [if_pos h₁.symm, if_pos (Or.inr h₁)]
    by_cases h₂ : j = ("password_hash" : Text)
    · rw [if_neg (Ne.symm h₁), if_pos h₂.symm, if_pos (Or.inl h₂)]
    · rw [if_neg (Ne.symm h₁), if_neg (Ne.symm h₂), if_neg (by tauto)]
  have hhas : ∀ j : Text, j ≠ "password_hash" → j ≠ "token_key" →
      ((d.del "password_hash").del "token_key").has j = d.has j := by
    intro j h₁ h₂
    rw [Dict.has, hdel, if_neg (by tauto), Dict.has]
  unfold stripInternal
  dsimp only
  rw [hhas _ (by decide) (by decide), hhas _ (by decide) (by decide)]
  by_cases hev : k = ("email_visibility" : Text)
  · subst hev
    by_cases hb : d.has "emailVisibility" = true
    · rw [if_pos (Or.inr (Or.inr ⟨rfl, hb⟩))]
      by_cases ha : d.has "email_visibility" = true
      · rw [ha, hb, Bool.and_self, if_pos rfl, Dict.get?_del, if_pos rfl]
      · have hnone : d.get? "email_visibility" = none := by
          rw [Dict.has, Option.isSome_iff_ne_none, not_not] at ha
          exact ha
        rw [if_neg (fun h => ha (Bool.and_eq_true_iff.1 h).1), hdel, if_neg (by decide), hnone]
    · rw [if_neg (fun h => hb (Bool.and_eq_true_iff.1 h).2), hdel, if_neg (by decide), if_neg]
      rintro (h | h | ⟨-, h⟩)
      · exact absurd h (by decide)
      · exact absurd h (by decide)
      · exact hb h
  · have hcond : (k = ("password_hash" : Text) ∨ k = ("token_key" : Text) ∨
        (k = ("email_visibility" : Text) ∧ d.has "emailVisibility" = true)) ↔
        (k = ("password_hash" : Text) ∨ k = ("token_key" : Text)) := by tauto
    rw [if_congr hcond rfl rfl]
    split_ifs with hb hk hk
    · rw [Dict.get?_del, if_neg (Ne.symm hev), hdel, if_pos hk]
    · rw [Dict.get?_del, if_neg (Ne.symm hev), hdel, if_neg hk]
    · rw [hdel, if_pos hk]
    · rw [hdel, if_neg hk]

/-- The columns are the same but for the email. -/
theorem get?_authColumns_ne_email {k : Text} (hk : k ≠ "email") (b b' : Bool)
    (d : Dict Text Value) : (authColumns row b d).get? k = (authColumns row b' d).get? k := by
  have hset : ∀ b : Bool, (if b then d.set "email" ((row.get? "email").getD (.text [])) else d).get? k =
      d.get? k := by
    intro b
    cases b with
    | true => exact Dict.get?_set_ne _ _ (Ne.symm hk)
    | false => rfl
  unfold authColumns
  dsimp only
  simp only [Dict.get?_set, hset]

theorem get?_email_authColumns (b : Bool) (d : Dict Text Value) :
    (authColumns row b d).get? "email" =
      if b then some ((row.get? "email").getD (.text [])) else d.get? "email" := by
  unfold authColumns
  dsimp only
  rw [Dict.get?_set_ne _ _ (by decide), Dict.get?_set_ne _ _ (by decide)]
  cases b with
  | true => exact Dict.get?_set_self _ _ _
  | false => rfl

theorem buildRecordResponse_none (viewer : Viewer) :
    buildRecordResponse rt c row hidden none viewer = stripInternal
      (if c.schema ≠ [] then schemaColumns rt row (showsField hidden none .anyone) c.schema
          (if c.type = .auth then authColumns row (canViewAuthEmail rt c row viewer)
            (baseColumns rt c row) else baseColumns rt c row)
        else if c.type = .view then viewColumns rt row (baseColumns rt c row)
        else if c.type = .auth then authColumns row (canViewAuthEmail rt c row viewer)
          (baseColumns rt c row)
        else baseColumns rt c row) := by
  have hshows : showsField hidden none viewer = showsField hidden none .anyone := by
    funext f
    rw [Bool.eq_iff_iff, showsField_none, showsField_none]
  unfold buildRecordResponse applyFields
  dsimp only
  rw [hshows]
  congr 1
  by_cases hs : c.schema ≠ []
  · rw [if_pos hs, if_pos hs]
  · rw [if_neg hs, if_neg hs]
    by_cases hv : c.type = .view
    · rw [if_pos hv, if_pos hv, if_neg (by rw [hv]; decide)]
    · rw [if_neg hv, if_neg hv]

/-- Only the responses of auth collections depend on the viewer. -/
theorem buildRecordResponse_of_not_auth (h : c.type ≠ .auth) (v v' : Viewer) :
    buildRecordResponse rt c row hidden none v = buildRecordResponse rt c row hidden none v' := by
  rw [buildRecordResponse_none, buildRecordResponse_none]
  simp only [if_neg h]

/-- Two viewers see the same but for the email. -/
theorem get?_buildRecordResponse_ne_email {k : Text} (hk : k ≠ "email") (v v' : Viewer) :
    (buildRecordResponse rt c row hidden none v).get? k =
      (buildRecordResponse rt c row hidden none v').get? k := by
  by_cases hauth : c.type = .auth
  · have hview : c.type ≠ .view := by rw [hauth]; decide
    have hsame : ∀ j : Text, j ≠ "email" → ∀ b b' : Bool,
        (if c.schema ≠ [] then schemaColumns rt row (showsField hidden none .anyone) c.schema
            (authColumns row b (baseColumns rt c row)) else
            authColumns row b (baseColumns rt c row)).get? j =
          (if c.schema ≠ [] then schemaColumns rt row (showsField hidden none .anyone) c.schema
            (authColumns row b' (baseColumns rt c row)) else
            authColumns row b' (baseColumns rt c row)).get? j := by
      intro j hj b b'
      split_ifs
      · rw [get?_schemaColumns, get?_schemaColumns, get?_authColumns_ne_email hj b b']
      · exact get?_authColumns_ne_email hj b b' _
    rw [buildRecordResponse_none, buildRecordResponse_none]
    simp only [if_pos hauth, if_neg hview]
    rw [get?_stripInternal, get?_stripInternal, Dict.has, Dict.has,
      hsame _ (by decide) _ (canViewAuthEmail rt c row v'), hsame k hk _ (canViewAuthEmail rt c row v')]
  · rw [buildRecordResponse_of_not_auth hauth v v']

/-- The email is there for a viewer who may see it, or if the schema shows such a field. -/
theorem get?_email_buildRecordResponse (hauth : c.type = .auth) (v : Viewer) :
    (buildRecordResponse rt c row hidden none v).get? "email" =
      if SchemaShows c hidden "email" then some (showValue rt ((row.get? "email").getD .null))
      else if canViewAuthEmail rt c row v then some ((row.get? "email").getD (.text []))
      else none := by
  have hview : c.type ≠ .view := by rw [hauth]; decide
  have hbase : (baseColumns rt c row).get? "email" = none := rfl
  have hshown : (∃ f ∈ c.schema, f.name = "email" ∧ showsField hidden none .anyone f = true) ↔
      SchemaShows c hidden "email" := by
    simp only [showsField_none, SchemaShows]
  rw [buildRecordResponse_none]
  simp only [if_pos hauth, if_neg hview]
  have hkept : ∀ P : Prop, ¬(("email" : Text) = "password_hash" ∨ ("email" : Text) = "token_key" ∨
      (("email" : Text) = "email_visibility" ∧ P)) := by
    rintro P (h | h | ⟨h, -⟩) <;> exact absurd h (by decide)
  rw [get?_stripInternal, if_neg (hkept _)]
  by_cases hs : c.schema ≠ []
  · rw [if_pos hs, get?_schemaColumns, if_congr hshown rfl rfl, get?_email_authColumns, hbase]
  · have hno : ¬SchemaShows c hidden "email" := by
      rintro ⟨f, hf, -⟩
      rw [not_not.1 hs] at hf
      exact List.not_mem_nil hf
    rw [if_neg hs, if_neg hno, get?_email_authColumns, hbase]

theorem get?_id_viewColumns {v : Value} : ∀ (row : Row) (d : Dict Text Value),
    d.get? "id" = some v → (viewColumns rt row d).get? "id" = some v
  | [], d, h => h
  | e :: row, d, h => by
    refine get?_id_viewColumns row _ ?_
    dsimp only
    split_ifs with hbase he
    · exact h
    · rw [Dict.get?_set_ne _ _ (by decide), h]
    · rw [Dict.get?_set_ne, h]
      intro hid
      exact hbase (Or.inl (by rw [hid]; decide))

/-- A response shows the id of its row. -/
theorem get?_id_buildRecordResponse {id : Text} (h : row.get? "id" = some (.text id))
    (v : Viewer) : (buildRecordResponse rt c row hidden none v).get? "id" = some (.text id) := by
  have hbase : (baseColumns rt c row).get? "id" = some (.text id) := by
    show some ((row.get? "id").getD (.text [])) = _
    rw [h, Option.getD_some]
  have hauth : ∀ b, (authColumns row b (baseColumns rt c row)).get? "id" = some (.text id) := by
    intro b
    rw [get?_authColumns_ne_email (by decide) b false]
    unfold authColumns
    dsimp only
    rw [Dict.get?_set_ne _ _ (by decide), Dict.get?_set_ne _ _ (by decide)]
    exact hbase
  have hschema : ∀ d : Dict Text Value, d.get? "id" = some (.text id) →
      (schemaColumns rt row (showsField hidden none .anyone) c.schema d).get? "id" =
        some (.text id) := by
    intro d hd
    rw [get?_schemaColumns, h, hd]
    split_ifs <;> rfl
  have hkept : ∀ P : Prop, ¬(("id" : Text) = "password_hash" ∨ ("id" : Text) = "token_key" ∨
      (("id" : Text) = "email_visibility" ∧ P)) := by
    rintro P (h | h | ⟨h, -⟩) <;> exact absurd h (by decide)
  rw [buildRecordResponse_none, get?_stripInternal, if_neg (hkept _)]
  split_ifs
  · exact hschema _ (hauth _)
  · exact hschema _ hbase
  · exact get?_id_viewColumns _ _ hbase
  · exact hauth _
  · exact hbase

end

end PPBase
