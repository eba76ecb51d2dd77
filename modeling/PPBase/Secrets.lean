import PPBase.Response

/-!
# What a response must not show

`list_records` and `get_record` build the response of a row for a request, with the `fields` the
client asked for. A response keeps the secrets of a row (`KeepsSecrets`) if it has no internal
column and no password, if hidden fields are in it only for a superuser who asked for them, and if
the email of an auth record is in it only for those who may see it.

Whether all responses of a collection do depends on the names in its schema alone (`Discreet`) :
passwords and hidden fields must not be named like a column that every response has, a password
not like another field, and no field that is shown may be named `email` in an auth collection
(`secrets_kept_iff`).
-/

namespace PPBase

open Response

namespace Secrets

/-! ## Keys of a response -/

/-- The response of `list_records` and `get_record` to a request. -/
def recordResponse (rt : Runtime) (c : Collection) (row : Row) (fields : Text)
    (auth : Option (Dict Text Value)) : Dict Text Value :=
  buildRecordResponse rt c (strippedRow c row) (hiddenFields c) (fieldsFilter? fields)
    (.request auth)

/-- The columns of every response. -/
def baseNames : List Text := ["id", "collectionId", "collectionName", "created", "updated"]

/-- The columns that auth collections add. -/
def authNames : List Text := ["email", "emailVisibility", "verified"]

/-- The columns of every response of the collection, but that not everyone sees the email. -/
def systemNames (c : Collection) : List Text :=
  if c.type = .auth then baseNames ++ authNames else baseNames

/-- The columns before internal ones are removed. -/
def columns (rt : Runtime) (c : Collection) (row : Row) (ff : Option (List Text))
    (auth : Option (Dict Text Value)) : Dict Text Value :=
  let d := baseColumns rt c row
  let d :=
    if c.type = .auth then authColumns row (canViewAuthEmail rt c row (.request auth)) d else d
  if c.schema ≠ [] then schemaColumns rt row (showsField (hiddenFields c) ff (.request auth)) c.schema d
  else if c.type = .view then viewColumns rt row d
  else d

/-- The `fields` parameter keeps the key. -/
def selects (ff : Option (List Text)) (k : Text) : Bool :=
  match ff with
  | none | some [] => true
  | some names => ("*" : Text) ∈ names || k ∈ names

section

variable {rt : Runtime} {c : Collection} {row : Row} {ff : Option (List Text)}
  {auth : Option (Dict Text Value)} {k : Text}

theorem has_set {d : Dict Text Value} {j : Text} {v : Value} :
    (d.set j v).has k = true ↔ j = k ∨ d.has k = true := by
  rw [Dict.has, Dict.get?_set, Dict.has]
  by_cases h : j = k <;> simp [h]

theorem has_authColumns {b : Bool} {d : Dict Text Value} : (authColumns row b d).has k = true ↔
    k = "verified" ∨ k = "emailVisibility" ∨ (b = true ∧ k = "email") ∨ d.has k = true := by
  have hemail : (if b then d.set "email" ((row.get? "email").getD (.text [])) else d).has k = true ↔
      (b = true ∧ k = "email") ∨ d.has k = true := by
    cases b with
    | true => simp only [if_true, has_set, eq_comm (a := ("email" : Text)), true_and]
    | false => simp
  simp only [authColumns, has_set, hemail, eq_comm (b := k)]

theorem has_schemaColumns {shows : Field → Bool} {schema : List Field} {d : Dict Text Value} :
    (schemaColumns rt row shows schema d).has k = true ↔
      (∃ f ∈ schema, f.name = k ∧ shows f = true) ∨ d.has k = true := by
  rw [Dict.has, get?_schemaColumns, Dict.has]
  split_ifs with h
  · exact iff_of_true rfl (.inl h)
  · exact ⟨.inr, fun h' => h'.resolve_left h⟩

theorem has_baseColumns : (baseColumns rt c row).has k = true ↔ k ∈ baseNames := by
  rw [Dict.has_iff_mem_keys]
  rfl

/-- The keys of the columns, unless they are those of a view without a schema. -/
theorem has_columns (hshape : c.schema ≠ [] ∨ c.type ≠ .view) :
    (columns rt c row ff auth).has k = true ↔
      (k ∈ systemNames c ∧ (c.type = .auth → k = "email" →
          canViewAuthEmail rt c row (.request auth) = true)) ∨
        ∃ f ∈ c.schema, f.name = k ∧ showsField (hiddenFields c) ff (.request auth) f = true := by
  have hsystem : (if c.type = .auth then authColumns row (canViewAuthEmail rt c row (.request auth))
      (baseColumns rt c row) else baseColumns rt c row).has k = true ↔
      k ∈ systemNames c ∧ (c.type = .auth → k = "email" →
        canViewAuthEmail rt c row (.request auth) = true) := by
    rw [systemNames]
    by_cases hauth : c.type = .auth
    · rw [if_pos hauth, if_pos hauth, has_authColumns, has_baseColumns, List.mem_append]
      by_cases hemail : k = "email"
      · subst hemail
        have hnot : ("email" : Text) ∉ baseNames := by decide
        have hmem : ("email" : Text) ∈ authNames := by decide
        have hne : ("email" : Text) ≠ "verified" ∧ ("email" : Text) ≠ "emailVisibility" := by decide
        simp only [hnot, hmem, hne, hauth, false_or, or_true, or_false, and_true, true_and,
          forall_true_left]
      · have hmem : k ∈ authNames ↔ k = "verified" ∨ k = "emailVisibility" := by
          simp only [authNames, List.mem_cons, List.not_mem_nil, or_false, hemail, false_or]
          exact or_comm
        simp only [hmem, hemail, and_false, false_or, false_imp_iff, imp_true_iff, and_true]
        tauto
    · rw [if_neg hauth, if_neg hauth, has_baseColumns]
      simp only [hauth, false_imp_iff, and_true]
  rw [columns]
  by_cases hs : c.schema ≠ []
  · rw [if_pos hs, has_schemaColumns, hsystem, or_comm]
  · rw [if_neg hs, if_neg (hshape.resolve_left hs), hsystem, not_not.1 hs]
    simp

theorem get?_applyFields (d : Dict Text Value) :
    (applyFields ff d).get? k = if selects ff k then d.get? k else none := by
  have hall : ∀ names : List Text, (if ("*" : Text) ∈ names then d
      else d.filter fun e => e.1 ∈ names).get? k =
      if (("*" : Text) ∈ names || k ∈ names) then d.get? k else none := by
    intro names
    by_cases hstar : ("*" : Text) ∈ names
    · rw [if_pos hstar, decide_eq_true hstar, Bool.true_or, if_pos rfl]
    · rw [if_neg hstar, decide_eq_false hstar, Bool.false_or,
        Dict.get?_filter (fun j => decide (j ∈ names))]
  match ff with
  | none => rfl
  | some [] => rfl
  | some (n :: names) => exact hall (n :: names)

/-- The internal columns, and a snake case name whose other form is there. -/
def Removed (d : Dict Text Value) (k : Text) : Prop :=
  k = "password_hash" ∨ k = "token_key" ∨ (k = "email_visibility" ∧ d.has "emailVisibility" = true)

instance (d : Dict Text Value) (k : Text) : Decidable (Removed d k) :=
  inferInstanceAs (Decidable (_ ∨ _))

theorem has_recordResponse {fields : Text} : (recordResponse rt c row fields auth).has k = true ↔
    selects (fieldsFilter? fields) k = true ∧
      ¬Removed (columns rt c (strippedRow c row) (fieldsFilter? fields) auth) k ∧
      (columns rt c (strippedRow c row) (fieldsFilter? fields) auth).has k = true := by
  have heq : recordResponse rt c row fields auth = applyFields (fieldsFilter? fields)
      (stripInternal (columns rt c (strippedRow c row) (fieldsFilter? fields) auth)) := rfl
  have hstrip : ∀ d : Dict Text Value, (stripInternal d).get? k =
      if Removed d k then none else d.get? k := fun d => get?_stripInternal d k
  rw [heq, Dict.has, get?_applyFields, hstrip, Dict.has]
  by_cases hsel : selects (fieldsFilter? fields) k = true
  · rw [if_pos hsel]
    by_cases hremoved : Removed (columns rt c (strippedRow c row) (fieldsFilter? fields) auth) k
    · rw [if_pos hremoved]
      exact iff_of_false Bool.false_ne_true fun h => h.2.1 hremoved
    · rw [if_neg hremoved]
      exact ⟨fun h => ⟨hsel, hremoved, h⟩, fun h => h.2.2⟩
  · rw [if_neg hsel]
    exact iff_of_false Bool.false_ne_true fun h => hsel h.1

/-! ## The `fields` parameter -/

theorem mem_of_mem_strip {x : Char} {t : Text} (h : x ∈ Text.strip t) : x ∈ t := by
  rw [Text.strip, List.mem_reverse] at h
  exact (List.dropWhile_sublist _).subset
    (List.mem_reverse.1 ((List.dropWhile_sublist _).subset h))

/-- A client can name the key. -/
def Nameable (k : Text) : Prop := fieldsFilter? k = some [k]

instance (k : Text) : Decidable (Nameable k) := inferInstanceAs (Decidable (_ = _))

theorem nameable_of_mem {fields : Text} {names : List Text}
    (hfields : fieldsFilter? fields = some names) (hk : k ∈ names) : Nameable k := by
  rw [fieldsFilter?] at hfields
  split_ifs at hfields
  rw [← Option.some.inj hfields, List.mem_filterMap] at hk
  obtain ⟨p, hp, hpk⟩ := hk
  split_ifs at hpk with hnil
  obtain rfl := Option.some.inj hpk
  have hcomma : ',' ∉ Text.strip p := fun h => Text.notMem_of_mem_split hp (mem_of_mem_strip h)
  rw [Nameable, fieldsFilter?, if_neg hnil, Text.split_of_notMem hcomma]
  simp [Text.strip_strip, hnil]

/-! ## Secrets -/

/-- The record says that everyone may see its email. -/
def PubliclyVisible (row : Row) : Prop :=
  ((row.get? "email_visibility").map Value.truthy).getD false = true

/-- A response of the row to the request keeps the row's secrets. -/
structure KeepsSecrets (rt : Runtime) (c : Collection) (row : Row) (fields : Text)
    (auth : Option (Dict Text Value)) : Prop where
  internal : ∀ k ∈ authHiddenColumns, (recordResponse rt c row fields auth).has k = false
  password : ∀ f ∈ c.schema, f.type = .password →
    (recordResponse rt c row fields auth).has f.name = false
  /-- A hidden field is shown to a superuser who names it. -/
  hidden : ∀ f ∈ c.schema, f.hidden = true →
    (recordResponse rt c row fields auth).has f.name = true →
      isSuperuserAuth auth = true ∧ ∃ names ∈ fieldsFilter? fields, f.name ∈ names
  /-- The email of an auth record is shown to everyone, its owner or a superuser. -/
  email : c.type = .auth → (recordResponse rt c row fields auth).has "email" = true →
    PubliclyVisible row ∨ (∃ a ∈ auth, isOwner rt c row a = true) ∨ isSuperuserAuth auth = true

/-- The key is never in a response, whatever the columns are. -/
def AlwaysRemoved (c : Collection) (k : Text) : Prop :=
  k = "password_hash" ∨ k = "token_key" ∨ (k = "email_visibility" ∧
    (c.type = .auth ∨ SchemaShows c (hiddenFields c) "emailVisibility"))

/-- A field of the name that is not a password is shown to somebody. -/
def Doubled (c : Collection) (k : Text) : Prop :=
  k ≠ [] ∧ ¬AlwaysRemoved c k ∧ (k ∈ hiddenFields c → Nameable k) ∧
    ∃ f ∈ c.schema, f.name = k ∧ f.type ≠ .password

/-- The names of the schema give no secret away. -/
structure Discreet (c : Collection) : Prop where
  /-- No password is named like a column of every response, or like another field. -/
  password : ∀ f ∈ c.schema, f.type = .password → f.name ∉ systemNames c ∧ ¬Doubled c f.name
  hidden : ∀ f ∈ c.schema, f.hidden = true → f.name ∉ systemNames c
  email : c.type = .auth → ¬SchemaShows c (hiddenFields c) "email"

theorem get?_strippedRow (hk : k ∉ superusersHiddenColumns) :
    (strippedRow c row).get? k = row.get? k := by
  rw [strippedRow]
  split_ifs
  · rw [Dict.get?_filter (fun j => decide (j ∉ superusersHiddenColumns)),
      if_pos (by simpa using hk)]
  · rfl

theorem mem_hiddenFields : k ∈ hiddenFields c ↔ ∃ f ∈ c.schema, f.hidden = true ∧ f.name = k := by
  simp [hiddenFields, and_assoc]

theorem showsField_iff {f : Field} :
    showsField (hiddenFields c) ff (.request auth) f = true ↔ f.name ≠ [] ∧ f.type ≠ .password ∧
      (f.name ∈ hiddenFields c → (∃ names ∈ ff, f.name ∈ names) ∧ isSuperuserAuth auth = true) := by
  have hnames : (ff.any fun names => decide (f.name ∈ names)) = true ↔
      ∃ names ∈ ff, f.name ∈ names := by
    cases ff <;> simp
  simp only [showsField, Bool.and_eq_true, Bool.or_eq_true, decide_eq_true_eq, hnames, and_assoc,
    ne_eq]
  refine and_congr_right fun _ => and_congr_right fun _ => ?_
  rw [or_iff_not_imp_left, not_not]

theorem visible_of_canViewAuthEmail
    (h : canViewAuthEmail rt c (strippedRow c row) (.request auth) = true) :
    PubliclyVisible row ∨ (∃ a ∈ auth, isOwner rt c row a = true) ∨
      isSuperuserAuth auth = true := by
  have hvisible : PubliclyVisible (strippedRow c row) → PubliclyVisible row := by
    rw [PubliclyVisible, get?_strippedRow (by decide)]
    exact id
  have howner : ∀ a, isOwner rt c (strippedRow c row) a = isOwner rt c row a := by
    intro a
    rw [isOwner, get?_strippedRow (by decide), isOwner]
  match auth with
  | none => exact (Bool.or_eq_true_iff.1 h).imp hvisible fun h => nomatch h
  | some [] => exact (Bool.or_eq_true_iff.1 h).imp hvisible fun h => nomatch h
  | some (e :: a) =>
    refine (Bool.or_eq_true_iff.1 h).imp hvisible fun h => ?_
    rcases Bool.or_eq_true_iff.1 h with h | h
    · exact .inr (by rw [isSuperuserAuth, h, Bool.true_or])
    · exact .inl ⟨e :: a, rfl, (howner _).symm.trans h⟩

end

section

variable {rt : Runtime} {c : Collection} {row : Row} {fields k : Text}
  {auth : Option (Dict Text Value)}

/-- A key of a response that is not a system column is that of a field that is shown. -/
theorem shown_of_has (hshape : c.schema ≠ [] ∨ c.type ≠ .view)
    (h : (recordResponse rt c row fields auth).has k = true) :
    (k ∈ systemNames c ∧ (c.type = .auth → k = "email" →
        canViewAuthEmail rt c (strippedRow c row) (.request auth) = true)) ∨
      ∃ f ∈ c.schema, f.name = k ∧
        showsField (hiddenFields c) (fieldsFilter? fields) (.request auth) f = true :=
  (has_columns hshape).1 (has_recordResponse.1 h).2.2

theorem removed_of_alwaysRemoved (hs : c.schema ≠ []) {ff : Option (List Text)}
    (h : AlwaysRemoved c k) : Removed (columns rt c row ff auth) k := by
  refine h.imp_right (.imp_right fun h => ⟨h.1, (has_columns (.inl hs)).2 ?_⟩)
  rcases h.2 with hauth | ⟨f, hf, hname, hne, htype, hvisible⟩
  · refine .inl ⟨?_, fun _ h => absurd h (by decide)⟩
    rw [systemNames, if_pos hauth]
    decide
  · refine .inr ⟨f, hf, hname, showsField_iff.2 ⟨hne, htype, fun h => absurd h hvisible⟩⟩

theorem keepsSecrets_of_discreet (h : Discreet c) (rt : Runtime) (row : Row) (fields : Text)
    (auth : Option (Dict Text Value)) : KeepsSecrets rt c row fields auth := by
  have hschema : ∀ f ∈ c.schema, c.schema ≠ [] := fun f hf => List.ne_nil_of_mem hf
  refine ⟨fun k hk => ?_, fun f hf hpassword => ?_, fun f hf hhidden hhas => ?_,
    fun hauth hhas => ?_⟩
  · refine Bool.eq_false_iff.2 fun hhas => (has_recordResponse.1 hhas).2.1 ?_
    rcases List.mem_cons.1 hk with rfl | hk
    · exact .inl rfl
    · exact .inr (.inl (List.mem_singleton.1 hk))
  · refine Bool.eq_false_iff.2 fun hhas => ?_
    obtain ⟨hsystem, hdoubled⟩ := h.password f hf hpassword
    rcases shown_of_has (.inl (hschema f hf)) hhas with ⟨hmem, -⟩ | ⟨g, hg, hname, hshown⟩
    · exact hsystem hmem
    · obtain ⟨hne, htype, hnamed⟩ := showsField_iff.1 hshown
      rw [hname] at hne hnamed
      refine hdoubled ⟨hne, fun hremoved => ?_, fun hhidden => ?_, g, hg, hname, htype⟩
      · exact (has_recordResponse.1 hhas).2.1 (removed_of_alwaysRemoved (hschema f hf) hremoved)
      · obtain ⟨names, hnames, hmem⟩ := (hnamed hhidden).1
        exact nameable_of_mem hnames hmem
  · have hmem : f.name ∈ hiddenFields c := mem_hiddenFields.2 ⟨f, hf, hhidden, rfl⟩
    rcases shown_of_has (.inl (hschema f hf)) hhas with ⟨hsystem, -⟩ | ⟨g, hg, hname, hshown⟩
    · exact absurd hsystem (h.hidden f hf hhidden)
    · rw [← hname] at hmem ⊢
      exact ((showsField_iff.1 hshown).2.2 hmem).symm
  · have hview : c.type ≠ .view := by
      rw [hauth]
      decide
    rcases shown_of_has (.inr hview) hhas with ⟨-, hcan⟩ | ⟨g, hg, hname, hshown⟩
    · exact visible_of_canViewAuthEmail (hcan hauth rfl)
    · obtain ⟨hne, htype, hnamed⟩ := showsField_iff.1 hshown
      by_cases hhidden : g.name ∈ hiddenFields c
      · exact .inr (.inr (hnamed hhidden).2)
      · exact absurd ⟨g, hg, hname, hne, htype, hname ▸ hhidden⟩ (h.email hauth)

/-! ## Responses that show a secret -/

/-- A row whose email everyone may see. -/
def publicRow : Row := [("email_visibility", .bool true)]

/-- A superuser's claims. -/
def superuser : Option (Dict Text Value) := some [("type", .text "admin")]

theorem not_removed_of_system (h : k ∈ systemNames c) (d : Dict Text Value) : ¬Removed d k := by
  have hmem : k ∈ baseNames ++ authNames := by
    rw [systemNames] at h
    split_ifs at h
    · exact h
    · exact List.mem_append_left _ h
  have hnone : ∀ j ∈ baseNames ++ authNames,
      j ≠ "password_hash" ∧ j ≠ "token_key" ∧ j ≠ "email_visibility" := by decide
  obtain ⟨h₁, h₂, h₃⟩ := hnone k hmem
  rintro (h | h | ⟨h, -⟩)
  · exact h₁ h
  · exact h₂ h
  · exact h₃ h

/-- The system columns of a public row are shown to everyone. -/
theorem has_of_system (rt : Runtime) (hs : c.schema ≠ []) (hk : k ∈ systemNames c) :
    (recordResponse rt c publicRow [] none).has k = true := by
  refine has_recordResponse.2 ⟨rfl, not_removed_of_system hk _,
    (has_columns (.inl hs)).2 (.inl ⟨hk, fun _ _ => ?_⟩)⟩
  have hvisible : PubliclyVisible (strippedRow c publicRow) := by
    rw [PubliclyVisible, get?_strippedRow (by decide)]
    rfl
  exact Bool.or_eq_true_iff.2 (.inl hvisible)

/-- A superuser who names a doubled password sees it. -/
theorem has_of_doubled (rt : Runtime) (row : Row) (h : Doubled c k) : (recordResponse rt c row
    (if k ∈ hiddenFields c then k else []) superuser).has k = true := by
  obtain ⟨hne, hremoved, hnameable, f, hf, rfl, htype⟩ := h
  have hs : c.schema ≠ [] := List.ne_nil_of_mem hf
  have hfields : fieldsFilter? (if f.name ∈ hiddenFields c then f.name else []) =
      if f.name ∈ hiddenFields c then some [f.name] else none := by
    split_ifs with hhidden
    · exact hnameable hhidden
    · rfl
  have hnamed : ∀ names ∈ fieldsFilter? (if f.name ∈ hiddenFields c then f.name else []),
      names = [f.name] := by
    rw [hfields]
    split_ifs
    · exact fun names h => (Option.some.inj h).symm
    · exact fun names h => nomatch h
  have hshown : showsField (hiddenFields c)
      (fieldsFilter? (if f.name ∈ hiddenFields c then f.name else [])) (.request superuser) f =
        true := by
    refine showsField_iff.2 ⟨hne, htype, fun hhidden => ⟨⟨[f.name], ?_, List.mem_cons_self⟩, rfl⟩⟩
    rw [hfields, if_pos hhidden]
    rfl
  refine has_recordResponse.2 ⟨?_, fun h => hremoved (h.imp_right (.imp_right fun h => ⟨h.1, ?_⟩)),
    (has_columns (.inl hs)).2 (.inr ⟨f, hf, rfl, hshown⟩)⟩
  · rw [hfields]
    split_ifs <;> simp [selects]
  · rcases (has_columns (.inl hs)).1 h.2 with ⟨hsystem, -⟩ | ⟨g, hg, hname, hgshown⟩
    · refine .inl ?_
      rw [systemNames] at hsystem
      split_ifs at hsystem with hauth
      · exact hauth
      · exact absurd hsystem (by decide)
    · obtain ⟨hgne, hgtype, hghidden⟩ := showsField_iff.1 hgshown
      refine .inr ⟨g, hg, hname, hgne, hgtype, fun hhidden => ?_⟩
      obtain ⟨⟨names, hnames, hmem⟩, -⟩ := hghidden hhidden
      rw [hnamed names hnames, List.mem_singleton, hname, h.1] at hmem
      exact absurd hmem (by decide)

theorem discreet_of_keepsSecrets
    (h : ∀ row fields auth, KeepsSecrets rt c row fields auth) : Discreet c := by
  refine ⟨fun f hf hpassword => ⟨fun hsystem => ?_, fun hdoubled => ?_⟩,
    fun f hf hhidden hsystem => ?_, fun hauth hshows => ?_⟩
  · have hhas := has_of_system rt (List.ne_nil_of_mem hf) hsystem
    rw [(h publicRow [] none).password f hf hpassword] at hhas
    exact nomatch hhas
  · have hhas := has_of_doubled rt [] hdoubled
    rw [(h [] _ superuser).password f hf hpassword] at hhas
    exact nomatch hhas
  · have hhas := has_of_system rt (List.ne_nil_of_mem hf) hsystem
    exact absurd ((h publicRow [] none).hidden f hf hhidden hhas).1 Bool.false_ne_true
  · obtain ⟨f, hf, hname, hne, htype, hvisible⟩ := hshows
    have hhas : (recordResponse rt c [] [] none).has "email" = true := by
      refine has_recordResponse.2 ⟨rfl, ?_, (has_columns (.inl (List.ne_nil_of_mem hf))).2
        (.inr ⟨f, hf, hname, showsField_iff.2 ⟨hne, htype, fun h => absurd h hvisible⟩⟩)⟩
      rintro (h | h | ⟨h, -⟩) <;> exact absurd h (by decide)
    rcases (h [] [] none).email hauth hhas with h | ⟨a, ha, -⟩ | h
    · exact nomatch h
    · exact nomatch ha
    · exact nomatch h

/-- The responses of a collection keep the secrets of every row, for every `fields` parameter and
everyone who asks, exactly if its schema is discreet. -/
theorem secrets_kept_iff (rt : Runtime) (c : Collection) :
    (∀ row fields auth, KeepsSecrets rt c row fields auth) ↔ Discreet c :=
  ⟨discreet_of_keepsSecrets, fun h row fields auth => keepsSecrets_of_discreet h rt row fields auth⟩

end

/-- The collection of superusers, as it is created at start. -/
def superusersCollection : Collection where
  id := "superusers"
  name := "_superusers"
  type := .auth
  schema := [{ name := "email", type := .email }, { name := "avatar", type := .number }]

/-- A superuser whose email is not public. -/
def privateRow : Row :=
  [("id", .text "r"), ("email", .text "a@b.c"), ("email_visibility", .bool false)]

/-- A request without authentication sees the email of a superuser who does not show it. -/
theorem private_email_shown :
    ¬∀ (rt : Runtime) (c : Collection) (row : Row) (fields : Text) (auth : Option (Dict Text Value)),
      KeepsSecrets rt c row fields auth := by
  intro h
  rcases (h .simple superusersCollection privateRow [] none).email rfl rfl with h | ⟨a, ha, -⟩ | h
  · exact nomatch h
  · exact nomatch ha
  · exact nomatch h

end Secrets

end PPBase
