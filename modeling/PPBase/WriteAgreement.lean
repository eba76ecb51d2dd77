import PPBase.Accounts
import PPBase.FileNames
import PPBase.SharedFiles

/-!
# Creating a record and updating one

`create_record` and `update_record` are code of their own each. For a payload of plain keys
(`PlainKeys`) that a creation takes, an update of a record passes the checks too, and the row it
makes agrees with the record that is created (`create_update_agree`). `Agrees` says in what : in
every field but the dates that both leave alone, and but for a value that equals what the row holds,
which stays. The row is written unless the table refuses it. `refused_or_kept` : both of these
happen. `visibility_by_camel` : the name `emailVisibility` is read by an update only.
-/

namespace PPBase

namespace WriteAgreement

open RecordStore Counters FileNames Updates Failing

/-- A collection that `create_collection_table` has made a table for. No field is named like a column
of the system, as `email` is in the schema of `_superusers`. -/
structure TableCollection extends Collection where
  fields_ne : ∀ f ∈ toCollection.schema, f.name ∉ systemColumns toCollection

/-- A payload without modifier keys and without an id. -/
structure PlainKeys (p : Row) : Prop where
  nodup : p.keys.Nodup
  plain : ∀ k ∈ p.keys, parseModifierKey k = (k, none)
  no_id : "id".toList ∉ p.keys

/-- The keys of a payload that are for a field which is no automatic date. -/
def isWritable (c : Collection) (k : Text) : Bool :=
  (c.fieldMap.get? k).any fun f => f.type ≠ .autodate

/-- The keys that both read themselves for an auth record. -/
def authKeys : List Text :=
  ["password_hash", "token_key", "password", "passwordConfirm", "email", "email_visibility",
    "verified", "emailVisibility"]

/-- The email of a payload, as it is stored. -/
def emailOf (rt : Runtime) (p : Row) : Value :=
  .text (Text.strip (Macros.idText rt (getKey p "email")))

/-- The row that an update makes of `row`, against the record that is created. -/
structure Agrees (verify : Text → Text → Bool) (c : Collection) (p row created row' : Row) :
    Prop where
  fields : ∀ k f, c.fieldMap.get? k = some f → f.type ≠ .autodate → p.has k = true →
    (c.type = .auth → k ∉ authKeys) → getKey row' k = getKey created k ∨
      sameValue (getKey p k) (getKey row k) = true ∧ getKey row' k = getKey row k
  autodates : ∀ k f, c.fieldMap.get? k = some f → f.type = .autodate →
    getKey row' k = getKey row k
  email : c.type = .auth → getKey row' "email" = getKey created "email"
  flags : c.type = .auth → c.name ≠ "_superusers".toList →
    ∀ k : Text, k = "email_visibility" ∨ k = "verified" → p.has k = true →
      getKey row' k = getKey created k
  password : c.type = .auth → ∃ q h, getKey p "password" = .text q ∧
    getKey row' "password_hash" = .text h ∧ verify q h = true

/-! ## Plain keys -/

section

variable {w w₀ : Writer} {rt : Runtime} {c : Collection} {p row state : Row} {k : Text} {f : Field}

theorem isWritable_iff : isWritable c k = true ↔
    ∃ f, c.fieldMap.get? k = some f ∧ f.type ≠ .autodate := by
  unfold isWritable
  cases c.fieldMap.get? k with
  | none => simp
  | some f => simp

theorem applyKey_plain {e : Text × Value} (hid : e.1 ≠ "id".toList)
    (hplain : parseModifierKey e.1 = (e.1, none)) :
    applyKey rt c state e = .ok (if isWritable c e.1 then state.set e.1 e.2 else state) := by
  unfold applyKey isWritable
  rw [if_neg hid, hplain]
  dsimp only
  cases c.fieldMap.get? e.1 with
  | none => rfl
  | some f =>
    by_cases htype : f.type = .autodate
    · simp [htype]
    · simp [htype]

theorem applyKeys_plain : ∀ {p state : Row},
    (∀ e ∈ p, e.1 ≠ "id".toList ∧ parseModifierKey e.1 = (e.1, none)) →
      p.foldlM (applyKey rt c) state = .ok (state.update (p.filter fun e => isWritable c e.1))
  | [], _, _ => rfl
  | e :: p, state, h => by
    obtain ⟨hid, hplain⟩ := h e List.mem_cons_self
    rw [List.foldlM_cons, applyKey_plain hid hplain, ok_bind,
      applyKeys_plain fun e' he' => h e' (List.mem_cons_of_mem _ he'), List.filter_cons]
    by_cases hwrite : isWritable c e.1 = true
    · rw [if_pos hwrite, if_pos hwrite]
      rfl
    · rw [if_neg hwrite, if_neg hwrite]

theorem get?_initialState_eq_none (hk : isWritable c k = false) :
    (initialState c row).get? k = none := by
  refine Dict.get?_eq_none_iff.2 fun hmem => ?_
  obtain ⟨x, hx, rfl⟩ := List.mem_map.1 hmem
  obtain ⟨e, he, hxe⟩ := List.mem_filterMap.1 hx
  split_ifs at hxe with htype
  obtain rfl := Option.some.inj hxe
  have hwrite := isWritable_iff.2 ⟨e.2, Dict.get?_of_mem (nodup_fieldMap c) he, htype⟩
  rw [hk] at hwrite
  cases hwrite

/-- What a field has in the end : the value of the payload, or that of the row. -/
theorem fieldState_plain (w : Writer) (rt : Runtime) (c : Collection) (row : Row)
    (h : PlainKeys p) (taken : List Text) :
    ∃ state, fieldState w rt c row (taken.foldl Dict.del p) [] = .ok state ∧
      ∀ k, state.get? k = if isWritable c k then
        some (if k ∈ taken then getKey row k else (p.get? k).getD (getKey row k)) else none := by
  have hplain : ∀ e ∈ taken.foldl Dict.del p,
      e.1 ≠ "id".toList ∧ parseModifierKey e.1 = (e.1, none) := by
    intro e he
    have hmem : e.1 ∈ p.keys := List.mem_map_of_mem (Dict.mem_foldl_del.1 he).1
    exact ⟨fun hid => h.no_id (hid ▸ hmem), h.plain _ hmem⟩
  refine ⟨_, by rw [fieldState, applyKeys_plain hplain, ok_bind]; rfl, fun k => ?_⟩
  rw [Dict.get?_update (Dict.nodup_keys_filter (Dict.nodup_keys_foldl_del h.nodup)), Dict.get?_filter]
  by_cases hk : isWritable c k = true
  · obtain ⟨f, hf, htype⟩ := isWritable_iff.1 hk
    obtain ⟨-, rfl⟩ := SharedFiles.schema_of_fieldMap hf
    rw [if_pos hk, if_pos hk, get?_initialState hf htype, Dict.get?_foldl_del]
    split_ifs
    · rfl
    · cases p.get? f.name <;> rfl
  · rw [if_neg hk, if_neg hk, get?_initialState_eq_none (Bool.not_eq_true _ ▸ hk), Option.none_or]

/-- The fields that change are written if each of them takes its value. -/
theorem changedColumns_errors : ∀ {state : Row} {d : Draft}, d.errors = [] →
    (∀ x ∈ state, ∀ f, c.fieldMap.get? x.1 = some f → f.type ≠ .autodate →
      sameValue x.2 (getKey row x.1) = true ∨ ∃ v, w.checkField f x.2 = .ok v) →
      (state.foldl (changedColumn w c row) d).errors = []
  | [], _, hd, _ => hd
  | x :: state, d, hd, h => by
    rw [List.foldl_cons]
    refine changedColumns_errors ?_ fun y hy => h y (List.mem_cons_of_mem _ hy)
    unfold changedColumn
    cases hf : c.fieldMap.get? x.1 with
    | none => exact hd
    | some f =>
      dsimp only
      split_ifs with hskip
      · exact hd
      · obtain ⟨htype, hsame⟩ := not_or.1 hskip
        obtain ⟨v, hv⟩ := (h x List.mem_cons_self f hf htype).resolve_left hsame
        rw [hv]
        exact hd

theorem notMem_takenKeys (hid : k ≠ "id".toList) (hauth : c.type = .auth → k ∉ authKeys) :
    k ∉ takenKeys c := by
  unfold takenKeys
  dsimp only
  refine fun h => (List.mem_cons.1 h).elim hid ?_
  split_ifs with ha hsuper
  · exact hauth ha
  · rw [List.append_nil]
    exact fun h => hauth ha (List.mem_append_left ["emailVisibility".toList] h)
  · exact List.not_mem_nil

theorem notMem_updateTakenKeys (hauth : c.type = .auth → k ∉ authKeys) :
    k ∉ updateTakenKeys c p := by
  unfold updateTakenKeys
  dsimp only
  split_ifs with ha hcamel
  · exact hauth ha
  · rw [List.append_nil]
    exact fun h => hauth ha (List.mem_append_left ["emailVisibility".toList] h)
  · exact List.not_mem_nil

theorem writesField_of (htype : f.type ≠ .autodate) (hname : f.name = k)
    (hauth : c.type = .auth → k ∉ authKeys) : writesField c f = true := by
  have hhandled : ∀ n ∈ authColumnsHandledSeparately, n ∈ authKeys := by decide
  unfold writesField
  rw [hname, Bool.and_eq_true, Bool.not_eq_true', ← Bool.not_eq_true, Bool.and_eq_true]
  simp only [decide_eq_true_eq]
  exact ⟨htype, fun ⟨ha, hk⟩ => hauth ha (hhandled k hk)⟩

/-! ## The columns of an auth record -/

variable {d : Draft}

theorem passwordColumns_ok {d' : Draft} (h : passwordColumns w₀ p d = .ok d')
    (herrors : d'.errors = []) (d₁ : Draft) :
    ∃ d₂, passwordColumns w p d₁ = .ok d₂ ∧ d₂.errors = d₁.errors := by
  unfold passwordColumns at h ⊢
  cases hlen : pyLen (getKey p "password") with
  | none =>
    rw [hlen] at h
    cases h
  | some n =>
    rw [hlen] at h
    dsimp only at h ⊢
    split_ifs at h ⊢ with hshort hconfirm
    · obtain rfl := Except.ok.inj h
      exact absurd herrors errors_addError
    · obtain rfl := Except.ok.inj h
      exact absurd herrors errors_addError
    · split at h
      · rename_i q hq
        exact ⟨_, rfl, rfl⟩
      · cases h

/-- The email that a creation takes, an update takes. -/
theorem emailColumn_ok {v : Value} (h : (emailColumn rt v d).errors = []) :
    v ≠ .null ∧ ∀ d₁, emailColumn rt v d₁ =
      d₁.setColumn "email" (.text (Text.strip (Macros.idText rt v))) := by
  unfold emailColumn at h ⊢
  dsimp only at h ⊢
  split at h
  · exact absurd h errors_addError
  · split_ifs at h with hblank hemail
    · exact absurd h errors_addError
    · refine ⟨nofun, fun d₁ => ?_⟩
      rw [if_neg hblank, if_pos hemail]
    · exact absurd h errors_addError
  · split_ifs at h with hemail
    · refine ⟨by assumption, fun d₁ => ?_⟩
      rw [if_pos hemail]
    · exact absurd h errors_addError

theorem flagUpdates_errors : (flagUpdates c p d).errors = d.errors := by
  unfold flagUpdates
  split_ifs <;> rfl

theorem has_of_getKey (h : getKey p k ≠ .null) : p.has k = true := by
  unfold getKey at h
  unfold Dict.has
  cases hk : p.get? k with
  | none => exact absurd (by rw [hk]; rfl) h
  | some v => rfl

/-- The system columns of a payload that a creation takes, in both. -/
theorem authUpdates_ok {d' : Draft} (h : authColumns w₀ rt c p d = .ok d')
    (herrors : d'.errors = []) (d₁ : Draft) :
    getKey p "password" ≠ .null ∧
      (∃ d₀ : Draft, d' = flagColumns c p (d₀.setColumn "email" (emailOf rt p))) ∧
      ∃ d₂ : Draft, d₂.errors = d₁.errors ∧
        authUpdates w rt c p d₁ =
          .ok (flagUpdates c p (d₂.setColumn "email" (emailOf rt p))) := by
  obtain ⟨d₀, hpassword, rfl⟩ := map_eq_ok.1 h
  have hemail := grows_flagColumns.errors herrors
  obtain ⟨hgiven, hcolumn⟩ := emailColumn_ok hemail
  replace herrors := grows_emailColumn.errors hemail
  split_ifs at hpassword with htruthy
  · have hnull : getKey p "password" ≠ .null := by
      intro hnull
      rw [hnull] at htruthy
      cases htruthy
    obtain ⟨d₂, hd₂, herrors₂⟩ := passwordColumns_ok (w := w) hpassword herrors d₁
    refine ⟨hnull, ⟨d₀, by rw [hcolumn]; rfl⟩, d₂, herrors₂, ?_⟩
    unfold authUpdates
    rw [if_neg hnull, hd₂]
    refine congrArg (fun d => Except.ok (flagUpdates c p d)) ?_
    rw [if_pos (has_of_getKey hgiven), hcolumn]
    rfl
  · obtain rfl := Except.ok.inj hpassword
    exact absurd herrors errors_addError

/-- A flag of the payload, in both. -/
theorem get?_flags (hsuper : c.name ≠ "_superusers".toList)
    (hk : k = "email_visibility" ∨ k = "verified") (hhas : p.has k = true) (d d' : Draft) :
    (flagColumns c p d).columns.get? k = some (.bool (getKey p k).truthy) ∧
      (flagUpdates c p d').columns.get? k = some (.bool (getKey p k).truthy) := by
  unfold flagColumns flagUpdates
  rw [if_neg hsuper, if_neg hsuper]
  dsimp only
  rcases hk with rfl | rfl
  · have hverified : ∀ (d : Draft) (v : Value), (d.setColumn "verified" v).columns.get?
        "email_visibility" = d.columns.get? "email_visibility" :=
      fun d v => setColumn_other d v (by decide)
    rw [hverified, if_pos hhas]
    refine ⟨Dict.get?_set_self _ _ _, ?_⟩
    split_ifs
    · rw [hverified]
      exact Dict.get?_set_self _ _ _
    · exact Dict.get?_set_self _ _ _
  · rw [if_pos hhas]
    exact ⟨Dict.get?_set_self _ _ _, Dict.get?_set_self _ _ _⟩

end

/-! ## The columns of a creation and of an update -/

section

variable {w w₀ : Writer} {rt : Runtime} {c : TableCollection} {p row : Row} {k id₀ : Text}
  {f : Field} {d d₀ : Draft}

/-- The visibility under both of its names, where the second one is not a field. -/
def OneVisibility (c : Collection) (p : Row) : Prop :=
  c.type = .auth → p.has "email_visibility" = true → p.has "emailVisibility" = true →
    c.fieldMap.get? "emailVisibility" = none

theorem notMem_systemColumns (hf : c.fieldMap.get? k = some f) :
    k ∉ systemColumns c.toCollection := by
  obtain ⟨hmem, rfl⟩ := SharedFiles.schema_of_fieldMap hf
  exact c.fields_ne f hmem

theorem fieldMap_eq_none (hk : k ∈ systemColumns c.toCollection) : c.fieldMap.get? k = none := by
  cases hf : c.fieldMap.get? k with
  | none => rfl
  | some f => exact absurd hk (notMem_systemColumns hf)

theorem mem_systemColumns_base (hk : k = "id" ∨ k = "updated") :
    k ∈ systemColumns c.toCollection := by
  refine List.mem_append_left _ ?_
  rcases hk with rfl | rfl <;> decide

/-- An auth collection with a table. -/
def TableCollection.toAuth (c : TableCollection) (h : c.type = .auth) :
    Accounts.AuthCollection where
  toCollection := c.toCollection
  isAuth := h
  fields_ne f hf hmem := by
    have hsub : ∀ k ∈ Accounts.systemColumns, k ∈ (["id", "created", "updated"] : List Text) ++
        (["email", "email_visibility", "verified", "token_key", "password_hash"] : List Text) := by
      decide
    refine c.fields_ne f hf ?_
    unfold systemColumns
    dsimp only
    rw [if_pos h]
    exact hsub _ hmem

/-- The columns that a creation writes itself. -/
theorem createDraft_system (h : createDraft w rt c.toCollection id₀ p [] = .ok d)
    (hauth : c.type = .auth) : ∃ d₁, authColumns w rt c.toCollection p (newColumns w id₀) = .ok d₁ ∧
      (d.errors = [] → d₁.errors = []) ∧
      ∀ k ∈ Accounts.systemColumns, d.columns.get? k = d₁.columns.get? k := by
  unfold createDraft at h
  rw [if_pos hauth] at h
  obtain ⟨d₁, hd₁, rfl⟩ := map_eq_ok.1 h
  refine ⟨d₁, hd₁, fun herrors => ?_, fun k hk => ?_⟩
  · exact grows_uploadErrors.errors ((Draft.Grows.foldl (grows_fieldColumn _) _ _).errors herrors)
  · rw [← uploadErrors_columns (w := w) (c := c.toCollection) [] d₁]
    exact Accounts.get?_fieldColumns (c := c.toAuth hauth) hk

/-- A field of the payload is written by a creation. -/
theorem get?_created (h : createDraft w rt c.toCollection id₀ p [] = .ok d)
    (herrors : d.errors = []) (hf : c.fieldMap.get? k = some f) (htype : f.type ≠ .autodate)
    (hauth : c.type = .auth → k ∉ authKeys) :
    ∃ v, w.checkField f (getKey p k) = .ok v ∧ d.columns.get? k = some v := by
  obtain ⟨d₁, -, rfl⟩ := map_eq_ok.1 h
  have hid : k ≠ "id" := fun hid => notMem_systemColumns hf (mem_systemColumns_base (Or.inl hid))
  have hkey : getKey (createdPayload w c.toCollection [] p) k = getKey p k := by
    unfold getKey
    rw [get?_createdPayload (fun _ he => absurd he List.not_mem_nil) (notMem_takenKeys hid hauth)]
  rw [← hkey]
  exact get?_writtenFields hf
    (writesField_of htype (SharedFiles.schema_of_fieldMap hf).2 hauth) herrors

/-- The keys of the payload that are left for the fields are not among those of an auth record. -/
theorem notMem_authKeys (hone : OneVisibility c.toCollection p)
    (hf : c.fieldMap.get? k = some f) (hhas : p.has k = true)
    (htaken : k ∉ updateTakenKeys c.toCollection p) (hauth : c.type = .auth) : k ∉ authKeys := by
  unfold updateTakenKeys at htaken
  dsimp only at htaken
  rw [if_pos hauth] at htaken
  have hsplit : authKeys = (["password_hash", "token_key", "password", "passwordConfirm", "email",
      "email_visibility", "verified"] : List Text) ++ ["emailVisibility".toList] := rfl
  rw [hsplit, List.mem_append, not_or, List.mem_singleton]
  refine ⟨fun h => htaken (List.mem_append_left _ h), ?_⟩
  rintro rfl
  split_ifs at htaken with hcamel
  · exact htaken (List.mem_append_right _ List.mem_cons_self)
  · have hsnake : p.has "email_visibility" = true := by
      simpa using (not_or.1 hcamel).2
    rw [hone hauth hsnake hhas] at hf
    cases hf

/-- What a creation takes, an update takes. -/
theorem updateDraft_ok (row : Row) (hp : PlainKeys p) (hone : OneVisibility c.toCollection p)
    (hcheck : w.checkField = w₀.checkField)
    (h : createDraft w₀ rt c.toCollection id₀ p [] = .ok d₀) (herrors : d₀.errors = []) :
    ∃ d, updateDraft w rt c.toCollection row p [] = .ok d ∧ d.errors = [] := by
  obtain ⟨d₁, hd₁, herrors₁⟩ : ∃ d₁ : Draft,
      (if c.type = .auth then authUpdates w rt c.toCollection p ⟨[("updated", .time w.now)], []⟩
        else .ok ⟨[("updated", .time w.now)], []⟩) = .ok d₁ ∧ d₁.errors = [] := by
    split_ifs with hauth
    · obtain ⟨d₂, hd₂, herrors₂, -⟩ := createDraft_system h hauth
      obtain ⟨-, -, d₃, herrors₃, hd₃⟩ := authUpdates_ok (w := w) hd₂ (herrors₂ herrors)
        ⟨[("updated", .time w.now)], []⟩
      refine ⟨_, hd₃, ?_⟩
      rw [flagUpdates_errors]
      exact herrors₃
    · exact ⟨_, rfl, rfl⟩
  obtain ⟨state, hstate, hget⟩ := fieldState_plain w rt c.toCollection row hp
    (updateTakenKeys c.toCollection p)
  refine ⟨_, by rw [updateDraft, hd₁, ok_bind, hstate, ok_bind]; rfl, ?_⟩
  refine changedColumns_errors herrors₁ fun x hx f hf htype => ?_
  have hx' := (Dict.get?_of_mem (nodup_fieldState hstate) hx).symm.trans (hget x.1)
  rw [if_pos (isWritable_iff.2 ⟨f, hf, htype⟩)] at hx'
  replace hx' := Option.some.inj hx'
  split_ifs at hx' with htaken
  · exact Or.inl (hx' ▸ sameValue_self _)
  cases hv : p.get? x.1 with
  | none =>
    rw [hv] at hx'
    exact Or.inl (hx' ▸ sameValue_self _)
  | some v =>
    have hkey : getKey p x.1 = x.2 := by rw [getKey, hv, hx', hv]; rfl
    have hhas : p.has x.1 = true := by rw [Dict.has, hv]; rfl
    obtain ⟨v', hv', -⟩ := get?_created h herrors hf htype (notMem_authKeys hone hf hhas htaken)
    rw [hkey, ← hcheck] at hv'
    exact Or.inr ⟨v', hv'⟩

/-- The state of the fields that an update compares with the row. -/
theorem exists_state (hp : PlainKeys p)
    (hd : updateDraft w rt c.toCollection row p [] = .ok d) : ∃ (d₁ : Draft) (state : Row),
      (if c.type = .auth then
        authUpdates w rt c.toCollection p ⟨[("updated", .time w.now)], []⟩
      else .ok ⟨[("updated", .time w.now)], []⟩) = .ok d₁ ∧ state.keys.Nodup ∧
      (∀ k, state.get? k = if isWritable c.toCollection k then
        some (if k ∈ updateTakenKeys c.toCollection p then getKey row k
          else (p.get? k).getD (getKey row k)) else none) ∧
      d = state.foldl (changedColumn w c.toCollection row) d₁ := by
  unfold updateDraft at hd
  obtain ⟨d₁, hd₁, hd⟩ := bind_eq_ok.1 hd
  obtain ⟨state, hstate, hd⟩ := bind_eq_ok.1 hd
  obtain ⟨state', hstate', hget⟩ := fieldState_plain w rt c.toCollection row hp
    (updateTakenKeys c.toCollection p)
  obtain rfl := Except.ok.inj (hstate.symm.trans hstate')
  exact ⟨d₁, state, hd₁, nodup_fieldState hstate, hget, (Except.ok.inj hd).symm⟩

/-- A field of the payload : as the creation writes it, or not written at all. -/
theorem get?_updatedField (hp : PlainKeys p) (hcheck : w.checkField = w₀.checkField)
    (h : createDraft w₀ rt c.toCollection id₀ p [] = .ok d₀) (herrors₀ : d₀.errors = [])
    (hd : updateDraft w rt c.toCollection row p [] = .ok d) (herrors : d.errors = [])
    (hf : c.fieldMap.get? k = some f) (htype : f.type ≠ .autodate) (hhas : p.has k = true)
    (hauth : c.type = .auth → k ∉ authKeys) :
    sameValue (getKey p k) (getKey row k) = true ∧ d.columns.get? k = none ∨
      ∃ v, d.columns.get? k = some v ∧ d₀.columns.get? k = some v := by
  obtain ⟨v, hv, hcreated⟩ := get?_created h herrors₀ hf htype hauth
  obtain ⟨d₁, state, hd₁, hnodup, hget, rfl⟩ := exists_state hp hd
  have hvalue : state.get? k = some (getKey p k) := by
    obtain ⟨u, hu⟩ := Option.isSome_iff_exists.1 hhas
    have hkey : getKey p k = u := by rw [getKey, hu, Option.getD_some]
    rw [hget, if_pos (isWritable_iff.2 ⟨f, hf, htype⟩), if_neg (notMem_updateTakenKeys hauth), hu,
      hkey, Option.getD_some]
  rcases get?_changedColumns hf htype _ hnodup hvalue herrors
    with ⟨hsame, hnot⟩ | ⟨v', hv', hwritten⟩
  · refine Or.inl ⟨hsame, hnot.trans ?_⟩
    exact get?_startedColumns (notMem_systemColumns hf) hd₁
  · rw [hcheck, hv] at hv'
    obtain rfl := Except.ok.inj hv'
    exact Or.inr ⟨v, hwritten, hcreated⟩

/-- An automatic date is not written. -/
theorem get?_updatedDate (hp : PlainKeys p)
    (hd : updateDraft w rt c.toCollection row p [] = .ok d) (hf : c.fieldMap.get? k = some f)
    (htype : f.type = .autodate) : d.columns.get? k = none := by
  obtain ⟨d₁, state, hd₁, hnodup, hget, rfl⟩ := exists_state hp hd
  have hnot : ¬isWritable c.toCollection k = true := by
    rw [isWritable_iff]
    rintro ⟨g, hg, hne⟩
    obtain rfl := Option.some.inj (hf.symm.trans hg)
    exact hne htype
  have hnone : state.get? k = none := by rw [hget, if_neg hnot]
  rw [changedColumns_other _ fun x hx hxk => ?_]
  · exact get?_startedColumns (notMem_systemColumns hf) hd₁
  · subst hxk
    rw [Dict.get?_of_mem hnodup hx] at hnone
    cases hnone

/-- The system columns of an auth record, written by both. -/
theorem get?_updatedSystem (hauth : c.type = .auth)
    (h : createDraft w₀ rt c.toCollection id₀ p [] = .ok d₀) (herrors₀ : d₀.errors = [])
    (hd : updateDraft w rt c.toCollection row p [] = .ok d) (herrors : d.errors = []) :
    d.columns.get? "email" = some (emailOf rt p) ∧
      d₀.columns.get? "email" = some (emailOf rt p) ∧
      (c.name ≠ "_superusers".toList → ∀ k : Text, k = "email_visibility" ∨ k = "verified" →
        p.has k = true → ∃ v, d.columns.get? k = some v ∧ d₀.columns.get? k = some v) ∧
      ∃ q, getKey p "password" = .text q ∧
        d.columns.get? "password_hash" = some (.text (w.hashPassword q)) := by
  obtain ⟨d₂, hd₂, herrors₂, hcreated⟩ := createDraft_system h hauth
  obtain ⟨hgiven, ⟨d₃, rfl⟩, d₄, -, hupdates⟩ := authUpdates_ok (w := w) hd₂ (herrors₂ herrors₀)
    ⟨[("updated", .time w.now)], []⟩
  have hupdated : ∀ k ∈ Accounts.systemColumns, d.columns.get? k = (flagUpdates c.toCollection p
      (d₄.setColumn "email" (emailOf rt p))).columns.get? k ∧ (d.errors = [] → (flagUpdates
        c.toCollection p (d₄.setColumn "email" (emailOf rt p))).errors = []) := by
    intro k hk
    have hspares : ∀ key, Spares c.toCollection key k := fun _ _ =>
      Accounts.fieldMap_eq_none (c := c.toAuth hauth) hk
    obtain ⟨d₅, hd₅, hcolumn⟩ := updateDraft_fields hd (k := k) (fun _ _ _ _ => hspares _)
      fun _ _ => hspares _
    rw [if_pos hauth, hupdates] at hd₅
    obtain rfl := Except.ok.inj hd₅
    exact hcolumn
  obtain ⟨q, hq, hhash, -⟩ := authUpdates_credentials hupdates
    ((hupdated "email" (by decide)).2 herrors) hgiven
  refine ⟨?_, ?_, fun hsuper k hk hhas => ?_, q, hq, ?_⟩
  · rw [(hupdated "email" (by decide)).1, get?_flagUpdates (by decide)]
    exact Dict.get?_set_self _ _ _
  · rw [hcreated "email" (by decide), get?_flagColumns (by decide)]
    exact Dict.get?_set_self _ _ _
  · have hmem : k ∈ Accounts.systemColumns := by
      rcases hk with rfl | rfl <;> decide
    obtain ⟨hflag₀, hflag⟩ := get?_flags hsuper hk hhas (d₃.setColumn "email" (emailOf rt p))
      (d₄.setColumn "email" (emailOf rt p))
    exact ⟨_, (hupdated k hmem).1.trans hflag, (hcreated k hmem).trans hflag₀⟩
  · rw [(hupdated "password_hash" (by decide)).1, hhash]

end

/-! ## The row of an update -/

section

variable {w w₀ : Writer} {rt : Runtime} {c : TableCollection} {p row created : Row}
  {k id id₀ id₁ : Text} {d d₀ : Draft} {db db₀ db₁ : Db} {left : Row}
  {verify : Text → Text → Bool}

/-- The row that the columns of an update make. The time alone is not written. -/
def updatedRow (row : Row) (d : Draft) : Row :=
  if d.columns.length ≤ 1 then row else Dict.update row d.columns

theorem get?_updatedRow (hd : updateDraft w rt c.toCollection row p [] = .ok d)
    (hk : k ≠ "updated") : (updatedRow row d).get? k = (d.columns.get? k).or (row.get? k) := by
  unfold updatedRow
  split_ifs with hlength
  · cases hcolumn : d.columns.get? k with
    | none => rfl
    | some v => exact absurd (eq_updated (grows_updateDraft hd) hlength hcolumn) hk
  · exact Dict.get?_update (nodup_updateDraft hd) k

/-- The row of a draft is the row that an update writes, unless the table refuses it. -/
theorem updateRecord_eq (hid : (w.recordId? (.text id)).isSome)
    (hrow : db.rowById c.name id = some row)
    (hd : updateDraft w rt c.toCollection row p [] = .ok d) (herrors : d.errors = [])
    (hconflict : emailConflict db c.toCollection (some id) d.columns = false) :
    (∃ db', updateRecord w rt db c.toCollection id p [] = .ok (some db') ∧
        db'.rowById c.name id = some (updatedRow row d)) ∨
      w.accepts c.name (updatedRow row d) = false ∧
        updateRecord w rt db c.toCollection id p [] = .error .exception := by
  have hsome : ¬(w.recordId? (.text id)).isNone := by simp [Option.isSome_iff_ne_none.1 hid]
  have hwrite : updateRecord w rt db c.toCollection id p [] =
      (writeUpdates w db c.toCollection id row d.columns).map some := by
    unfold updateRecord
    rw [if_neg hsome, hrow]
    dsimp only
    rw [hd, ok_bind, Draft.checked, if_pos herrors, ok_bind]
    cases writeUpdates w db c.toCollection id row d.columns <;> rfl
  unfold writeUpdates at hwrite
  rw [hconflict, if_neg Bool.false_ne_true] at hwrite
  unfold updatedRow
  split_ifs at hwrite ⊢ with hlength haccepts
  · exact Or.inl ⟨db, hwrite, hrow⟩
  · refine Or.inl ⟨_, hwrite, ?_⟩
    have hspared : ∀ key, Spares c.toCollection key "id" := fun _ _ =>
      fieldMap_eq_none (mem_systemColumns_base (Or.inl rfl))
    have hnoid : "id".toList ∉ d.columns.keys := by
      refine Dict.get?_eq_none_iff.1 (updateDraft_other hd (by decide) (fun hauth => ?_)
        (fun _ _ _ _ => hspared _) fun _ _ => hspared _)
      exact ⟨fun h => absurd h (by decide), fun h => absurd h (by decide),
        fun h => absurd h (by decide), fun h => absurd h (by decide)⟩
    have hrowid : row.get? "id" = some (.text id) := by simpa using List.find?_some hrow
    rw [Db.rowById_updateRow_eq hnoid, hrow, Option.map_some, if_pos hrowid]
  · exact Or.inr ⟨Bool.not_eq_true _ ▸ haccepts, hwrite⟩

theorem getKey_eq_of_get? {r s : Row} (h : r.get? k = s.get? k) : getKey r k = getKey s k := by
  rw [getKey, getKey, h]

/-- Creation and update agree. A payload of plain keys that a creation takes passes the checks of an
update, and in the row that it makes the fields of the payload hold what they hold in the created
record. -/
theorem create_update_agree (hp : PlainKeys p) (hone : OneVisibility c.toCollection p)
    (hcheck : w.checkField = w₀.checkField) (hverify : ∀ q, verify q (w.hashPassword q) = true)
    (hcreate : createRecord w₀ rt db₀ c.toCollection p [] = .ok (db₁, id₁, left))
    (hcreated : db₁.rowById c.name id₁ = some created)
    (hid : (w.recordId? (.text id)).isSome) (hrow : db.rowById c.name id = some row)
    (hemail : c.type = .auth → emailTaken db c.toCollection (some id) (emailOf rt p) = false) :
    ∃ row', Agrees verify c.toCollection p row created row' ∧
      ((∃ db', updateRecord w rt db c.toCollection id p [] = .ok (some db') ∧
          db'.rowById c.name id = some row') ∨
        w.accepts c.name row' = false ∧
          updateRecord w rt db c.toCollection id p [] = .error .exception) := by
  obtain ⟨d₀, -, hd₀, herrors₀, hnew, rfl⟩ := of_createRecord hcreate
  obtain rfl : created = d₀.columns := by
    rcases Db.rowById_of_insertRow hcreated with hold | ⟨-, rfl, -⟩
    · rw [hnew] at hold
      cases hold
    · rfl
  obtain ⟨d, hd, herrors⟩ := updateDraft_ok row hp hone hcheck hd₀ herrors₀
  have hupdated : ∀ k : Text, k ≠ "updated" → ∀ v, d.columns.get? k = some v →
      getKey (updatedRow row d) k = v := by
    intro k hk v hv
    rw [getKey, get?_updatedRow hd hk, hv]
    rfl
  have hkept : ∀ k : Text, k ≠ "updated" → d.columns.get? k = none →
      getKey (updatedRow row d) k = getKey row k := by
    intro k hk hnone
    refine getKey_eq_of_get? ?_
    rw [get?_updatedRow hd hk, hnone, Option.none_or]
  have hfield : ∀ k f, c.fieldMap.get? k = some f → k ≠ "updated" := fun k f hf hk =>
    notMem_systemColumns hf (mem_systemColumns_base (Or.inr hk))
  have hcolumn : ∀ k v, d₀.columns.get? k = some v → getKey d₀.columns k = v := by
    intro k v hv
    rw [getKey, hv]
    rfl
  refine ⟨updatedRow row d, ⟨fun k f hf htype hhas hauth => ?_, fun k f hf htype => ?_,
    fun hauth => ?_, fun hauth hsuper k hk hhas => ?_, fun hauth => ?_⟩,
    updateRecord_eq hid hrow hd herrors ?_⟩
  · rcases get?_updatedField hp hcheck hd₀ herrors₀ hd herrors hf htype hhas hauth
      with ⟨hsame, hnone⟩ | ⟨v, hv, hv₀⟩
    · exact Or.inr ⟨hsame, hkept k (hfield k f hf) hnone⟩
    · exact Or.inl ((hupdated k (hfield k f hf) v hv).trans (hcolumn k v hv₀).symm)
  · exact hkept k (hfield k f hf) (get?_updatedDate hp hd hf htype)
  · obtain ⟨hv, hv₀, -⟩ := get?_updatedSystem hauth hd₀ herrors₀ hd herrors
    exact (hupdated _ (by decide) _ hv).trans (hcolumn _ _ hv₀).symm
  · obtain ⟨-, -, hflags, -⟩ := get?_updatedSystem hauth hd₀ herrors₀ hd herrors
    obtain ⟨v, hv, hv₀⟩ := hflags hsuper k hk hhas
    have hne : k ≠ "updated" := by
      rcases hk with rfl | rfl <;> decide
    exact (hupdated k hne v hv).trans (hcolumn k v hv₀).symm
  · obtain ⟨-, -, -, q, hq, hhash⟩ := get?_updatedSystem hauth hd₀ herrors₀ hd herrors
    exact ⟨q, _, hq, hupdated _ (by decide) _ hhash, hverify q⟩
  · unfold emailConflict
    by_cases hauth : c.type = .auth
    · obtain ⟨hv, -⟩ := get?_updatedSystem hauth hd₀ herrors₀ hd herrors
      rw [hv]
      simp [hemail hauth]
    · simp [hauth]

/-- A visibility that has only the name `emailVisibility` is not read by a creation. -/
theorem visibility_by_camel {db' : Db} {row' : Row} (hauth : c.type = .auth)
    (hsuper : c.name ≠ "_superusers".toList) (hsnake : p.has "email_visibility" = false)
    (hcamel : p.has "emailVisibility" = true)
    (hcreate : createRecord w₀ rt db₀ c.toCollection p [] = .ok (db₁, id₁, left))
    (hcreated : db₁.rowById c.name id₁ = some created) (hrow : db.rowById c.name id = some row)
    (hupdate : updateRecord w rt db c.toCollection id p [] = .ok (some db'))
    (hrow' : db'.rowById c.name id = some row') :
    getKey created "email_visibility" = .bool false ∧
      getKey row' "email_visibility" = .bool (getKey p "emailVisibility").truthy := by
  have hkey : "email_visibility".toList ∈ Accounts.systemColumns := by decide
  have hverified : ∀ (d : Draft) (v : Value), (d.setColumn "verified" v).columns.get?
      "email_visibility" = d.columns.get? "email_visibility" :=
    fun d v => setColumn_other d v (by decide)
  constructor
  · obtain ⟨d₀, -, hd₀, herrors₀, hnew, rfl⟩ := of_createRecord hcreate
    obtain ⟨d₁, hd₁, -, hsystem⟩ := createDraft_system hd₀ hauth
    obtain ⟨d₂, -, rfl⟩ := map_eq_ok.1 hd₁
    rcases Db.rowById_of_insertRow hcreated with hold | ⟨-, rfl, -⟩
    · rw [hnew] at hold
      cases hold
    · have hnull : getKey p "email_visibility" = .null := by
        rw [getKey, Option.isSome_eq_false_iff.1 hsnake |> Option.isNone_iff_eq_none.1]
        rfl
      rw [getKey, hsystem _ hkey, flagColumns, if_neg hsuper, hverified, hnull]
      exact congrArg (Option.getD · Value.null) (Dict.get?_set_self _ _ _)
  · obtain ⟨d, hd, -, hcolumn⟩ := get?_updated hupdate hrow hrow' (k := "email_visibility")
      (by decide)
    have hspares : ∀ key, Spares c.toCollection key "email_visibility" := fun _ _ =>
      Accounts.fieldMap_eq_none (c := c.toAuth hauth) hkey
    obtain ⟨d₁, hd₁, hsystem, -⟩ := updateDraft_fields hd (fun _ _ _ _ => hspares _)
      fun _ _ => hspares _
    rw [if_pos hauth] at hd₁
    obtain ⟨d₂, -, rfl⟩ := map_eq_ok.1 hd₁
    have hflag : ∀ d : Draft, (flagUpdates c.toCollection p d).columns.get? "email_visibility" =
        some (.bool (getKey p "emailVisibility").truthy) := by
      intro d
      unfold flagUpdates
      rw [if_neg hsuper]
      dsimp only
      rw [hsnake, if_neg Bool.false_ne_true, if_pos hcamel]
      split_ifs
      · rw [hverified]
        exact Dict.get?_set_self _ _ _
      · exact Dict.get?_set_self _ _ _
    rw [getKey, hcolumn, hsystem, hflag, Option.some_or, Option.getD_some]

end

/-! ## Members, slots and contacts -/

/-- An auth collection with one field. -/
def members : TableCollection where
  toCollection :=
    { id := "members", name := "members", type := .auth
      schema := [⟨"name", .text, false, {}, {}⟩] }
  fields_ne f hf := by
    obtain rfl := List.mem_singleton.1 hf
    decide

def memberData : Row :=
  [("email", .text "a@b.c"), ("password", .text "password"), ("passwordConfirm", .text "password"),
    ("verified", .bool true), ("name", .text "Ann")]

def memberRow : Row :=
  [("id", .text "m1"), ("email", .text "x@y.z"), ("verified", .bool false), ("name", .text "Bob")]

def noMembers : Db := ⟨[members.toCollection], [("members", ⟨["id"], []⟩)]⟩

def oneMember : Db := ⟨[members.toCollection], [("members", ⟨["id"], [memberRow]⟩)]⟩

theorem member_updated : ∃ db' row', updateRecord .simple .simple oneMember members.toCollection
      "m1" memberData [] = .ok (some db') ∧ db'.rowById "members" "m1" = some row' ∧
    getKey row' "name" = .text "Ann" ∧ getKey row' "verified" = .bool true := by
  obtain ⟨row', hagrees, ⟨db', h, hrow'⟩ | ⟨hrefused, -⟩⟩ := @create_update_agree .simple .simple
    .simple members memberData memberRow _ "m1" _ oneMember noMembers _ _ (fun q h => q = h)
    ⟨by decide, by decide, by decide⟩ (fun _ _ h => absurd h (by decide)) rfl
    (fun q => decide_eq_true rfl) rfl rfl rfl rfl fun _ => by decide
  · refine ⟨db', row', h, hrow', ?_, ?_⟩
    · rcases hagrees.fields "name" _ rfl (by decide) (by decide) (fun _ => by decide)
        with hname | ⟨hsame, -⟩
      · exact hname
      · exact absurd hsame (by decide)
    · exact hagrees.flags rfl (by decide) "verified" (Or.inr rfl) (by decide)
  · cases hrefused

/-- The members' data with the visibility under the name that PocketBase gives it. -/
def camelData : Row := ("emailVisibility", .bool true) :: memberData

theorem camel_not_created : ∃ created row' : Row, getKey created "name" = .text "Ann" ∧
    getKey created "email_visibility" = .bool false ∧
      getKey row' "email_visibility" = .bool true := by
  have h := @visibility_by_camel .simple .simple .simple members camelData memberRow _ "m1" _
    oneMember noMembers _ _ _ _ rfl (by decide) rfl rfl rfl rfl rfl rfl rfl
  exact ⟨_, _, rfl, h⟩

/-- Days and rooms of slots. -/
def slots : TableCollection where
  toCollection :=
    { id := "slots", name := "slots"
      schema := [⟨"day", .text, false, {}, {}⟩, ⟨"room", .text, false, {}, {}⟩] }
  fields_ne := by decide

def slotRow (id day room : Text) : Row :=
  [("id", .text id), ("day", .text day), ("room", .text room)]

def twoSlots : Db :=
  ⟨[slots.toCollection], [("slots", ⟨["id", "day", "room"],
    [slotRow "a" "Monday" "hall", slotRow "b" "Tuesday" "hall"]⟩)]⟩

/-- The writer for a table of slots in which no other slot may have the day and the room of the
slot `a`. -/
def booking : Writer :=
  { Writer.simple with
    accepts := fun _ r => !(r.get? "id" ≠ some (.text "a") &&
      (getKey r "day" = .text "Monday" && getKey r "room" = .text "hall")) }

/-- An address that was stored before its field became an email field. -/
def contacts : TableCollection where
  toCollection :=
    { id := "contacts", name := "contacts", schema := [⟨"mail", .email, false, {}, {}⟩] }
  fields_ne := by decide

def oneContact : Db :=
  ⟨[contacts.toCollection], [("contacts", ⟨["id", "mail"],
    [[("id", .text "k"), ("mail", .text " a@b.c")]]⟩)]⟩

/-- The writer with the `strip` of `_validate_email`. -/
def stripping : Writer :=
  { Writer.simple with
    checkField := fun _ v =>
      match v with
      | .text s => .ok (.text (Text.strip s))
      | v => .ok v }

/-- The table may refuse the changed row, which has the room of its slot beside the new day, and a
value that equals the stored one is not written. -/
theorem refused_or_kept : (¬∀ (w w₀ : Writer) (rt : Runtime) (c : TableCollection)
    (p row created left : Row) (db db₀ db₁ : Db) (id id₁ : Text), PlainKeys p →
      w.checkField = w₀.checkField →
      createRecord w₀ rt db₀ c.toCollection p [] = .ok (db₁, id₁, left) →
      db₁.rowById c.name id₁ = some created → (w.recordId? (.text id)).isSome →
      db.rowById c.name id = some row →
      (c.type = .auth → emailTaken db c.toCollection (some id) (emailOf rt p) = false) →
      ∃ db', updateRecord w rt db c.toCollection id p [] = .ok (some db')) ∧
    ¬∀ (w w₀ : Writer) (rt : Runtime) (c : TableCollection)
      (p row row' created left : Row) (db db' db₀ db₁ : Db) (id id₁ : Text), PlainKeys p →
      w.checkField = w₀.checkField →
      createRecord w₀ rt db₀ c.toCollection p [] = .ok (db₁, id₁, left) →
      db₁.rowById c.name id₁ = some created → db.rowById c.name id = some row →
      updateRecord w rt db c.toCollection id p [] = .ok (some db') →
      db'.rowById c.name id = some row' →
      ∀ f ∈ c.schema, f.type ≠ .autodate → (c.type = .auth → f.name ∉ authKeys) →
        p.has f.name = true → getKey row' f.name = getKey created f.name := by
  constructor
  · intro h
    obtain ⟨db', hdb'⟩ := h booking booking .simple slots [("day", .text "Monday")] _ _ _ twoSlots
      twoSlots _ "b" _ ⟨by decide, by decide, by decide⟩ rfl rfl rfl rfl rfl
      fun hauth => absurd hauth (by decide)
    cases hdb'
  · intro h
    have hkept := h stripping stripping .simple contacts [("mail", .text " a@b.c")] _ _ _ _
      oneContact _ oneContact _ "k" _ ⟨by decide, by decide, by decide⟩ rfl rfl rfl rfl rfl rfl _
      List.mem_cons_self (by decide) (fun hauth => absurd hauth (by decide)) rfl
    exact absurd hkept (by decide)

end WriteAgreement

end PPBase
