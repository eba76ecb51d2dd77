import PPBase.Batch

/-!
# A batch and its requests one after another

For rules that mention neither the context nor the headers, each request of a batch does what
it does on its own (`executeBatchRequest_same`). So a batch goes through exactly if all its
requests do, sent one after another for the same identity, and leads to the same rows
(`batch_equals_requests`).
-/

namespace PPBase

namespace Batch

open RecordStore RecordApi Files Storage Cleanup

/-- The two contexts differ only in the context's name and the headers. -/
def SameRequest (ctx ctx' : RequestContext) : Prop :=
  ctx' = { ctx with context := ctx'.context, headers := ctx'.headers }

/-- No rule of the collection mentions `@request.context` or a header. -/
structure Plain (c : Collection) : Prop where
  create : ∀ rule, c.createRule = some rule → ¬MentionsRequest rule
  update : ∀ rule, c.updateRule = some rule → ¬MentionsRequest rule
  delete : ∀ rule, c.deleteRule = some rule → ¬MentionsRequest rule
  manage : ∀ rule, c.options.manageRule = some rule → ¬MentionsRequest rule

/-- Both go through, to the same end, or both fail. -/
def Work.Same (k k' : Work) : Prop :=
  (∃ d, k.result = .ok d ∧ k'.result = .ok d ∧ k.written = k'.written) ∨
    ∃ e e', k.result = .error e ∧ k'.result = .error e'

/-! ## Rules -/

section

variable {S : Server} {w : Writer} {rt : Runtime} {pg : Pg} {db db' : Db} {c : Collection}
  {ctx ctx' : RequestContext} {id : Text} {isAdmin : Bool} {data : Row} {auth : Option TokenPayload}
  {route route' : Route} {req req' : RecordRequest} {opts : Options}

theorem SameRequest.symm (h : SameRequest ctx ctx') : SameRequest ctx' ctx := by
  unfold SameRequest at h ⊢
  rw [h]

theorem recordRule_same (h : SameRequest ctx ctx') {rule : Text} (hrule : ¬MentionsRequest rule) :
    recordRule rt pg db c id rule ctx' = recordRule rt pg db c id rule ctx := by
  unfold recordRule
  rw [h, checkRecordRule_relabel hrule]

/-- The rule an expression comes from. -/
theorem checkRule_expression {rule : Option Text} {expr : Text}
    (h : checkRule rule isAdmin = .expression expr) : rule = some expr := by
  unfold checkRule at h
  split at h
  · split at h <;> cases h
  · cases h
  · split at h
    · cases h
    · cases h
      rfl

theorem hasManageAccess_same (h : SameRequest ctx ctx')
    (hrule : ∀ rule, c.options.manageRule = some rule → ¬MentionsRequest rule) :
    hasManageAccess rt pg db c id isAdmin ctx' = hasManageAccess rt pg db c id isAdmin ctx := by
  unfold hasManageAccess
  cases hcheck : checkRule c.options.manageRule isAdmin with
  | expression rule =>
    dsimp only
    rw [recordRule_same h (hrule rule (checkRule_expression hcheck))]
  | _ => rfl

theorem createAllowed_same (h : SameRequest ctx ctx') {rule : Option Text}
    (hrule : ∀ r, rule = some r → ¬MentionsRequest r) :
    createAllowed rt pg db c id ctx' (checkRule rule isAdmin) =
      createAllowed rt pg db c id ctx (checkRule rule isAdmin) := by
  cases hcheck : checkRule rule isAdmin with
  | expression expr =>
    unfold createAllowed
    dsimp only
    rw [recordRule_same h (hrule expr (checkRule_expression hcheck))]
  | _ => rfl

theorem updateAllowed_same (h : SameRequest ctx ctx') {rule : Option Text}
    (hrule : ∀ r, rule = some r → ¬MentionsRequest r) :
    updateAllowed rt pg db c id ctx' (checkRule rule isAdmin) =
      updateAllowed rt pg db c id ctx (checkRule rule isAdmin) := by
  cases hcheck : checkRule rule isAdmin with
  | expression expr =>
    unfold updateAllowed
    dsimp only
    rw [recordRule_same h (hrule expr (checkRule_expression hcheck))]
  | _ => rfl

theorem createManaged_same (h : SameRequest ctx ctx') (hc : Plain c) :
    createManaged rt pg db c id isAdmin ctx' data = createManaged rt pg db c id isAdmin ctx data := by
  unfold createManaged
  rw [hasManageAccess_same h hc.manage]

theorem updateManaged_same (h : SameRequest ctx ctx') (hc : Plain c) :
    updateManaged rt pg db c id isAdmin ctx' auth data =
      updateManaged rt pg db c id isAdmin ctx auth data := by
  unfold updateManaged
  rw [hasManageAccess_same h hc.manage]

/-! ## The handlers -/

/-- Whether there is a response only depends on the row. -/
theorem exists_mutationResponse {row : Row} (h : db.rowById c.name id = some row) :
    ∃ m, mutationResponse rt db c id route auth opts = some m := by
  unfold mutationResponse mutationRecord getRecord
  rw [h]
  split_ifs <;> exact ⟨_, rfl⟩

/-- The two requests are the same but for their contexts' names and headers. -/
structure SameWrite (c : Collection) (w : Writer) (kind : WriteKind) (route route' : Route)
    (req req' : RecordRequest) : Prop where
  auth : req'.auth = req.auth
  data : req'.data = req.data
  files : req'.files = req.files
  context : SameRequest (ruleContext w c kind route req) (ruleContext w c kind route' req')

theorem SameWrite.symm {kind : WriteKind} (h : SameWrite c w kind route route' req req') :
    SameWrite c w kind route' route req' req :=
  ⟨h.auth.symm, h.data.symm, h.files.symm, h.context.symm⟩

variable {m : ExpandedRecord}

theorem createHandler_eq_ok {payload : Row}
    (hcreate : createRecord w rt db c req.data req.files = .ok (db', id, payload))
    (hallowed : createAllowed rt pg db' c id (ruleContext w c .create route req) (checkRule c.createRule (isAdminPayload req.auth)) = .ok ())
    (hmanaged : createManaged rt pg db' c id (isAdminPayload req.auth) (ruleContext w c .create route req) req.data = .ok ())
    (hm : mutationResponse rt db' c id route req.auth opts = some m) :
    createHandler w rt pg db c route req opts = .ok (db', id, m) := by
  have hdeny : checkRule c.createRule (isAdminPayload req.auth) ≠ .deny := by
    intro h
    rw [h] at hallowed
    cases hallowed
  unfold createHandler
  dsimp only
  rw [if_neg hdeny, hcreate]
  show (createAllowed rt pg db' c id (ruleContext w c .create route req) _ >>= fun _ => _) = _
  rw [hallowed, Failing.ok_bind, hmanaged, Failing.ok_bind, hm]

theorem updateHandler_eq_ok
    (hupdate : updateRecord w rt db c id req.data req.files = .ok (some db'))
    (hallowed : updateAllowed rt pg db c id (ruleContext w c .update route req) (checkRule c.updateRule (isAdminPayload req.auth)) = .ok ())
    (hmanaged : updateManaged rt pg db c id (isAdminPayload req.auth) (ruleContext w c .update route req) req.auth req.data = .ok ())
    (hm : mutationResponse rt db' c id route req.auth opts = some m) :
    updateHandler w rt pg db c id route req opts = .ok (db', m) := by
  unfold updateHandler
  dsimp only
  rw [hallowed, Failing.ok_bind, hmanaged, Failing.ok_bind, hupdate]
  simp only [Except.mapError, Failing.ok_bind, hm]

theorem createHandler_transfer (hc : Plain c) (h : SameWrite c w .create route route' req req')
    (hok : createHandler w rt pg db c route req opts = .ok (db', id, m)) :
    ∃ m', createHandler w rt pg db c route' req' opts = .ok (db', id, m') := by
  obtain ⟨⟨payload, hcreate⟩, hallowed, hmanaged, hm⟩ := of_createHandler hok
  obtain ⟨row, hrow⟩ := row_of_mutationResponse hm
  obtain ⟨m', hm'⟩ := exists_mutationResponse hrow
  have hcreate' : createRecord w rt db c req'.data req'.files = .ok (db', id, payload) := by
    rw [h.data, h.files]
    exact hcreate
  refine ⟨m', createHandler_eq_ok hcreate' ?_ ?_ hm'⟩
  · rw [h.auth, createAllowed_same h.context hc.create]
    exact hallowed
  · rw [h.auth, h.data, createManaged_same h.context hc]
    exact hmanaged

theorem updateHandler_transfer (hc : Plain c) (h : SameWrite c w .update route route' req req')
    (hok : updateHandler w rt pg db c id route req opts = .ok (db', m)) :
    ∃ m', updateHandler w rt pg db c id route' req' opts = .ok (db', m') := by
  obtain ⟨hupdate, hallowed, hmanaged, hm⟩ := of_updateHandler hok
  obtain ⟨row, hrow⟩ := row_of_mutationResponse hm
  obtain ⟨m', hm'⟩ := exists_mutationResponse hrow
  refine ⟨m', updateHandler_eq_ok ?_ ?_ ?_ hm'⟩
  · rw [h.data, h.files]
    exact hupdate
  · rw [h.auth, updateAllowed_same h.context hc.update]
    exact hallowed
  · rw [h.auth, h.data, updateManaged_same h.context hc]
    exact hmanaged

/-! ## The work of one request -/

/-- What goes through on either side goes through on the other, to the same end. -/
theorem same_of_transfer {k k' : Work}
    (h : ∀ d, k.result = .ok d → k'.result = .ok d ∧ k.written = k'.written)
    (h' : ∀ d, k'.result = .ok d → ∃ d', k.result = .ok d') : k.Same k' := by
  cases hk : k.result with
  | ok d => exact Or.inl ⟨d, hk, h d hk⟩
  | error e =>
    cases hk' : k'.result with
    | error e' => exact Or.inr ⟨e, e', hk, hk'⟩
    | ok d' =>
      obtain ⟨d, hd⟩ := h' d' hk'
      rw [hk] at hd
      cases hd

theorem createWork_same (hc : Plain c) (h : SameWrite c w .create route route' req req') :
    (createWork S w db c route req opts).Same (createWork S w db c route' req' opts) := by
  refine same_of_transfer ?_ ?_
  · intro d hd
    obtain ⟨⟨db', id, m⟩, hok, rfl⟩ := Failing.map_eq_ok.1 hd
    obtain ⟨m', hok'⟩ := createHandler_transfer hc h hok
    refine ⟨Failing.map_eq_ok.2 ⟨(db', id, m'), hok', rfl⟩, ?_⟩
    show (if _ then _ else _) = if _ then _ else _
    rw [h.auth, h.data, h.files]
  · intro d hd
    obtain ⟨⟨db', id, m⟩, hok, rfl⟩ := Failing.map_eq_ok.1 hd
    obtain ⟨m', hok'⟩ := createHandler_transfer hc h.symm hok
    exact ⟨_, Failing.map_eq_ok.2 ⟨(db', id, m'), hok', rfl⟩⟩

theorem updateChecks_of_updateHandler
    (h : updateHandler w S.rt S.pg db c id route req opts = .ok (db', m)) :
    updateChecks S w db c id route req = .ok () := by
  obtain ⟨-, hallowed, hmanaged, -⟩ := of_updateHandler h
  unfold updateChecks
  dsimp only
  rw [hallowed, Failing.ok_bind, hmanaged]

theorem updateWork_same (hc : Plain c) (h : SameWrite c w .update route route' req req') :
    (updateWork S w db c id route req opts).Same (updateWork S w db c id route' req' opts) := by
  refine same_of_transfer ?_ ?_
  · intro d hd
    obtain ⟨⟨db', m⟩, hok, rfl⟩ := Failing.map_eq_ok.1 hd
    obtain ⟨m', hok'⟩ := updateHandler_transfer hc h hok
    refine ⟨Failing.map_eq_ok.2 ⟨(db', m'), hok', ?_⟩, ?_⟩
    · rw [h.data, h.files]
    · unfold updateWork
      dsimp only
      rw [updateChecks_of_updateHandler hok, updateChecks_of_updateHandler hok', h.data, h.files]
  · intro d hd
    obtain ⟨⟨db', m⟩, hok, rfl⟩ := Failing.map_eq_ok.1 hd
    obtain ⟨m', hok'⟩ := updateHandler_transfer hc h.symm hok
    exact ⟨_, Failing.map_eq_ok.2 ⟨(db', m'), hok', rfl⟩⟩

theorem deleteWork_same (hc : Plain c) {collections : List Collection}
    (h : SameWrite c w .update route route' req req') :
    (deleteWork S w collections db c id route req).Same
      (deleteWork S w collections db c id route' req') := by
  have hhandler : deleteHandler S w collections db c id route' req' =
      deleteHandler S w collections db c id route req := by
    unfold deleteHandler
    dsimp only
    rw [h.auth, updateAllowed_same h.context hc.delete]
  unfold deleteWork
  rw [hhandler]
  cases hd : deleteHandler S w collections db c id route req with
  | ok r => exact Or.inl ⟨_, rfl, rfl, rfl⟩
  | error e => exact Or.inr ⟨e, e, rfl, rfl⟩

end

/-! ## One request of the list -/

section

variable {S : Server} {collections : List Collection} {outer headers headers' : Dict Text Text}
  {auth : Option TokenPayload} {db : Db} {c : Collection} {t : Target} {body : Row} {x : Item}

/-- A creation without a body that comes with uploads. -/
def UploadsAlone (S : Server) (x : Item) : Prop :=
  ∃ item t, x.request = .obj item ∧ parseBatchTarget S item = some t ∧
    (t.action = .create ∨ t.action = .upsert) ∧ bodyOf t.action item = .ok [] ∧ x.files ≠ []

theorem foldl_del_nil (ks : List Text) : ks.foldl Dict.del ([] : Row) = [] := by
  induction ks with
  | nil => rfl
  | cons k ks ih => exact ih

theorem sameWrite_update (method : Text) : SameWrite c x.writer .update .single .batch
    (requestOf headers auth t x method body) (requestOf headers' auth t x method body) :=
  ⟨rfl, rfl, rfl, rfl⟩

theorem sameWrite_create (method : Text) (h : body = [] → x.files = []) :
    SameWrite c x.writer .create .single .batch (requestOf headers auth t x method body)
      (requestOf headers' auth t x method body) := by
  refine ⟨rfl, rfl, rfl, ?_⟩
  have hdata : ruleData x.writer c .create .single (requestOf headers auth t x method body) =
      ruleData x.writer c .create .batch (requestOf headers' auth t x method body) := by
    show (if body = [] then [] else createdPayload x.writer c x.files body) =
      createdPayload x.writer c x.files body
    split_ifs with hbody
    · rw [hbody, h hbody]
      exact (foldl_del_nil (takenKeys c)).symm
    · rfl
  unfold SameRequest ruleContext
  rw [hdata]
  rfl

/-- What a valid id is validated to. -/
theorem validateRecordId_eq_some {v : Value} {id : Text} (h : validateRecordId v = some id) :
    v = .text id := by
  unfold validateRecordId at h
  split at h
  · split_ifs at h
    rw [Option.some.inj h]
  · cases h

variable {w : Writer}

/-- An id that is not blank is validated. -/
theorem upsertId_eq (hnull : getKey body "id" ≠ .null) (hnil : getKey body "id" ≠ .text []) :
    upsertId w body = match w.recordId? (getKey body "id") with
      | some id => .ok (some id)
      | none => .error ⟨400, "Failed to create or update record.", [("id", .invalidRecordId)]⟩ := by
  unfold upsertId
  split
  · rename_i hv
    exact absurd hv hnull
  · rename_i hv
    exact absurd hv hnil
  · rfl

theorem createdId_eq (hnull : getKey body "id" ≠ .null) (hnil : getKey body "id" ≠ .text []) :
    createdId w body = match w.recordId? (getKey body "id") with
      | some id => .ok id
      | none => .error (.validation [("id", .invalidRecordId)]) := by
  unfold createdId
  split
  · rename_i hv
    exact absurd hv hnull
  · rename_i hv
    exact absurd hv hnil
  · rfl

/-- The ways an upsert can go. -/
theorem upsertId_cases (hids : w.recordId? = validateRecordId) (body : Row) :
    (upsertId w body = .ok none ∧ (getKey body "id" = .null ∨ getKey body "id" = .text [])) ∨
      (∃ id, upsertId w body = .ok (some id) ∧ body.get? "id" = some (.text id) ∧ id ≠ []) ∨
      ∃ e e', upsertId w body = .error e ∧ createdId w body = .error e' ∧
        ∀ id, getKey body "id" = .text id → w.recordId? (.text id) = none := by
  by_cases hnull : getKey body "id" = .null
  · refine Or.inl ⟨?_, Or.inl hnull⟩
    unfold upsertId
    rw [hnull]
  by_cases hnil : getKey body "id" = .text []
  · refine Or.inl ⟨?_, Or.inr hnil⟩
    unfold upsertId
    rw [hnil]
  refine Or.inr ?_
  rw [upsertId_eq hnull hnil, createdId_eq hnull hnil]
  cases hid : w.recordId? (getKey body "id") with
  | none => exact Or.inr ⟨_, _, rfl, rfl, fun id htext => htext ▸ hid⟩
  | some id =>
    have htext : getKey body "id" = .text id := validateRecordId_eq_some (hids ▸ hid)
    refine Or.inl ⟨id, rfl, ?_, fun hne => hnil (hne ▸ htext)⟩
    unfold getKey at htext
    cases hget : body.get? "id" with
    | none =>
      rw [hget] at htext
      cases htext
    | some v =>
      rw [hget] at htext
      exact congrArg some htext

theorem createWork_of_invalid {route : Route} {req : RecordRequest} {opts : Options}
    {e : WriteError} (h : createdId w req.data = .error e) :
    ∃ e, (createWork S w db c route req opts).result = .error e := by
  cases hr : (createWork S w db c route req opts).result with
  | error e => exact ⟨e, rfl⟩
  | ok d =>
    obtain ⟨⟨db', id, m⟩, hok, -⟩ := Failing.map_eq_ok.1 hr
    obtain ⟨⟨payload, hcreate⟩, -⟩ := of_createHandler hok
    obtain ⟨d, hid, -⟩ := of_createRecord hcreate
    rw [h] at hid
    cases hid

theorem updateWork_of_invalid {id : Text} {route : Route} {req : RecordRequest} {opts : Options}
    (h : w.recordId? (.text id) = none) :
    ∃ e, (updateWork S w db c id route req opts).result = .error e := by
  cases hr : (updateWork S w db c id route req opts).result with
  | error e => exact ⟨e, rfl⟩
  | ok d =>
    obtain ⟨⟨db', m⟩, hok, -⟩ := Failing.map_eq_ok.1 hr
    obtain ⟨hupdate, -⟩ := of_updateHandler hok
    unfold updateRecord at hupdate
    rw [h, Option.isNone_none, if_pos rfl] at hupdate
    cases hupdate

theorem applyBatch_same (hc : Plain c) (hids : x.writer.recordId? = validateRecordId)
    (hbody : (t.action = .create ∨ t.action = .upsert) → body = [] → x.files = []) :
    (applySingle S collections headers auth db c t body x).Same
      (applyBatch S collections headers' auth db c t body x) := by
  unfold applySingle applyBatch
  cases hact : t.action with
  | create => exact createWork_same hc (sameWrite_create _ (hbody (Or.inl hact)))
  | update id => exact updateWork_same hc (sameWrite_update _)
  | delete id => exact deleteWork_same hc ⟨rfl, rfl, rfl, rfl⟩
  | upsert =>
    dsimp only
    have hpost : (createWork S x.writer db c .single (requestOf headers auth t x "POST" body)
        (optionsOf t.query)).Same (createWork S x.writer db c .batch
          (requestOf headers' auth t x "POST" body) (optionsOf t.query)) :=
      createWork_same hc (sameWrite_create _ (hbody (Or.inr hact)))
    obtain ⟨hid, hkey⟩ | ⟨id, hid, hkey, hne⟩ | ⟨e, e', hid, hcreated, hkey⟩ :=
      upsertId_cases hids body
    · rw [hid]
      rcases hkey with hkey | hkey
      · rw [hkey]
        exact hpost
      · rw [hkey]
        exact hpost
    · have htext : getKey body "id" = .text id := by unfold getKey; rw [hkey]; rfl
      rw [hid, htext]
      dsimp only
      rw [Dict.set_get? hkey]
      split_ifs with hrow hrow' hrow'
      · exact updateWork_same hc (sameWrite_update _)
      · exact absurd hrow.2 hrow'
      · exact absurd ⟨hne, hrow'⟩ hrow
      · exact hpost
    · rw [hid]
      refine Or.inr ?_
      have hfails : ∃ e, (createWork S x.writer db c .single (requestOf headers auth t x "POST" body)
        (optionsOf t.query)).result = .error e := createWork_of_invalid hcreated
      split
      · rename_i id htext
        split_ifs
        · have hfails : ∃ e, (updateWork S x.writer db c id .single
              (requestOf headers auth t x "PATCH" body) (optionsOf t.query)).result = .error e :=
            updateWork_of_invalid (hkey id htext)
          obtain ⟨e, he⟩ := hfails
          exact ⟨e, _, he, rfl⟩
        · obtain ⟨e, he⟩ := hfails
          exact ⟨e, _, he, rfl⟩
      · obtain ⟨e, he⟩ := hfails
        exact ⟨e, _, he, rfl⟩

theorem executeBatchRequest_same (hrules : ∀ c ∈ db.collections, Plain c)
    (hids : x.writer.recordId? = validateRecordId) (hbody : ¬UploadsAlone S x) :
    (sendRequest S outer headers auth db x).Same
      (executeBatchRequest S db.collections outer auth db x) := by
  unfold sendRequest executeBatchRequest
  have hrefuse : ∀ e, (refuse e).Same (refuse e) := fun e => Or.inr ⟨e, e, rfl, rfl⟩
  cases hreq : x.request with
  | obj item =>
    dsimp only
    cases ht : parseBatchTarget S item with
    | none => exact hrefuse _
    | some t =>
      cases batchHeaders S.rt outer (getKey item "headers") with
      | none => exact hrefuse _
      | some merged =>
        dsimp only
        cases hc : db.resolveCollection t.collection with
        | none => exact hrefuse _
        | some c =>
          dsimp only
          cases hb : bodyOf t.action item with
          | error e => exact hrefuse e
          | ok body =>
            refine applyBatch_same (hrules c (List.mem_of_find?_eq_some hc)) hids ?_
            rintro haction rfl
            by_contra hfiles
            exact hbody ⟨item, t, hreq, ht, haction, hb, hfiles⟩
  | _ => exact hrefuse _

end

/-! ## What no request changes, and what it writes -/

section

variable {S : Server} {collections : List Collection} {outer headers : Dict Text Text}
  {auth : Option TokenPayload} {db db' : Db} {c : Collection} {x : Item} {id : Text}

theorem collections_deleteRecord {K : Storage.Codec} {rt : Runtime} : ∀ {depth : ℕ} {db db' : Db}
    {c : Collection} {id : Text} {removed : List Location},
    deleteRecord K rt collections depth db c id = .ok (some (db', removed)) →
      db'.collections = db.collections
  | 0, _, _, _, _, _, h => by cases h
  | depth + 1, db, db', c, id, removed, h => by
    unfold deleteRecord at h
    split_ifs at h
    split at h
    · cases h
    · obtain ⟨⟨db₁, removed₁⟩, hcascade, h⟩ := Failing.bind_eq_ok.1 h
      obtain ⟨rfl, -⟩ := Prod.mk.inj (Option.some.inj (Except.ok.inj h))
      show db₁.collections = db.collections
      refine Failing.foldlM_invariant (P := fun s : Db × List Location => s.1.collections = db.collections)
        ?_ rfl hcascade
      intro e _ s s' hs hstep
      refine Failing.foldlM_invariant (P := fun s : Db × List Location => s.1.collections = db.collections)
        ?_ hs hstep
      intro related _ s s' hs hstep
      obtain ⟨r, hr, hstep⟩ := Failing.bind_eq_ok.1 hstep
      cases r with
      | none =>
        obtain rfl := Except.ok.inj hstep
        exact hs
      | some r =>
        obtain ⟨db₂, removed₂⟩ := r
        obtain rfl := Except.ok.inj hstep
        exact (collections_deleteRecord hr).trans hs

variable {w : Writer} {route : Route} {req : RecordRequest} {opts : Options} {d : Done}
  {file : Location × List UInt8}

theorem collections_createWork (h : (createWork S w db c route req opts).result = .ok d) :
    d.db.collections = db.collections := by
  obtain ⟨⟨db', id, m⟩, hok, rfl⟩ := Failing.map_eq_ok.1 h
  obtain ⟨⟨payload, hcreate⟩, -⟩ := of_createHandler hok
  obtain ⟨draft, -, -, -, -, rfl⟩ := of_createRecord hcreate
  rfl

theorem collections_updateWork (h : (updateWork S w db c id route req opts).result = .ok d) :
    d.db.collections = db.collections := by
  obtain ⟨⟨db', m⟩, hok, rfl⟩ := Failing.map_eq_ok.1 h
  obtain ⟨row, draft, -, -, -, ⟨-, rfl⟩ | ⟨-, rfl⟩⟩ := of_updateRecord (of_updateHandler hok).1
  · rfl
  · rfl

theorem collections_deleteWork (h : (deleteWork S w collections db c id route req).result = .ok d) :
    d.db.collections = db.collections := by
  obtain ⟨⟨db', removed⟩, hok, rfl⟩ := Failing.map_eq_ok.1 h
  obtain ⟨⟨⟩, -, hok⟩ := Failing.bind_eq_ok.1 hok
  obtain ⟨r, hr, hok⟩ := Failing.bind_eq_ok.1 hok
  cases r with
  | none => cases hok
  | some r =>
    obtain rfl := Except.ok.inj hok
    exact collections_deleteRecord (Failing.mapError_eq_ok.1 hr)

/-- A request leaves the collections as they are. -/
theorem collections_sendRequest (h : (sendRequest S outer headers auth db x).result = .ok d) :
    d.db.collections = db.collections := by
  unfold sendRequest at h
  split at h
  · split at h
    · split at h
      · cases h
      · split at h
        · cases h
        · unfold applySingle at h
          dsimp only at h
          split at h
          · exact collections_createWork h
          · exact collections_updateWork h
          · exact collections_deleteWork h
          · split at h
            · split_ifs at h
              · exact collections_updateWork h
              · exact collections_createWork h
            · exact collections_createWork h
    · cases h
  · cases h

/-- The file has a name its writer has made up for an upload. -/
def Saved (w : Writer) (file : Location × List UInt8) : Prop :=
  ∃ field uploads, file.1.filename ∈ w.saveFiles field uploads

theorem mem_savedFiles {files : Dict Text (List Upload)} (h : file ∈ savedFiles w c id files) :
    Saved w file := by
  obtain ⟨e, -, h⟩ := List.mem_flatMap.1 h
  split at h
  · cases h
  · split_ifs at h
    · rw [← List.map_uncurry_zip_eq_zipWith] at h
      obtain ⟨⟨name, u⟩, hmem, rfl⟩ := List.mem_map.1 h
      exact ⟨e.1, e.2, (List.of_mem_zip hmem).1⟩
    · cases h

theorem mem_createWork (h : file ∈ (createWork S w db c route req opts).written) : Saved w file := by
  unfold createWork at h
  dsimp only at h
  split_ifs at h
  · cases h
  · unfold createWrites at h
    split at h
    · cases h
    · split at h
      · cases h
      · exact mem_savedFiles h

theorem mem_updateWork (h : file ∈ (updateWork S w db c id route req opts).written) :
    Saved w file := by
  unfold updateWork at h
  dsimp only at h
  split at h
  · cases h
  · unfold updateWrites at h
    split at h
    · cases h
    · split at h
      · cases h
      · split at h
        · cases h
        · exact mem_savedFiles h

/-- A request of a batch writes files under new names only. -/
theorem mem_executeBatchRequest
    (h : file ∈ (executeBatchRequest S collections outer auth db x).written) :
    Saved x.writer file := by
  unfold executeBatchRequest at h
  split at h
  · split at h
    · split at h
      · cases h
      · split at h
        · cases h
        · unfold applyBatch at h
          dsimp only at h
          split at h
          · exact mem_createWork h
          · exact mem_updateWork h
          · cases h
          · split at h
            · cases h
            · exact mem_createWork h
            · split_ifs at h
              · exact mem_updateWork h
              · exact mem_createWork h
    · cases h
  · cases h

end

/-! ## The list -/

section

variable {S : Server} {outer headers : Dict Text Text} {auth : Option TokenPayload} {W W' : World}
  {items : List Item} {P : Progress} {collections : List Collection}
  {files : Store Location (List UInt8)}

/-- The item takes no part in what a batch does differently. -/
structure Ordinary (S : Server) (x : Item) : Prop where
  ids : x.writer.recordId? = validateRecordId
  body : ¬UploadsAlone S x

/-- A batch that has come as far as the requests sent one after another. -/
structure InStep (files : Store Location (List UInt8)) (P : Progress) (W : World) : Prop where
  db : P.db = W.db
  files : Tracks files P.effects W.files

/-- One more request. -/
theorem InStep.step {d : Done} {k : Work} (h : InStep files P W) (hd : k.result = .ok d) :
    InStep files ⟨d.db, P.statuses ++ [d.status], P.effects.append ⟨k.written, d.removed⟩⟩
      (runTransaction S W k).2 := by
  unfold runTransaction
  rw [hd]
  exact ⟨rfl, h.files.commit⟩

/-- The batch goes on as the requests sent one after another do. -/
theorem runBatch_of_sendEach (hrules : ∀ c ∈ W.db.collections, Plain c)
    (hitems : ∀ x ∈ items, Ordinary S x) (h : InStep files P W) :
    (∀ statuses W', sendEach S outer headers (fun _ => .ok auth) W items = .ok (statuses, W') →
      ∃ P', runBatch S W.db.collections outer auth P items = .ok P' ∧
        P'.statuses = P.statuses ++ statuses ∧ InStep files P' W') ∧
    ∀ e, sendEach S outer headers (fun _ => .ok auth) W items = .error e →
      ∃ f, runBatch S W.db.collections outer auth P items = .error f := by
  induction items generalizing P W with
  | nil =>
    refine ⟨?_, nofun⟩
    rintro statuses W' ⟨⟩
    exact ⟨P, rfl, (List.append_nil _).symm, h⟩
  | cons x xs ih =>
    obtain ⟨hx, hxs⟩ := List.forall_mem_cons.1 hitems
    obtain ⟨db, statuses₀, effects⟩ := P
    obtain rfl : db = W.db := h.db
    have hsame : (sendRequest S outer headers auth W.db x).Same
        (executeBatchRequest S W.db.collections outer auth W.db x) :=
      executeBatchRequest_same hrules hx.ids hx.body
    unfold sendEach runBatch
    dsimp only
    rcases hsame with ⟨d, hsent, hbatch, hwritten⟩ | ⟨e, e', hsent, hbatch⟩
    · -- It goes through, and the rest of the list runs on from there.
      have hnext := h.step (S := S) hsent
      have hrun : runTransaction S W (sendRequest S outer headers auth W.db x) =
          (.ok d.status, (runTransaction S W (sendRequest S outer headers auth W.db x)).2) := by
        unfold runTransaction
        rw [hsent]
      rw [hrun, hbatch, ← hwritten]
      dsimp only
      generalize (runTransaction S W (sendRequest S outer headers auth W.db x)).2 = W₁ at hnext ⊢
      have hcollections : W₁.db.collections = W.db.collections := by
        rw [← hnext.db]
        exact collections_sendRequest hsent
      obtain ⟨hok, herror⟩ := ih (hcollections ▸ hrules) hxs hnext
      rw [hcollections] at hok herror
      constructor
      · intro statuses W' hsend
        obtain ⟨⟨statuses₁, W₂⟩, hrest, heq⟩ := Failing.map_eq_ok.1 hsend
        obtain ⟨rfl, rfl⟩ := Prod.mk.inj heq
        obtain ⟨P', hP', hstatuses, hend⟩ := hok statuses₁ W₂ hrest
        exact ⟨P', hP', by rw [hstatuses, List.append_assoc]; rfl, hend⟩
      · intro e hsend
        cases hrest : sendEach S outer headers (fun _ => .ok auth) W₁ xs with
        | error e' => exact herror e' hrest
        | ok r =>
          rw [hrest] at hsend
          cases hsend
    · -- It fails, and so does the batch.
      have hrun : runTransaction S W (sendRequest S outer headers auth W.db x) =
          (.error e, (runTransaction S W (sendRequest S outer headers auth W.db x)).2) := by
        unfold runTransaction
        rw [hsent]
      rw [hrun, hbatch]
      exact ⟨nofun, fun _ _ => ⟨_, rfl⟩⟩

/-- What a failed batch has written are files under new names. -/
theorem mem_written {f : Failure} {Q : Location × List UInt8 → Prop}
    (hP : ∀ file ∈ P.effects.written, Q file)
    (hitems : ∀ x ∈ items, ∀ file, Saved x.writer file → Q file)
    (h : runBatch S collections outer auth P items = .error f) : ∀ file ∈ f.written, Q file := by
  induction items generalizing P with
  | nil => cases h
  | cons x xs ih =>
    obtain ⟨hx, hxs⟩ := List.forall_mem_cons.1 hitems
    have hboth : ∀ file ∈ P.effects.written ++
        (executeBatchRequest S collections outer auth P.db x).written, Q file := by
      intro file hfile
      rcases List.mem_append.1 hfile with hfile | hfile
      · exact hP file hfile
      · exact hx file (mem_executeBatchRequest hfile)
    unfold runBatch at h
    dsimp only at h
    split at h
    · cases h
      exact hboth
    · exact ih hboth hxs h

/-- What one transaction for the whole list keeps of the files, beside one for each request : every
file the rows refer to, and no other that is not kept anyway. -/
structure Keeps (refers : Location → Bool) (each one : Store Location (List UInt8)) : Prop where
  referred : ∀ l b, refers l = true → each l = some b → one l = some b
  other : ∀ l b, refers l = false → one l = some b → each l = some b

/-- The names under which the writers save uploads are not in use. -/
def Fresh (W : World) (items : List Item) : Prop :=
  ∀ x ∈ items, ∀ file, Saved x.writer file → W.files file.1 = none

theorem apiBatchRecords_of_sendEach {token : Db → Except ErrorResponse (Option TokenPayload)}
    (hauth : token W.db = .ok auth) (hrules : ∀ c ∈ W.db.collections, Plain c)
    (hitems : ∀ x ∈ items, Ordinary S x) (hfresh : Fresh W items) :
    (∀ statuses W', sendEach S outer headers (fun _ => .ok auth) W items = .ok (statuses, W') →
      ∃ W'', apiBatchRecords S outer token W items = (.ok statuses, W'') ∧ W''.db = W'.db ∧
        Keeps (references S.codec S.rt W'.db) W'.files W''.files) ∧
    ∀ e, sendEach S outer headers (fun _ => .ok auth) W items = .error e →
      ∃ e', apiBatchRecords S outer token W items = (.error e', W) := by
  have hstart : InStep W.files { db := W.db } W := ⟨rfl, Tracks.refl W.files⟩
  obtain ⟨hok, herror⟩ :=
    @runBatch_of_sendEach S outer headers auth W items _ W.files hrules hitems hstart
  unfold apiBatchRecords
  rw [hauth]
  dsimp only
  constructor
  · intro statuses W' hsend
    obtain ⟨P', hP', hstatuses, hend⟩ := hok statuses W' hsend
    refine ⟨settled S P'.db W.files P'.effects, ?_, hend.db, ?_⟩
    · rw [hP']
      dsimp only
      rw [hstatuses]
      rfl
    · rw [hend.db]
      exact ⟨fun l b hl hb => hend.files.kept_of_refers hl hb,
        fun l b hl hb => hend.files.kept_of_not_refers hl hb⟩
  · intro e hsend
    obtain ⟨f, hf⟩ := herror e hsend
    refine ⟨(f.index, f.response), ?_⟩
    have hwritten : ∀ file ∈ f.written, W.files file.1 = none :=
      mem_written (fun _ hfile => absurd hfile List.not_mem_nil) hfresh hf
    rw [hf]
    dsimp only
    rw [rollback_eq hwritten]

/-- Every upload that is for a request stands under a plain field name. -/
def PlainKeys (form : Dict Text (List Upload)) : Prop :=
  ∀ e ∈ form, ∀ i field, fileKey? e.1 = some (i, field) → isWord field = true

theorem batchFileKey?_of_plain {key : Text}
    (h : ∀ i field, fileKey? key = some (i, field) → isWord field = true) :
    batchFileKey? key = fileKey? key := by
  unfold batchFileKey?
  cases hkey : fileKey? key with
  | none => rfl
  | some e =>
    obtain ⟨i, field⟩ := e
    have hword := h i field hkey
    have hlast : field.getLast? ≠ some '\n' := by
      intro hlast
      have hall := (Bool.and_eq_true_iff.1 hword).2
      exact absurd (List.all_eq_true.1 hall _ (List.mem_of_getLast? hlast)) (by decide)
    rw [Option.bind_some]
    dsimp only
    rw [if_neg hlast, if_pos hword]

theorem itemsOf_plain {form : Dict Text (List Upload)} (h : PlainKeys form)
    (requests : List (Writer × Value)) :
    itemsOf batchFileKey? form requests = itemsOf fileKey? form requests := by
  have hfiles : ∀ i, filesOf batchFileKey? form i = filesOf fileKey? form i := by
    intro i
    unfold filesOf
    refine List.foldl_ext _ _ _ fun d e he => ?_
    rw [batchFileKey?_of_plain (h e he)]
  unfold itemsOf
  simp only [hfiles]

end

/-- The batch does what its requests do when they are sent one after another : if each of them goes
through, it answers with the same statuses and leads to the same rows and files, and otherwise it
fails and changes nothing. -/
structure EqualsItsRequests (S : Server) (outer headers : Dict Text Text)
    (token : Db → Except ErrorResponse (Option TokenPayload)) (W : World)
    (form : Dict Text (List Upload)) (requests : List (Writer × Value)) : Prop where
  succeeds : ∀ statuses W', sendEach S outer headers token W (itemsOf fileKey? form requests) =
    .ok (statuses, W') →
      apiBatchRecords S outer token W (itemsOf batchFileKey? form requests) = (.ok statuses, W')
  fails : ∀ e, sendEach S outer headers token W (itemsOf fileKey? form requests) = .error e →
    ∃ e', apiBatchRecords S outer token W (itemsOf batchFileKey? form requests) = (.error e', W)

/-- The batch does what its requests do when they are sent one after another for the identity its
token has at the start, up to the files a request gives up : of those the batch keeps what the
final rows refer to, and nothing else that the requests do not keep. -/
theorem batch_equals_requests (S : Server) (outer headers : Dict Text Text)
    (token : Db → Except ErrorResponse (Option TokenPayload)) (auth : Option TokenPayload) (W : World)
    (form : Dict Text (List Upload)) (requests : List (Writer × Value)) (hauth : token W.db = .ok auth)
    (hrules : ∀ c ∈ W.db.collections, Plain c) (hkeys : PlainKeys form)
    (hitems : ∀ x ∈ itemsOf fileKey? form requests, Ordinary S x)
    (hfresh : Fresh W (itemsOf fileKey? form requests)) :
    (∀ statuses W', sendEach S outer headers (fun _ => .ok auth) W (itemsOf fileKey? form requests) =
        .ok (statuses, W') →
      ∃ W'', apiBatchRecords S outer token W (itemsOf batchFileKey? form requests) =
          (.ok statuses, W'') ∧ W''.db = W'.db ∧
        Keeps (references S.codec S.rt W'.db) W'.files W''.files) ∧
    ∀ e, sendEach S outer headers (fun _ => .ok auth) W (itemsOf fileKey? form requests) = .error e →
      ∃ e', apiBatchRecords S outer token W (itemsOf batchFileKey? form requests) = (.error e', W) := by
  rw [itemsOf_plain hkeys]
  exact apiBatchRecords_of_sendEach hauth hrules hitems hfresh

/-- A server of the simple conversions. -/
def simpleServer : Server where
  codec :=
    { unquote := fun s => s
      netlocOk := fun _ => true
      upper := fun s => s.map Char.toUpper
      loadsList := fun _ => none }
  rt := .simple
  pg := .scalars
  depth := 10

/-- A writer that validates ids as the source does, and saves uploads under names of its own. -/
def writer : Writer :=
  { Writer.simple with
    recordId? := validateRecordId
    saveFiles := fun _ uploads => uploads.map fun u => u.filename ++ "_0".toList }

/-- A request of a batch. -/
def request (method url : Text) (body : Row) : Writer × Value :=
  (writer, .obj [("method", .text method), ("url", .text url), ("body", .obj body)])

/-- A collection with files that anybody may change. -/
def folders : Collection where
  id := "folders"
  name := "folders"
  schema := [{ name := "docs", type := .file, options := { maxSelect := some 5 } }]
  updateRule := some []

/-- One folder with one file. -/
def oneFolder : World where
  db := ⟨[folders], [("folders", ⟨["id", "docs"],
    [[("id", .text "f1"), ("docs", .list [.text "a.txt"])]]⟩)]⟩
  files l := if l = ⟨"folders", "f1", "a.txt"⟩ then some [] else none

def upload : Upload := ⟨"b.txt", [98]⟩

/-- An upload that replaces the files of a folder. -/
def replaceUpload : Dict Text (List Upload) := [("requests.0.docs", [upload])]

/-- An upload that is added to the files of a folder. -/
def appendUpload : Dict Text (List Upload) := [("requests.0.docs+", [upload])]

def patchFolder : List (Writer × Value) := [request "PATCH" "/api/collections/folders/records/f1" []]

/-- A batch that replaces the files of the folder. -/
theorem replacing_batch_equals : PlainKeys replaceUpload ∧
    ∃ W', apiBatchRecords simpleServer [] (fun _ => .ok none) oneFolder
      (itemsOf batchFileKey? replaceUpload patchFolder) = (.ok [200], W') := by
  have hkeys : PlainKeys replaceUpload := by
    intro e he i field hkey
    obtain rfl := List.mem_singleton.1 he
    have hfield : fileKey? "requests.0.docs" = some (0, "docs".toList) := by decide +kernel
    rw [hfield] at hkey
    cases hkey
    decide
  have hrules : ∀ c ∈ oneFolder.db.collections, Plain c := by
    intro c hc
    obtain rfl := List.mem_singleton.1 hc
    refine ⟨nofun, ?_, nofun, nofun⟩
    rintro rule ⟨⟩ ⟨e, he, -⟩
    cases he
  have hitems : ∀ x ∈ itemsOf fileKey? replaceUpload patchFolder, Ordinary simpleServer x := by
    intro x hx
    obtain rfl := List.mem_singleton.1 hx
    refine ⟨rfl, ?_⟩
    rintro ⟨item, t, ⟨⟩, ht, haction, -⟩
    have htarget : (parseBatchTarget simpleServer [("method", .text "PATCH"),
        ("url", .text "/api/collections/folders/records/f1"), ("body", .obj [])]).map Target.action =
          some (.update "f1") := by decide +kernel
    rw [ht] at htarget
    rw [show t.action = .update "f1" from Option.some.inj htarget] at haction
    exact haction.elim nofun nofun
  have hfresh : Fresh oneFolder (itemsOf fileKey? replaceUpload patchFolder) := by
    intro x hx file hfile
    obtain rfl := List.mem_singleton.1 hx
    obtain ⟨field, uploads, hname⟩ := hfile
    obtain ⟨u, -, hname⟩ := List.mem_map.1 hname
    refine if_neg ?_
    intro hstored
    have hlast : file.1.filename.getLast? = some '0' := by
      rw [← hname, List.getLast?_append]
      rfl
    rw [hstored] at hlast
    cases hlast
  have hsent : ((sendEach simpleServer [] [] (fun _ => .ok none) oneFolder
      (itemsOf fileKey? replaceUpload patchFolder)).map Prod.fst) = .ok [200] := by decide +kernel
  obtain ⟨⟨statuses, W'⟩, hsend, rfl⟩ := Failing.map_eq_ok.1 hsent
  obtain ⟨W'', hbatch, -⟩ := (batch_equals_requests simpleServer [] [] (fun _ => .ok none) none oneFolder
    replaceUpload patchFolder rfl hrules hkeys hitems hfresh).1 [200] W' hsend
  exact ⟨hkeys, W'', hbatch⟩

/-- The batch and the requests come to different ends. -/
theorem not_equals {S : Server} {outer headers : Dict Text Text}
    {token : Db → Except ErrorResponse (Option TokenPayload)} {W : World}
    {form : Dict Text (List Upload)} {requests : List (Writer × Value)} {α : Type}
    (view : World → α) (statuses : List ℕ) (end' : α)
    (hbatch : (apiBatchRecords S outer token W (itemsOf batchFileKey? form requests)).1 = .ok statuses ∧
      view (apiBatchRecords S outer token W (itemsOf batchFileKey? form requests)).2 = end')
    (hsent : (sendEach S outer headers token W (itemsOf fileKey? form requests)).map
      (fun r => view r.2) ≠ .ok end') : ¬EqualsItsRequests S outer headers token W form requests := by
  intro h
  cases hs : sendEach S outer headers token W (itemsOf fileKey? form requests) with
  | ok r =>
    have heq := h.succeeds r.1 r.2 hs
    rw [heq] at hbatch
    rw [hs] at hsent
    exact hsent (congrArg Except.ok hbatch.2)
  | error e =>
    obtain ⟨e', heq⟩ := h.fails e hs
    rw [heq] at hbatch
    cases hbatch.1

/-- A collection of members who may change anything about themselves. -/
def members : Collection where
  id := "members"
  name := "members"
  type := .auth
  updateRule := some []

/-- One member. -/
def oneMember : World where
  db := ⟨[members], [("members", ⟨["id", "token_key"], [[("id", .text "u1"), ("token_key", .text "k")]]⟩)]⟩
  files _ := none

/-- The member's session. -/
def memberToken (db : Db) : Except ErrorResponse (Option TokenPayload) :=
  (Session.authenticate [] db
    { claims := [("id", .text "u1"), ("type", .text "authRecord"), ("collectionId", .text "members")]
      key := some "k".toList
      current := true }).mapError fun _ => serverError

/-- The member sets a password. -/
def setPassword (password : Text) : Writer × Value :=
  request "PATCH" "/api/collections/members/records/u1"
    [("password", .text password), ("passwordConfirm", .text password)]

/-- A file is taken out of the folder and put back by its name. -/
def restoreFile : List (Writer × Value) :=
  [request "PATCH" "/api/collections/folders/records/f1" [("docs", .list [])],
    request "PATCH" "/api/collections/folders/records/f1" [("docs", .list [.text "a.txt"])]]

/-- A session ends between two requests but not within a batch, a file given up in a batch is kept
if it is taken back, and an upload that is to be added is lost in a batch. -/
theorem batch_differs :
    ¬EqualsItsRequests simpleServer [] [] memberToken oneMember []
        [setPassword "password1", setPassword "password2"] ∧
      ¬EqualsItsRequests simpleServer [] [] (fun _ => .ok none) oneFolder [] restoreFile ∧
      ¬EqualsItsRequests simpleServer [] [] (fun _ => .ok none) oneFolder appendUpload patchFolder := by
  refine ⟨not_equals (fun W => (W.db.rows "members").length) [200, 200] 1 ?_ ?_,
    not_equals (fun W => W.files ⟨"folders", "f1", "a.txt"⟩) [200, 200] (some []) ?_ ?_,
    not_equals (fun W => (W.db.rows "folders").map fun r => r.get? "docs") [200]
      [some (.list [.text "a.txt"])] ?_ ?_⟩
  all_goals decide +kernel

end Batch

end PPBase
