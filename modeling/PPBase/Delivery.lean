import PPBase.Expand
import PPBase.Realtime

/-!
# What a subscriber is sent

A notification names a record. The record is read once, for nobody in particular, and sent
to every subscription the event is allowed for; a subscription with options has the same
record expanded and cut down to its `fields`. Only a record that could not be read at first
is read again for the subscriber. `projects_iff_emailSettled` : what is sent is a projection
of the subscriber's own response unless the record is of an auth collection, the subscriber
may not see its email and the options keep the field.
-/

namespace PPBase

namespace Realtime

/-- The payload of a notification. -/
structure Notification where
  collection : Text
  recordId : Text
  action : Action

/-- The context a record is built in for a subscriber. -/
def viewer (sub : Subscription) : Viewer := .request (some (authInfo sub.authPayload))

/-- A row and its response. -/
def responded (rt : Runtime) (c : Collection) (viewer : Viewer) (row : Row) : ExpandedRecord :=
  Expand.root c row
    (buildRecordResponse rt c (strippedRow c row) (hiddenFields c) (fieldsFilter? []) viewer)

/-- The record of an event of which only the id is known. -/
def idOnly (c : Collection) (id : Text) : ExpandedRecord :=
  Expand.root c [("id", .text id)] [("id", .text id)]

/-- `on_notification` : the record data of the event. A read that raises leaves the id. -/
def recordData (rt : Runtime) (db : Db) (failed : Bool) (c : Collection) (n : Notification) :
    Option ExpandedRecord :=
  if n.action = .delete then none
  else if failed then some (idOnly c n.recordId)
  else (db.rowById c.name n.recordId).map (responded rt c .anyone)

/-- A text of the options query. -/
def optionText (sub : Subscription) (key : Text) : Text :=
  match sub.optionsQuery.get? key with
  | some (.text s) => s
  | _ => []

/-- A key is kept by a `fields` parameter. -/
def keepsKey (fields : Option (List Text)) (k : Text) : Bool :=
  match fields with
  | none | some [] => true
  | some ff => ("*" : Text) ∈ ff || k ∈ ff

/-- `_apply_fields_filter` -/
def applyFieldsFilter (fields : Option (List Text)) (m : ExpandedRecord) : ExpandedRecord :=
  .mk m.coll m.row (Response.applyFields fields m.fields)
    (if keepsKey fields "expand" then m.expand else [])

/-- The subscription's options applied to a record. -/
def withOptions (rt : Runtime) (db : Db) (sub : Subscription) (m : ExpandedRecord) :
    ExpandedRecord :=
  let expand := Text.strip (optionText sub "expand")
  let m := if expand = [] then m else Expand.expandRecord rt db (viewer sub) expand m
  applyFieldsFilter (fieldsFilter? (optionText sub "fields")) m

/-- `_build_subscription_event_data` : the record of the event. -/
def buildSubscriptionEventData (rt : Runtime) (db : Db) (c : Collection) (recordId : Text)
    (base : Option ExpandedRecord) (sub : Subscription) : Option ExpandedRecord :=
  (base.or ((db.rowById c.name recordId).map (responded rt c (viewer sub)))).map
    (withOptions rt db sub)

/-- The topics of an event. -/
def topics (n : Notification) : List Text :=
  [n.collection ++ "/*".toList, n.collection ++ "/".toList ++ n.recordId]

/-- The subscription is sent the event. -/
def receives (rt : Runtime) (pg : Pg) (db : Db) (c : Collection) (n : Notification)
    (sub : Subscription) : Bool :=
  sub.baseTopic ∈ topics n && isSubscriptionAllowedForEvent rt pg db c sub n.recordId n.action

/-- `broadcast_record_change`, for one subscription. -/
def sent (rt : Runtime) (pg : Pg) (db : Db) (c : Collection) (n : Notification)
    (base : Option ExpandedRecord) (sub : Subscription) : Option ExpandedRecord :=
  if receives rt pg db c n sub then
    if n.action ≠ .delete ∧ sub.optionsQuery ≠ [] then
      buildSubscriptionEventData rt db c n.recordId base sub
    else some (base.getD (idOnly c n.recordId))
  else none

/-- `listen_for_db_events` and `broadcast_record_change` : what each subscription is sent.
The database may have changed between the notification and a subscription's turn. -/
def onNotification (rt : Runtime) (pg : Pg) (db : Db) (failed : Bool) (n : Notification)
    (subs : List (Subscription × Db)) : List (Subscription × ExpandedRecord) :=
  if n.collection = [] ∨ n.recordId = [] then []
  else
    match db.resolveCollection n.collection with
    | none => []
    | some c =>
      let base := recordData rt db failed c n
      subs.filterMap fun s => (sent rt pg s.2 c n base s.1).map fun m => (s.1, m)

end Realtime

namespace Response

/-- What a `fields` parameter leaves. -/
theorem get?_applyFields (fields : Option (List Text)) (d : Dict Text Value) (k : Text) :
    (applyFields fields d).get? k = if Realtime.keepsKey fields k then d.get? k else none := by
  rcases fields with _ | ff
  · rfl
  rcases ff with _ | ⟨f, ff⟩
  · rfl
  show Dict.get? (if ("*" : Text) ∈ f :: ff then d else d.filter fun e => e.1 ∈ f :: ff) k =
    if (("*" : Text) ∈ f :: ff || k ∈ f :: ff : Bool) then d.get? k else none
  by_cases hstar : ("*" : Text) ∈ f :: ff
  · rw [if_pos hstar, decide_eq_true hstar, Bool.true_or, if_pos rfl]
  · rw [if_neg hstar, decide_eq_false hstar, Bool.false_or]
    exact Dict.get?_filter (fun k => decide (k ∈ f :: ff)) d k

end Response

namespace Realtime

section

variable {rt : Runtime} {pg : Pg} {db : Db} {c : Collection} {n : Notification}
  {sub : Subscription}

/-- What `build_record_response` yields for the record in the subscriber's own context. -/
def ownResponse (rt : Runtime) (sub : Subscription) (m : ExpandedRecord) : Dict Text Value :=
  buildRecordResponse rt m.coll (strippedRow m.coll m.row) (hiddenFields m.coll) none (viewer sub)

/-- Every field sent stands in the subscriber's own response. -/
def Projects (rt : Runtime) (sub : Subscription) (m : ExpandedRecord) : Prop :=
  ∀ k v, m.fields.get? k = some v → (ownResponse rt sub m).get? k = some v

/-- The subscriber may see the email of the record as its collection shows it, or does not
ask for it. -/
def EmailSettled (rt : Runtime) (c : Collection) (row : Row) (sub : Subscription) : Prop :=
  SchemaShows c (hiddenFields c) "email" ∨
    Response.canViewAuthEmail rt c (strippedRow c row) (viewer sub) = true ∨
    keepsKey (fieldsFilter? (optionText sub "fields")) "email" = false

instance (row : Row) : Decidable (EmailSettled rt c row sub) :=
  inferInstanceAs (Decidable (_ ∨ _ ∨ _))

/-- The id alone is in every response. -/
theorem get?_id_ownResponse {id : Text} : (ownResponse rt sub (idOnly c id)).get? "id" =
    some (.text id) := by
  have hrow : (strippedRow c [("id", .text id)]).get? "id" = some (.text id) := by
    unfold strippedRow
    split_ifs <;> rfl
  exact get?_id_buildRecordResponse hrow _

/-- Expansion leaves the record as it is. -/
theorem expandRecord_eq (rt : Runtime) (db : Db) (viewer : Viewer) (expand : Text)
    (m : ExpandedRecord) :
    ∃ e, Expand.expandRecord rt db viewer expand m = .mk m.coll m.row m.fields e := by
  unfold Expand.expandRecord
  induction Expand.parseExpandString expand generalizing m with
  | nil =>
    obtain ⟨c, row, d, e⟩ := m
    exact ⟨e, rfl⟩
  | cons p ps ih =>
    obtain ⟨e, he⟩ := ih (Expand.expandPath rt db viewer p m)
    rw [List.foldl_cons, he, Expand.expandPath_coll, Expand.expandPath_row, Expand.expandPath_fields]
    exact ⟨e, rfl⟩

/-- `m` is `b` as far as the subscription keeps its fields. -/
def CutFrom (sub : Subscription) (b m : ExpandedRecord) : Prop :=
  m.coll = b.coll ∧ m.row = b.row ∧ ∀ k, m.fields.get? k =
    if keepsKey (fieldsFilter? (optionText sub "fields")) k then b.fields.get? k else none

theorem cutFrom_withOptions (b : ExpandedRecord) : CutFrom sub b (withOptions rt db sub b) := by
  unfold withOptions
  dsimp only
  split_ifs
  · exact ⟨rfl, rfl, Response.get?_applyFields _ _⟩
  · obtain ⟨e, he⟩ := expandRecord_eq rt db (viewer sub) (Text.strip (optionText sub "expand")) b
    rw [he]
    exact ⟨rfl, rfl, Response.get?_applyFields _ _⟩

/-- A subscription is sent the record that was read, as far as its options keep the fields. -/
theorem sent_some (hn : n.action ≠ .delete) (h : receives rt pg db c n sub = true)
    (b : ExpandedRecord) :
    ∃ m, sent rt pg db c n (some b) sub = some m ∧ CutFrom sub b m := by
  unfold sent
  rw [if_pos h]
  by_cases hopt : sub.optionsQuery = []
  · have hall : fieldsFilter? (optionText sub "fields") = none := by
      unfold optionText
      rw [hopt]
      rfl
    refine ⟨b, if_neg fun h => h.2 hopt, rfl, rfl, fun k => ?_⟩
    rw [hall]
    rfl
  · exact ⟨_, if_pos ⟨hn, hopt⟩, cutFrom_withOptions b⟩

/-- The record read for a notification, once some subscription cuts it down, is a projection
of the subscriber's own response unless it shows the email to somebody who may not see it. -/
theorem projects_iff_emailSettled {row : Row} {m : ExpandedRecord}
    (h : CutFrom sub (responded rt c .anyone row) m) :
    Projects rt sub m ↔ (c.type = .auth → EmailSettled rt c row sub) := by
  obtain ⟨rfl, rfl, hfields⟩ : m.coll = c ∧ m.row = row ∧ _ := h
  have hbase : ∀ k, (responded rt m.coll .anyone m.row).fields.get? k =
      (buildRecordResponse rt m.coll (strippedRow m.coll m.row) (hiddenFields m.coll) none
        .anyone).get? k := fun k => rfl
  constructor
  · intro h hauth
    by_contra hns
    simp only [EmailSettled, not_or, Bool.not_eq_true, Bool.not_eq_false] at hns
    obtain ⟨hschema, hview, hkeeps⟩ := hns
    have hsent : m.fields.get? "email" =
        some (((strippedRow m.coll m.row).get? "email").getD (.text [])) := by
      rw [hfields, if_pos hkeeps, hbase, get?_email_buildRecordResponse hauth, if_neg hschema]
      rfl
    have hown := h _ _ hsent
    rw [ownResponse, get?_email_buildRecordResponse hauth, if_neg hschema, hview,
      if_neg Bool.false_ne_true] at hown
    cases hown
  · intro h k v hk
    rw [hfields] at hk
    split_ifs at hk with hkeeps
    rw [hbase] at hk
    by_cases hauth : m.coll.type = .auth
    · by_cases hemail : k = "email"
      · subst hemail
        rw [get?_email_buildRecordResponse hauth] at hk
        rw [ownResponse, get?_email_buildRecordResponse hauth]
        rcases h hauth with hschema | hview | hnot
        · rw [if_pos hschema] at hk ⊢
          exact hk
        · rw [hview]
          exact hk
        · rw [hkeeps] at hnot
          cases hnot
      · rw [ownResponse, get?_buildRecordResponse_ne_email hemail _ .anyone]
        exact hk
    · rw [ownResponse, buildRecordResponse_of_not_auth hauth _ .anyone]
      exact hk

/-- What is cut down from a part of the own response is a part of it. -/
theorem projects_of_cutFrom {b m : ExpandedRecord} (hcut : CutFrom sub b m)
    (h : Projects rt sub b) : Projects rt sub m := by
  obtain ⟨hcoll, hrow, hfields⟩ := hcut
  intro k v hk
  rw [hfields] at hk
  split_ifs at hk
  have hown : ownResponse rt sub m = ownResponse rt sub b := by
    unfold ownResponse
    rw [hcoll, hrow]
  rw [hown]
  exact h k v hk

theorem projects_idOnly (id : Text) : Projects rt sub (idOnly c id) := by
  intro k v hk
  by_cases hid : k = "id"
  · subst hid
    rw [get?_id_ownResponse]
    exact hk
  · have hnone : (idOnly c id).fields.get? k = none := if_neg (Ne.symm hid)
    rw [hnone] at hk
    cases hk

/-- A record that was not read at the notification is read for the subscriber. -/
theorem projects_sent_none {m : ExpandedRecord} (h : sent rt pg db c n none sub = some m) :
    Projects rt sub m := by
  unfold sent at h
  split_ifs at h with _ hopt
  · unfold buildSubscriptionEventData at h
    rw [Option.none_or] at h
    obtain ⟨b, hb, rfl⟩ := Option.map_eq_some_iff.1 h
    obtain ⟨row, -, rfl⟩ := Option.map_eq_some_iff.1 hb
    have hown : Projects rt sub (responded rt c (viewer sub) row) := fun k v hk => hk
    exact projects_of_cutFrom (cutFrom_withOptions _) hown
  · obtain rfl := Option.some.inj h
    exact projects_idOnly _

/-- Every subscriber of every notification is sent a projection of what they may read on
their own exactly if, where the record of an auth collection was read, each subscriber the
event is allowed for may see its email or does not ask for it. -/
theorem onNotification_projects_iff (rt : Runtime) (pg : Pg) (db : Db) (failed : Bool)
    (n : Notification) (subs : List (Subscription × Db)) :
    (∀ x ∈ onNotification rt pg db failed n subs, Projects rt x.1 x.2) ↔
      (n.collection ≠ [] → n.recordId ≠ [] → n.action ≠ .delete → failed = false →
        ∀ c, db.resolveCollection n.collection = some c → c.type = .auth →
          ∀ row, db.rowById c.name n.recordId = some row →
            ∀ s ∈ subs, receives rt pg s.2 c n s.1 = true → EmailSettled rt c row s.1) := by
  unfold onNotification
  by_cases hempty : n.collection = [] ∨ n.recordId = []
  · rw [if_pos hempty]
    refine ⟨fun _ h₁ h₂ => absurd hempty (by tauto), fun _ x hx => absurd hx List.not_mem_nil⟩
  rw [if_neg hempty]
  cases hc : db.resolveCollection n.collection with
  | none => exact ⟨fun _ _ _ _ _ c h => (by cases h), fun _ x hx => absurd hx List.not_mem_nil⟩
  | some c =>
    dsimp only
    simp only [List.mem_filterMap, Option.map_eq_some_iff]
    constructor
    · rintro h - - hact rfl c' hc' hauth row hrow s hs hrec
      obtain rfl := Option.some.inj hc'
      have hbase : recordData rt db false c n = some (responded rt c .anyone row) := by
        unfold recordData
        rw [if_neg hact, if_neg Bool.false_ne_true, hrow]
        rfl
      obtain ⟨m, hm, hcut⟩ := sent_some hact hrec (responded rt c .anyone row)
      rw [← hbase] at hm
      exact (projects_iff_emailSettled hcut).1 (h (s.1, m) ⟨s, hs, m, hm, rfl⟩) hauth
    · rintro h x ⟨s, hs, m, hm, rfl⟩
      by_cases hrec : receives rt pg s.2 c n s.1 = true
      · cases hb : recordData rt db failed c n with
        | none =>
          rw [hb] at hm
          exact projects_sent_none hm
        | some b =>
          rw [hb] at hm
          unfold recordData at hb
          split_ifs at hb with hact hfail
          all_goals
            obtain ⟨m', hm', hcut⟩ := sent_some hact hrec b
            obtain rfl := Option.some.inj (hm.symm.trans hm')
          · obtain rfl := Option.some.inj hb
            exact projects_of_cutFrom hcut (projects_idOnly _)
          · obtain ⟨row, hrow, rfl⟩ := Option.map_eq_some_iff.1 hb
            rw [not_or] at hempty
            exact (projects_iff_emailSettled hcut).2 fun hauth =>
              h hempty.1 hempty.2 hact (Bool.not_eq_true _ ▸ hfail) c rfl hauth row hrow s hs hrec
      · unfold sent at hm
        rw [if_neg hrec] at hm
        cases hm

end

/-- Users anyone may view. -/
def openUsers : Collection where
  id := "users"
  name := "users"
  type := .auth
  listRule := some []
  viewRule := some []

/-- A user whose email is not public. -/
def hiddenEmailDb : Db where
  collections := [openUsers]
  tables := [("users", ⟨["id", "email", "email_visibility"],
    [[("id", .text "u1"), ("email", .text "a@b.c"), ("email_visibility", .bool false)]]⟩)]

/-- An anonymous subscriber of all users is sent the email. -/
theorem hidden_email_sent :
    ¬∀ x ∈ onNotification .simple .scalars hiddenEmailDb false ⟨"users", "u1", .update⟩
        [({ baseTopic := "users/*" }, hiddenEmailDb)], Projects .simple x.1 x.2 := by
  intro h
  have hsent : ∃ m, onNotification .simple .scalars hiddenEmailDb false ⟨"users", "u1", .update⟩
      [({ baseTopic := "users/*" }, hiddenEmailDb)] = [({ baseTopic := "users/*" }, m)] ∧
        m.fields.get? "email" = some (.text "a@b.c") ∧
        (ownResponse .simple { baseTopic := "users/*" } m).get? "email" = none :=
    ⟨_, rfl, by decide, by decide⟩
  obtain ⟨m, hm, hemail, hown⟩ := hsent
  have hp := h _ (hm ▸ List.mem_cons_self) _ _ hemail
  rw [hown] at hp
  cases hp

end Realtime

end PPBase
