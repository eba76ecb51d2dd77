import PPBase.RecordStore
import PPBase.Rules

/-!
# What a rule sees of the request body

A create rule is evaluated after `create_record` has worked on the payload the rule's context
shares, an update rule before `update_record` reads the modifier keys and uploads. So
`@request.body.f` looks up the key `f` in `ruleData`, and a request may carry a value for `f`
in other ways. `bodyTruthful_iff` : the macros tell the truth about a field exactly if the
request does not carry the field at all or the rule's context holds it under its own name.
-/

namespace PPBase

open RecordStore

/-- Whether a request stands on its own or in a batch. -/
inductive Route
  | single | batch
  deriving DecidableEq

inductive WriteKind
  | create | update
  deriving DecidableEq

/-- A create or update request. -/
structure RecordRequest where
  http : HttpRequest := {}
  auth : Option TokenPayload := none
  data : Row := []
  files : Dict Text (List Upload) := []

/-- The data of the context when the rule is evaluated. `data or {}` shares the payload of a
single creation unless it is empty. -/
def ruleData (w : Writer) (c : Collection) (kind : WriteKind) (route : Route)
    (req : RecordRequest) : Row :=
  match kind, route with
  | .update, _ => req.data
  | .create, .single => if req.data = [] then [] else createdPayload w c req.files req.data
  | .create, .batch => createdPayload w c req.files req.data

/-- The context the rule is evaluated in. -/
def ruleContext (w : Writer) (c : Collection) (kind : WriteKind) (route : Route)
    (req : RecordRequest) : RequestContext :=
  { prepareRequestContext req.http req.auth (ruleData w c kind route req) with
    context := if route = .batch then "batch" else "default" }

namespace BodyMacros

/-- `@request.body.f` without its `@`. -/
def bodyName (f : Text) : Text := MacroSource.body.key f

/-- Field names that a macro can spell. -/
def IsFieldName (f : Text) : Prop := f ≠ [] ∧ f.all Text.isIdentChar = true

instance (f : Text) : Decidable (IsFieldName f) := inferInstanceAs (Decidable (_ ∧ _))

/-- The names an auth record has for one thing. -/
def authAliases : List (List Text) :=
  [["emailVisibility", "email_visibility"], ["password", "password_hash", "token_key"]]

/-- A key of the payload or of the uploads is for the field. -/
def NamesField (c : Collection) (f key : Text) : Prop :=
  (parseModifierKey key).1 = f ∨
    c.type = .auth ∧ ∃ names ∈ authAliases, (parseModifierKey key).1 ∈ names ∧ f ∈ names

instance (c : Collection) (f key : Text) : Decidable (NamesField c f key) :=
  inferInstanceAs (Decidable (_ ∨ _ ∧ ∃ names ∈ authAliases, _))

/-- The request carries a value, a modifier or an upload for the field. -/
def Carries (c : Collection) (req : RecordRequest) (f : Text) : Prop :=
  (∃ e ∈ req.data, NamesField c f e.1) ∨ ∃ e ∈ req.files, NamesField c f e.1

instance (c : Collection) (req : RecordRequest) (f : Text) : Decidable (Carries c req f) :=
  inferInstanceAs (Decidable ((∃ e ∈ req.data, _) ∨ ∃ e ∈ req.files, _))

/-- The context of the rule holds the field : under its own key, and for a creation not taken
out of the payload, or put in for an upload. -/
def Seen (w : Writer) (c : Collection) (kind : WriteKind) (route : Route) (req : RecordRequest)
    (f : Text) : Prop :=
  match kind with
  | .update => req.data.has f = true
  | .create => (route = .single → req.data ≠ []) ∧
      ((req.data.has f = true ∧ f ∉ takenKeys c) ∨ Saves w c req.files f)

/-- The column a field is stored in. -/
def column (c : Collection) (f : Text) : Text :=
  if c.type = .auth ∧ f = "emailVisibility".toList then "email_visibility"
  else if c.type = .auth ∧ f = "password".toList then "password_hash"
  else f

/-- The request without everything it carries for the field. -/
def withoutField (c : Collection) (f : Text) (req : RecordRequest) : RecordRequest :=
  { req with
    data := req.data.filter fun e => !decide (NamesField c f e.1)
    files := req.files.filter fun e => !decide (NamesField c f e.1) }

/-- The write cannot change the field : an update leaves the column as it was, and a creation
stores what it would store without the field. -/
def LeavesField (w : Writer) (rt : Runtime) (db : Db) (c : Collection) (kind : WriteKind)
    (id : Text) (req : RecordRequest) (f : Text) : Prop :=
  match kind with
  | .update => f ≠ "updated" → ∀ db' row row', updateRecord w rt db c id req.data req.files =
      .ok (some db') → db.rowById c.name id = some row → db'.rowById c.name id = some row' →
        row'.get? (column c f) = row.get? (column c f)
  | .create => ∀ d, createDraft w rt c id req.data req.files = .ok d →
      ∃ d', createDraft w rt c id (withoutField c f req).data (withoutField c f req).files = .ok d' ∧
        d'.columns.get? (column c f) = d.columns.get? (column c f)

/-- The macros tell the truth about a field, whatever the text of the rule. -/
structure Truthful (w : Writer) (rt : Runtime) (db : Db) (c : Collection) (kind : WriteKind)
    (route : Route) (id : Text) (req : RecordRequest) (f : Text) : Prop where
  isset : ∀ db' rule, (filterEnv rt db' c (ruleContext w c kind route req) rule).resolveMacro
    (bodyName (f ++ ":isset".toList)) = .ok (.value (.bool (decide (Carries c req f))))
  value : ∀ v, req.data.get? f = some v →
    (∀ e ∈ req.data, NamesField c f e.1 → e.1 = f) → (∀ e ∈ req.files, ¬NamesField c f e.1) →
      ∀ db' rule, (filterEnv rt db' c (ruleContext w c kind route req) rule).resolveMacro
        (bodyName f) = .ok (.value v)
  unset : ∀ db' rule, (filterEnv rt db' c (ruleContext w c kind route req) rule).resolveMacro
    (bodyName (f ++ ":isset".toList)) = .ok (.value (.bool false)) →
      LeavesField w rt db c kind id req f

/-! ## Looking a field up -/

section

variable {w : Writer} {rt : Runtime} {db : Db} {c : Collection} {f : Text}

/-- A body macro without a path is left to the parser. -/
theorem resolved_body_eq_none {ctx : RequestContext} (hctx : ctx.resolved = []) (rule : Text)
    {g : Text} (hg : '.' ∉ g) :
    (resolveRequestMacros rt db rule ctx c).resolved.get? (bodyName g) = none := by
  unfold resolveRequestMacros
  rw [Macros.get?_foldl_addResolved, hctx, Dict.get?_nil, Option.none_or, List.findSome?_eq_none_iff]
  intro m _
  split_ifs with hk
  · obtain rfl : m = (MacroSource.body, g) := Macros.key_injective hk
    show Macros.resolveBody rt db ctx.data c g = none
    unfold Macros.resolveBody
    rw [Text.split_of_notMem hg]
  · rfl

theorem resolveMacro_body {E : FilterEnv} {g : Text}
    (hres : E.ctx.resolved.get? (bodyName g) = none) :
    E.resolveMacro (bodyName g) = E.resolveBodyMacro g := by
  have hclock : FilterEnv.clock? (bodyName g) = none := rfl
  have hcontext : bodyName g ≠ "request.context".toList := by
    intro h
    have htake : ("request.b" : Text) = "request.c" := congrArg (List.take 9) h
    exact absurd htake (by decide)
  have hmethod : bodyName g ≠ "request.method".toList := by
    intro h
    have htake : ("request.b" : Text) = "request.m" := congrArg (List.take 9) h
    exact absurd htake (by decide)
  have hheaders : Text.afterPrefix? "request.headers." (bodyName g) = none := rfl
  have hauth : Text.afterPrefix? "request.auth." (bodyName g) = none := rfl
  have hbody : FilterEnv.bodyMacro? (bodyName g) = some g := by
    unfold FilterEnv.bodyMacro?
    rw [show Text.afterPrefix? "request.body." (bodyName g) = some g from
      Text.afterPrefix?_append "request.body." g, Option.some_or]
  unfold FilterEnv.resolveMacro
  simp only [hres, hclock, hcontext, hmethod, hheaders, hauth, hbody, if_false]

theorem splitModifier_isset (hf : f ≠ []) :
    splitModifier (f ++ ":isset".toList) = (f, some .isset) := by
  have hsplit : Text.rsplit? ':' (f ++ ":isset".toList) = some (f, "isset".toList) := by
    unfold Text.rsplit?
    rw [if_pos (List.mem_append_right _ (by decide)), List.reverse_append]
    show some ((f.reverse).reverse, _) = _
    rw [List.reverse_reverse]
    rfl
  unfold splitModifier
  rw [hsplit]
  show (if f = [] then _ else _) = _
  rw [if_neg hf]

theorem splitModifier_plain (hf : ':' ∉ f) : splitModifier f = (f, none) := by
  unfold splitModifier Text.rsplit?
  rw [if_neg hf]

/-! ## The context of the rule -/

variable {kind : WriteKind} {route : Route} {req : RecordRequest} {id : Text}

theorem filterEnv_data (db' : Db) (rule : Text) :
    (filterEnv rt db' c (ruleContext w c kind route req) rule).ctx.data =
      ruleData w c kind route req := by
  show (resolveRequestMacros rt db' rule (ruleContext w c kind route req) c).data = _
  rw [resolveRequestMacros_eq]
  rfl

theorem notMem_of_isFieldName (hf : IsFieldName f) {ch : Char} (hch : Text.isIdentChar ch = false) :
    ch ∉ f := by
  intro h
  rw [List.all_eq_true.1 hf.2 ch h] at hch
  cases hch

/-- `@request.body.f:isset` says whether the context holds the key. -/
theorem resolveMacro_isset (hf : IsFieldName f) (db' : Db) (rule : Text) :
    (filterEnv rt db' c (ruleContext w c kind route req) rule).resolveMacro
      (bodyName (f ++ ":isset".toList)) =
        .ok (.value (.bool ((ruleData w c kind route req).has f))) := by
  have hdot : '.' ∉ f ++ ":isset".toList := by
    rw [List.mem_append, not_or]
    exact ⟨notMem_of_isFieldName hf (by decide), by decide⟩
  rw [resolveMacro_body (resolved_body_eq_none rfl rule hdot)]
  unfold FilterEnv.resolveBodyMacro
  rw [splitModifier_isset hf.1, filterEnv_data]
  rfl

/-- `@request.body.f` is what the context holds. -/
theorem resolveMacro_value (hf : IsFieldName f) (db' : Db) (rule : Text) :
    (filterEnv rt db' c (ruleContext w c kind route req) rule).resolveMacro (bodyName f) =
      .ok (.value (((ruleData w c kind route req).get? f).getD (.text []))) := by
  have hdot : '.' ∉ f := notMem_of_isFieldName hf (by decide)
  rw [resolveMacro_body (resolved_body_eq_none rfl rule hdot)]
  unfold FilterEnv.resolveBodyMacro
  rw [splitModifier_plain (notMem_of_isFieldName hf (by decide)), filterEnv_data]

theorem has_ruleData : (ruleData w c kind route req).has f = true ↔ Seen w c kind route req f := by
  unfold ruleData Seen
  cases kind with
  | update => exact Iff.rfl
  | create =>
    cases route with
    | batch =>
      dsimp only
      rw [has_createdPayload]
      simp [or_comm]
    | single =>
      dsimp only
      by_cases hdata : req.data = []
      · rw [if_pos hdata]
        simp [Dict.has, hdata]
      · rw [if_neg hdata, has_createdPayload]
        simp [hdata, or_comm]

/-- A field name has no modifier. -/
theorem parseModifierKey_of_isFieldName (hf : IsFieldName f) : parseModifierKey f = (f, none) := by
  have hlast : ∀ ch, Text.isIdentChar ch = false → f.getLast? ≠ some ch := by
    intro ch hch h
    exact notMem_of_isFieldName hf hch (List.mem_of_getLast? h)
  unfold parseModifierKey
  split
  · exact absurd List.mem_cons_self (notMem_of_isFieldName hf (by decide))
  · rw [if_neg (hlast '+' (by decide)), if_neg (hlast '-' (by decide))]

theorem namesField_self (hf : IsFieldName f) : NamesField c f f := by
  left
  rw [parseModifierKey_of_isFieldName hf]

/-- What the context holds, the request carries. -/
theorem carries_of_seen (hf : IsFieldName f) (h : Seen w c kind route req f) : Carries c req f := by
  have hhas : req.data.has f = true → Carries c req f := by
    intro h
    obtain ⟨e, he, rfl⟩ := List.mem_map.1 (Dict.has_iff_mem_keys.1 h)
    exact Or.inl ⟨e, he, namesField_self hf⟩
  cases kind with
  | update => exact hhas h
  | create =>
    obtain ⟨-, ⟨h, -⟩ | ⟨e, he, rfl, -⟩⟩ := h
    · exact hhas h
    · exact Or.inr ⟨e, he, namesField_self hf⟩

/-- Nothing the request carries is for the column of the field. -/
theorem not_names_column {key : Text} (h : ¬NamesField c f key) :
    (parseModifierKey key).1 ≠ column c f := by
  intro hkey
  refine h ?_
  unfold column at hkey
  split_ifs at hkey with hvis hpass
  · exact Or.inr ⟨hvis.1, _, List.mem_cons_self, by rw [hkey]; decide, by rw [hvis.2]; decide⟩
  · exact Or.inr ⟨hpass.1, _, List.mem_cons_of_mem _ List.mem_cons_self, by rw [hkey]; decide,
      by rw [hpass.2]; decide⟩
  · exact Or.inl hkey

theorem column_eq {k : Text} (h : column c f = k) :
    f = k ∨ (f = "emailVisibility".toList ∧ k = "email_visibility".toList) ∨
      (f = "password".toList ∧ k = "password_hash".toList) := by
  unfold column at h
  split_ifs at h with hvis hpass
  · exact Or.inr (Or.inl ⟨hvis.2, h.symm⟩)
  · exact Or.inr (Or.inr ⟨hpass.2, h.symm⟩)
  · exact Or.inl h

theorem has_of_not_carries {key : Text} (h : ¬Carries c req f) (hkey : NamesField c f key) :
    req.data.has key = false := by
  rw [← Bool.not_eq_true, Dict.has_iff_mem_keys]
  intro hmem
  obtain ⟨e, he, rfl⟩ := List.mem_map.1 hmem
  exact h (Or.inl ⟨e, he, hkey⟩)

/-- An auth record's column is not written without a key for its field. -/
theorem noAuthKey_of_not_carries (hauth : c.type = .auth) (h : ¬Carries c req f) :
    NoAuthKey req.data (column c f) := by
  have halias : ∀ (key : Text) (names : List Text), names ∈ authAliases →
      (parseModifierKey key).1 ∈ names → f ∈ names → req.data.has key = false :=
    fun key names hn hk hf => has_of_not_carries h (Or.inr ⟨hauth, names, hn, hk, hf⟩)
  have hself : ∀ {key : Text}, (parseModifierKey key).1 = f → req.data.has key = false :=
    fun hk => has_of_not_carries h (Or.inl hk)
  constructor
  · intro hk
    have hf : f ∈ (["password", "password_hash", "token_key"] : List Text) := by
      rcases hk with hk | hk <;> rcases column_eq hk with rfl | ⟨rfl, hne⟩ | ⟨rfl, hne⟩
      all_goals first | decide | exact absurd hne (by decide)
    have hnone := halias "password" _ (List.mem_cons_of_mem _ List.mem_cons_self)
      (by decide) hf
    unfold getKey
    rw [Dict.has, ← Bool.not_eq_true, Option.isSome_iff_ne_none, not_not] at hnone
    rw [hnone]
    rfl
  · intro hk
    rcases column_eq hk with rfl | ⟨rfl, hne⟩ | ⟨rfl, hne⟩
    · exact hself (by decide)
    · exact absurd hne (by decide)
    · exact absurd hne (by decide)
  · intro hk
    have hf : f ∈ (["emailVisibility", "email_visibility"] : List Text) := by
      rcases column_eq hk with rfl | ⟨rfl, hne⟩ | ⟨rfl, hne⟩
      all_goals first | decide | exact absurd hne (by decide)
    exact ⟨halias _ _ List.mem_cons_self (by decide) hf,
      halias _ _ List.mem_cons_self (by decide) hf⟩
  · intro hk
    rcases column_eq hk with rfl | ⟨rfl, hne⟩ | ⟨rfl, hne⟩
    · exact hself (by decide)
    · exact absurd hne (by decide)
    · exact absurd hne (by decide)

theorem withoutField_of_not_carries (h : ¬Carries c req f) : withoutField c f req = req := by
  have hdata : req.data.filter (fun e => !decide (NamesField c f e.1)) = req.data := by
    rw [List.filter_eq_self]
    intro e he
    simpa using fun hn => h (Or.inl ⟨e, he, hn⟩)
  have hfiles : req.files.filter (fun e => !decide (NamesField c f e.1)) = req.files := by
    rw [List.filter_eq_self]
    intro e he
    simpa using fun hn => h (Or.inr ⟨e, he, hn⟩)
  unfold withoutField
  rw [hdata, hfiles]

/-- A request that carries nothing for a field cannot change it. -/
theorem leavesField_of_not_carries (h : ¬Carries c req f) :
    LeavesField w rt db c kind id req f := by
  cases kind with
  | create =>
    intro d hd
    rw [withoutField_of_not_carries h]
    exact ⟨d, hd, rfl⟩
  | update =>
    intro hupdated db' row row' hupdate hrow hrow'
    refine get?_of_updateRecord hupdate hrow hrow' fun d hd => ?_
    refine updateDraft_other hd ?_ (fun hauth => noAuthKey_of_not_carries hauth h) ?_ ?_
    · intro hk
      rcases column_eq hk with hf | ⟨-, hk⟩ | ⟨-, hk⟩
      · exact hupdated hf
      · exact absurd hk (by decide)
      · exact absurd hk (by decide)
    · intro e he _ _ hk
      exact absurd hk (not_names_column fun hn => h (Or.inl ⟨e, he, hn⟩))
    · intro e he hk
      exact absurd hk (not_names_column fun hn => h (Or.inr ⟨e, he, hn⟩))

/-- A value the request carries under the name of the field alone is the one the context
holds. -/
theorem get?_ruleData {v : Value} (hf : IsFieldName f) (hv : req.data.get? f = some v)
    (hfiles : ∀ e ∈ req.files, ¬NamesField c f e.1) (hseen : Seen w c kind route req f) :
    (ruleData w c kind route req).get? f = some v := by
  cases kind with
  | update => exact hv
  | create =>
    obtain ⟨hne, hkept⟩ := hseen
    have hnames : ∀ e ∈ req.files, e.1 ≠ f := by
      rintro e he rfl
      exact hfiles e he (namesField_self hf)
    have hnot : f ∉ takenKeys c := by
      rcases hkept with ⟨-, hnot⟩ | ⟨e, he, hef, -⟩
      · exact hnot
      · exact absurd hef (hnames e he)
    have hpayload : (createdPayload w c req.files req.data).get? f = some v := by
      rw [get?_createdPayload hnames hnot, hv]
    cases route with
    | batch => exact hpayload
    | single =>
      show Dict.get? (if req.data = [] then [] else _) f = _
      rw [if_neg (hne rfl)]
      exact hpayload

/-- The body macros tell the truth about a field exactly if the context of the rule holds the
field under its own name whenever the request carries it. -/
theorem bodyTruthful_iff (w : Writer) (rt : Runtime) (db : Db) (c : Collection) (kind : WriteKind)
    (route : Route) (id : Text) (req : RecordRequest) (f : Text) (hf : IsFieldName f) :
    Truthful w rt db c kind route id req f ↔ (Carries c req f → Seen w c kind route req f) := by
  constructor
  · intro h hcarries
    have hisset := (resolveMacro_isset hf db []).symm.trans (h.isset db [])
    rw [decide_eq_true hcarries] at hisset
    rw [← has_ruleData]
    injection hisset with hterm
    injection hterm with hvalue
    injection hvalue
  · intro h
    have hhas : (ruleData w c kind route req).has f = decide (Carries c req f) := by
      rw [Bool.eq_iff_iff, has_ruleData, decide_eq_true_eq]
      exact ⟨carries_of_seen hf, h⟩
    refine ⟨fun db' rule => ?_, fun v hv _ hfiles db' rule => ?_, fun db' rule hunset => ?_⟩
    · rw [resolveMacro_isset hf, hhas]
    · have hcarries : Carries c req f := by
        refine Or.inl ⟨(f, v), Dict.mem_of_get? hv, namesField_self hf⟩
      rw [resolveMacro_value hf, get?_ruleData hf hv hfiles (h hcarries), Option.getD_some]
    · rw [resolveMacro_isset hf, hhas] at hunset
      have hnot : ¬Carries c req f := by
        intro hcarries
        rw [decide_eq_true hcarries] at hunset
        cases hunset
      exact leavesField_of_not_carries hnot

end

/-- Members with several roles. -/
def members : Collection where
  id := "members"
  name := "members"
  schema := [{ name := "roles", type := .select, options := { maxSelect := some 3 } }]
  updateRule := some "@request.body.roles:isset = false"

def membersDb : Db where
  collections := [members]
  tables := [("members", ⟨["id", "roles"], [[("id", .text "m1"), ("roles", .list [.text "user"])]]⟩)]

/-- `roles+` appends to the roles of a member past a rule that forbids to set them. -/
theorem appended_roles_unset :
    ¬Truthful .simple .simple membersDb members .update .single "m1"
      { data := [("roles+", .list [.text "admin"])] } "roles" := by
  intro h
  have hunset : (filterEnv .simple membersDb members (ruleContext .simple members .update .single
      { data := [("roles+", .list [.text "admin"])] }) []).resolveMacro
        (bodyName ("roles".toList ++ ":isset".toList)) = .ok (.value (.bool false)) := rfl
  have hupdate : ∃ db' row', updateRecord .simple .simple membersDb members "m1"
      [("roles+", .list [.text "admin"])] [] = .ok (some db') ∧
        db'.rowById "members" "m1" = some row' ∧
        row'.get? "roles" = some (.list [.text "user", .text "admin"]) :=
    ⟨_, _, rfl, rfl, rfl⟩
  obtain ⟨db', row', hupdate, hrow', hroles⟩ := hupdate
  have hleft := h.unset membersDb [] hunset (by decide) db' _ row' hupdate rfl hrow'
  rw [show column members "roles" = "roles".toList from rfl, hroles] at hleft
  exact absurd hleft (by decide)

/-- Roles that are set under their own name are seen. -/
theorem plain_roles_truthful :
    IsFieldName "roles" ∧ Truthful .simple .simple membersDb members .update .single "m1"
      { data := [("roles", .list [.text "admin"])] } "roles" :=
  ⟨by decide, (bodyTruthful_iff _ _ _ _ _ _ _ _ _ (by decide)).2 fun _ => by
    show Dict.has [("roles".toList, Value.list [.text "admin".toList])] "roles" = true
    decide⟩

end BodyMacros

end PPBase
