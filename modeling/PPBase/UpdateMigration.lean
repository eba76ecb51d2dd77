import PPBase.SanitizedMerge
import PPBase.SchemaManager

/-!
# Update migrations

`generateUpdateMigration` compares two states of a collection, and writes what changes in both
directions; `applyChanges` is what `up` and `down` do with it. A schema is written whole if the
fields are told apart under their identity keys, and options without their secrets.

If the schemas are told apart, or are the same, `up` and `down` change everything but options from
one state to the other and back. Options of an auth collection are merged into those that are there,
those of others replaced, and they come out right exactly if `OptionsReached` holds in both
directions (`down_undoes_up_iff`). A secret that changes does not (`changed_secret_not_applied`).
-/

namespace PPBase

theorem distinctKeys_mergeValue {v : Value} : ∀ {c : Option Value},
    (∀ d, c = some d → d.distinctKeys = true) → v.distinctKeys = true →
      (mergeValue c v).distinctKeys = true := by
  induction v with
  | obj fs ih =>
    intro c hc hv
    by_cases hobj : ∃ base, c = some (.obj base)
    · obtain ⟨base, rfl⟩ := hobj
      have hbase := hc _ rfl
      obtain ⟨-, hfs⟩ := Value.distinctKeys_obj.1 hv
      rw [mergeValue_obj]
      clear hc hv
      induction fs generalizing base with
      | nil => rwa [deepMergeDicts]
      | cons f fs ih' =>
        obtain ⟨k, v⟩ := f
        rw [deepMergeDicts]
        refine ih' (fun f hf => ih f (List.mem_cons_of_mem _ hf)) _ (distinctKeys_set hbase ?_ k)
          fun f hf => hfs f (List.mem_cons_of_mem _ hf)
        exact ih (k, v) List.mem_cons_self (fun d hd => Value.distinctKeys_get? hbase hd)
          (hfs (k, v) List.mem_cons_self)
    · rwa [mergeValue_eq_right fun b _ h _ => hobj ⟨b, h⟩]
  | _ =>
    intro c _ hv
    rw [mergeValue_eq_right]
    · exact hv
    · exact fun b o _ h => by cases h

theorem distinctKeys_deepMergeDicts {base override : Dict Text Value}
    (hbase : (Value.obj base).distinctKeys = true)
    (hoverride : (Value.obj override).distinctKeys = true) :
    (Value.obj (deepMergeDicts base override)).distinctKeys = true := by
  rw [← mergeValue_obj]
  exact distinctKeys_mergeValue (fun d hd => Option.some.inj hd ▸ hbase) hoverride

theorem distinctKeys_defaults (tokenKey : TokenType → Text) (isSuperusers : Bool) :
    (Value.obj (CollectionService.generateDefaultAuthOptions tokenKey isSuperusers)).distinctKeys =
      true := by
  cases isSuperusers <;> rfl

namespace AuthOptions

theorem distinctKeys_lastNamed {providers : List Value} {d : Dict HashKey (Dict Text Value)}
    (hd : providers.foldlM addByName [] = some d)
    (hproviders : (Value.list providers).distinctKeys = true) (key : HashKey) :
    (Value.obj ((d.get? key).getD [])).distinctKeys = true := by
  rw [get?_foldlM_addByName hd, Dict.get?_nil, Option.or_none]
  cases hlast : (providers.filterMap (namedBy key)).getLast? with
  | none => rfl
  | some fs =>
    obtain ⟨v, hv, hnamed⟩ := List.mem_filterMap.1 (List.mem_of_getLast? hlast)
    cases v with
    | obj gs =>
      rw [namedBy] at hnamed
      split at hnamed
      · cases hnamed
        exact Value.distinctKeys_list.1 hproviders _ hv
      · cases hnamed
    | _ => cases hnamed

variable {v : Value}

theorem distinctKeys_mergeProvider {providers : List Value} {d : Dict HashKey (Dict Text Value)}
    (hd : providers.foldlM addByName [] = some d)
    (hproviders : (Value.list providers).distinctKeys = true) {w : Value}
    (hv : v.distinctKeys = true) (h : mergeProvider d v = some w) : w.distinctKeys = true := by
  cases v with
  | obj fs =>
    obtain ⟨key, -, rfl⟩ := Option.map_eq_some_iff.1 h
    exact distinctKeys_deepMergeDicts (distinctKeys_lastNamed hd hproviders key) hv
  | _ => cases h; exact hv

theorem distinctKeys_currentProviders {providers : List Value} (hv : v.distinctKeys = true)
    (h : currentProviders v = some providers) : (Value.list providers).distinctKeys = true := by
  cases v with
  | list vs => cases h; exact hv
  | obj fs => cases h; rfl
  | text s => cases h; rfl
  | _ => cases h

theorem distinctKeys_mergeAuthOptions {defaults existing incoming merged : Dict Text Value}
    (hdefaults : (Value.obj defaults).distinctKeys = true)
    (hexisting : (Value.obj existing).distinctKeys = true)
    (hincoming : (Value.obj incoming).distinctKeys = true)
    (h : mergeAuthOptions defaults existing incoming = some merged) :
    (Value.obj merged).distinctKeys = true := by
  have hbase := distinctKeys_deepMergeDicts hdefaults hexisting
  by_cases hlist : ∃ oauth providers, incoming.get? "oauth2" = some (.obj oauth) ∧
      Dict.get? oauth "providers" = some (.list providers)
  · obtain ⟨oauth, providers, hoauth, hproviders⟩ := hlist
    have hoauthKeys := Value.distinctKeys_get? hincoming hoauth
    have hdel := distinctKeys_del hoauthKeys "providers"
    have hoverride := distinctKeys_set hincoming hdel "oauth2"
    obtain ⟨current, hcurrent⟩ := mergeValue_obj_isObj
      ((deepMergeDicts defaults existing).get? "oauth2") (Dict.del oauth "providers")
    have hcurrentKeys : (Value.obj current).distinctKeys = true := by
      rw [← hcurrent]
      exact distinctKeys_mergeValue (fun d hd => Value.distinctKeys_get? hbase hd) hdel
    rw [mergeAuthOptions_providers hoauth (Value.distinctKeys_obj.1 hoverride).1 hproviders
      hcurrent] at h
    obtain ⟨ps, hps, h⟩ := Option.bind_eq_some_iff.1 h
    obtain ⟨d, hd, h⟩ := Option.bind_eq_some_iff.1 h
    obtain ⟨qs, hqs, h⟩ := Option.bind_eq_some_iff.1 h
    cases h
    have hpsKeys : (Value.list ps).distinctKeys = true := by
      refine distinctKeys_currentProviders ?_ hps
      cases hget : (currentOauth ((deepMergeDicts defaults existing).get? "oauth2")).get?
          "providers" with
      | none => rfl
      | some v =>
        refine Value.distinctKeys_get? ?_ hget
        unfold currentOauth
        split
        · exact Value.distinctKeys_get? hbase ‹_›
        · rfl
    refine distinctKeys_set (distinctKeys_deepMergeDicts hbase hoverride)
      (distinctKeys_set hcurrentKeys (Value.distinctKeys_list.2 fun q hq => ?_) _) _
    obtain ⟨p, hp, hpq⟩ := (Failing.mem_of_mapM hqs).1 hq
    exact distinctKeys_mergeProvider hd hpsKeys
      (Value.distinctKeys_list.1 (Value.distinctKeys_get? hoauthKeys hproviders) p hp) hpq
  · rw [mergeAuthOptions_plain fun oauth providers ho hp => hlist ⟨oauth, providers, ho, hp⟩] at h
    cases h
    exact distinctKeys_deepMergeDicts hbase hincoming

theorem tree_withoutSecret_iff : (withoutSecret v).tree = v.tree ↔
    ∀ fs : Dict Text Value, v = .obj fs → ("secret" : Text) ∉ fs.keys := by
  cases v with
  | obj fs =>
    rw [withoutSecret, Value.tree_obj_inj]
    constructor
    · rintro h _ ⟨⟩
      have := h "secret"
      rw [Dict.get?_del, if_pos rfl] at this
      exact Dict.get?_eq_none_iff.1 (Option.map_eq_none_iff.1 this.symm)
    · intro h k
      rw [Dict.get?_del]
      split
      · subst k
        rw [Dict.get?_eq_none_iff.2 (h fs rfl)]
      · rfl
  | _ => exact iff_of_true rfl fun _ h => by cases h

theorem noCredential_of_clean (hkeys : v.distinctKeys = true)
    (h : v.tree.Clean (· ∈ oauthCredentialKeys)) : NoCredential v := by
  induction v with
  | list vs ih =>
    rw [Value.tree_list] at h
    cases h with
    | arr items =>
      refine .list fun v hv => ih v hv (Value.distinctKeys_list.1 hkeys v hv) ?_
      exact items _ (List.mem_map_of_mem hv)
  | obj fs ih =>
    rw [Value.tree_obj] at h
    cases h with
    | obj keys values =>
      obtain ⟨hnodup, hfs⟩ := Value.distinctKeys_obj.1 hkeys
      refine .obj (fun k hk => ?_) fun f hf => ih f hf (hfs f hf) ?_
      · exact Dict.get?_eq_none_iff.1 (Option.map_eq_none_iff.1 (keys k hk))
      · exact values f.1 _ (congrArg _ (Dict.get?_of_mem hnodup hf))
  | _ => exact .scalar nofun nofun

theorem strip_of_noCredential (h : NoCredential v) : stripOauthCredentials v = v := by
  induction h with
  | scalar hlist hobj =>
    rename_i v
    cases v with
    | list vs => exact absurd rfl (hlist vs)
    | obj fs => exact absurd rfl (hobj fs)
    | _ => rfl
  | list items ih => rw [stripOauthCredentials, stripItems_eq, List.map_congr_left ih, List.map_id']
  | @obj fs keys values ih =>
    rw [stripOauthCredentials, stripMembers_eq, List.filter_eq_self.2 fun f hf => ?_]
    · congr 1
      refine (List.map_congr_left fun f hf => ?_).trans (List.map_id' fs)
      rw [ih f hf]
    · exact decide_eq_true fun hk => keys f.1 hk (List.mem_map_of_mem hf)

/-- Sanitizing leaves options alone exactly if they have no secrets. -/
theorem tree_sanitize_iff {options : Dict Text Value}
    (hkeys : (Value.obj options).distinctKeys = true) :
    (Value.obj (sanitizeAuthOptions options)).tree = (Value.obj options).tree ↔
      NoSecrets options := by
  rw [Value.tree_obj_inj]
  constructor
  · refine fun h => ⟨fun k hk fs hfs => ?_, fun v hv => ?_⟩
    · have := h k
      rw [get?_sanitizeAuthOptions, if_pos hk, hfs] at this
      exact tree_withoutSecret_iff.1 (Option.some.inj this) fs rfl
    · have := h "oauth2"
      rw [get?_sanitize_oauth2, hv] at this
      have := Option.some.inj this
      rw [tree_stripOauthCredentials, Tree.prune_eq_self_iff] at this
      exact noCredential_of_clean (Value.distinctKeys_get? hkeys hv) this
  · intro h k
    rw [get?_sanitizeAuthOptions]
    split_ifs with hk hoauth
    · cases hv : options.get? k with
      | none => rfl
      | some v =>
        refine congrArg some (tree_withoutSecret_iff.2 fun fs hfs => ?_)
        exact h.tokens k hk fs (hv.trans (congrArg some hfs))
    · subst hoauth
      cases hv : options.get? "oauth2" with
      | none => rfl
      | some v =>
        rw [Option.map_some, strip_of_noCredential (h.oauth2 v hv)]
    · rfl

end AuthOptions

namespace Migrations

open AuthOptions CollectionService

/-! ## Generating -/

/-- `CollectionRecord`, with the fields of its schema as they are stored. -/
structure RawRecord where
  name : Text
  type : Text
  system : Bool
  schema : List (Dict Text Value)
  indexes : List Text
  rules : Rules
  options : Dict Text Value
  deriving DecidableEq

/-- `_serialize_collection` -/
def serializeCollection (record : RawRecord) : RawRecord :=
  { record with options := sanitizeAuthOptions record.options }

/-- The entry of a key in `_compute_collection_diff`. -/
def change {α : Type} [DecidableEq α] (old new : α) : Option (α × α) :=
  if old ≠ new then some (old, new) else none

/-- What `_compute_collection_diff` returns : the old and the new values at the keys that differ. -/
structure CollectionDiff where
  name : Option (Text × Text)
  type : Option (Text × Text)
  system : Option (Bool × Bool)
  indexes : Option (List Text × List Text)
  options : Option (Dict Text Value × Dict Text Value)
  listRule : Option (Option Text × Option Text)
  viewRule : Option (Option Text × Option Text)
  createRule : Option (Option Text × Option Text)
  updateRule : Option (Option Text × Option Text)
  deleteRule : Option (Option Text × Option Text)

/-- `_compute_collection_diff` -/
def computeCollectionDiff (old new : RawRecord) : CollectionDiff where
  name := change old.name new.name
  type := change old.type new.type
  system := change old.system new.system
  indexes := change old.indexes new.indexes
  options :=
    if Value.pyEq (.obj old.options) (.obj new.options) then none
    else some (old.options, new.options)
  listRule := change old.rules.listRule new.rules.listRule
  viewRule := change old.rules.viewRule new.rules.viewRule
  createRule := change old.rules.createRule new.rules.createRule
  updateRule := change old.rules.updateRule new.rules.updateRule
  deleteRule := change old.rules.deleteRule new.rules.deleteRule

/-- `field.get("id") or field.get("name", "")` -/
def fieldKey (field : Dict Text Value) : Value :=
  let id := (field.get? "id").getD .null
  if id.truthy then id else (field.get? "name").getD (.text [])

/-- `_fields_by_id`, if all keys can be hashed. -/
def fieldsById (schema : List (Dict Text Value)) : Option (Dict HashKey (Dict Text Value)) :=
  schema.foldlM (fun result field =>
    if (fieldKey field).truthy then
      (hashKey (fieldKey field)).map fun key => result.set key field
    else some result) []

/-- `sorted(keys)` raises no `TypeError` : numbers and strings do not compare. -/
def comparable (keys : List HashKey) : Bool :=
  keys.all (fun | .text _ => true | _ => false) || keys.all fun | .number _ => true | _ => false

/-- What `_compute_schema_diff` returns. -/
structure SchemaDiff where
  added : List (Dict Text Value)
  removed : List (Dict Text Value)
  changed : List (Dict Text Value × Dict Text Value)

/-- `_compute_schema_diff`, if it raises no `TypeError`; the order of the three lists is not read. -/
def computeSchemaDiff (oldSchema newSchema : List (Dict Text Value)) : Option SchemaDiff := do
  let oldById ← fieldsById oldSchema
  let newById ← fieldsById newSchema
  let added := newById.filter fun e => !oldById.has e.1
  let removed := oldById.filter fun e => !newById.has e.1
  let common := oldById.filterMap fun e => (newById.get? e.1).map fun field => (e.1, e.2, field)
  if comparable (added.map Prod.fst) && comparable (removed.map Prod.fst) &&
      comparable (common.map Prod.fst) then
    return ⟨added.map Prod.snd, removed.map Prod.snd,
      (common.map Prod.snd).filter fun e => !Value.pyEq (.obj e.1) (.obj e.2)⟩
  else none

/-- `changes`, as a migration passes them. -/
structure Changes where
  name : Option Text := none
  type : Option Text := none
  system : Option Bool := none
  schema : Option (List (Dict Text Value)) := none
  indexes : Option (List Text) := none
  rules : RuleChanges := {}
  options : Option (Dict Text Value) := none
  deriving DecidableEq

/-- The values on one side of a diff. -/
def CollectionDiff.side (d : CollectionDiff) (side : ∀ {α : Type}, α × α → α)
    (schema : Option (List (Dict Text Value))) : Changes where
  name := d.name.map side
  type := d.type.map side
  system := d.system.map side
  schema := schema
  indexes := d.indexes.map side
  rules :=
    { listRule := d.listRule.map side
      viewRule := d.viewRule.map side
      createRule := d.createRule.map side
      updateRule := d.updateRule.map side
      deleteRule := d.deleteRule.map side }
  options := d.options.map side

/-- Some field was added, removed or changed. -/
def SchemaDiff.differs (d : SchemaDiff) : Bool :=
  d.added ≠ [] || d.removed ≠ [] || d.changed ≠ []

/-- What `up` and `down` of a migration change. -/
structure UpdateMigration where
  forwardChanges : Changes
  reverseChanges : Changes
  deriving DecidableEq

/-- `generate_update_migration` -/
def generateUpdateMigration (oldRecord newRecord : RawRecord) : Option UpdateMigration := do
  let old := serializeCollection oldRecord
  let new := serializeCollection newRecord
  let changes := computeCollectionDiff old new
  let schemaDiff ← computeSchemaDiff old.schema new.schema
  return ⟨changes.side (·.2) (if schemaDiff.differs then some new.schema else none),
    changes.side (·.1) (if schemaDiff.differs then some old.schema else none)⟩

/-! ## Applying -/

variable (tokenKey : TokenType → Text)

/-- The options an update leaves, if merging raises no `TypeError`. -/
def updatedOptions (name type oldType : Text) (options : Dict Text Value)
    (incoming : Option (Dict Text Value)) : Option (Dict Text Value) :=
  let defaults := generateDefaultAuthOptions tokenKey (name = "_superusers")
  match incoming with
  | some incoming =>
    if type = "auth" then mergeAuthOptions defaults options incoming else some incoming
  | none =>
    if type = "auth" ∧ oldType ≠ "auth" then mergeAuthOptions defaults options []
    else some options

/-- `MigrationApp.update_collection` -/
def updateCollection (record : RawRecord) (changes : Changes) : Option RawRecord :=
  let name := changes.name.getD record.name
  let type := changes.type.getD record.type
  (updatedOptions tokenKey name type record.type record.options changes.options).map fun options =>
    { name, type
      system := changes.system.getD record.system
      schema := changes.schema.getD record.schema
      indexes := changes.indexes.getD record.indexes
      rules := changes.rules.apply record.rules
      options }

/-- `up` or `down` : without changes, it only looks the collection up. -/
def applyChanges (changes : Changes) (record : RawRecord) : Option RawRecord :=
  if changes = {} then some record else updateCollection tokenKey record changes

/-! ## What an update changes -/

variable {tokenKey} {old new source target : RawRecord} {told : Bool}

/-- The same, apart from options and the order of the members of fields. -/
structure RawRecord.Alike (r s : RawRecord) : Prop where
  name : r.name = s.name
  type : r.type = s.type
  system : r.system = s.system
  schema : r.schema.map (fun f => (Value.obj f).tree) = s.schema.map fun f => (Value.obj f).tree
  indexes : r.indexes = s.indexes
  rules : r.rules = s.rules

/-- The same, apart from the order of members. -/
structure RawRecord.Same (r s : RawRecord) : Prop extends r.Alike s where
  options : (Value.obj r.options).tree = (Value.obj s.options).tree

/-- A diff tells the schemas apart, if they are not the same. -/
def SchemaTold (old new : List (Dict Text Value)) : Prop :=
  old.map (fun f => (Value.obj f).tree) = new.map (fun f => (Value.obj f).tree) ∨
    ∀ d, computeSchemaDiff old new = some d → d.differs = true

/-- A diff tells the options apart. -/
def optionsTold (old new : RawRecord) : Bool :=
  !Value.pyEq (.obj (sanitizeAuthOptions old.options)) (.obj (sanitizeAuthOptions new.options))

variable (tokenKey) in
/-- An update to `target` leaves the options of `target`. Those of an auth collection are merged
into defaults and the options of `source`; others are replaced by sanitized ones. What is not told
apart stays. -/
def OptionsReached (told : Bool) (source target : RawRecord) : Prop :=
  let base := deepMergeDicts (generateDefaultAuthOptions tokenKey (target.name = "_superusers"))
    source.options
  if told then
    if target.type = "auth" then Reached base target.options else NoSecrets target.options
  else if target.type = "auth" ∧ source.type ≠ "auth" then
    (Value.obj base).tree = (Value.obj target.options).tree
  else (Value.obj source.options).tree = (Value.obj target.options).tree

theorem change_new {α : Type} [DecidableEq α] (old new : α) :
    ((change old new).map (·.2)).getD old = new := by
  unfold change
  split
  · rfl
  · exact not_not.1 ‹_›

theorem change_old {α : Type} [DecidableEq α] (old new : α) :
    ((change old new).map (·.1)).getD new = old := by
  unfold change
  split
  · rfl
  · exact Eq.symm (not_not.1 ‹_›)

theorem applyChanges_eq (changes : Changes) (record : RawRecord) :
    applyChanges tokenKey changes record = updateCollection tokenKey record changes := by
  unfold applyChanges
  split
  · subst changes
    simp [updateCollection, updatedOptions, RuleChanges.apply]
  · rfl

theorem mergeAuthOptions_nil (defaults existing : Dict Text Value) :
    mergeAuthOptions defaults existing [] = some (deepMergeDicts defaults existing) := by
  rw [mergeAuthOptions_plain, deepMergeDicts]
  intro oauth providers h
  cases h

variable (tokenKey) in
/-- The options of an update towards `target`. -/
def optionsTowards (told : Bool) (source target : RawRecord) : Option (Dict Text Value) :=
  updatedOptions tokenKey target.name target.type source.type source.options
    (if told then some (sanitizeAuthOptions target.options) else none)

theorem optionsTowards_iff (hkeys : (Value.obj target.options).distinctKeys = true) :
    (∃ options, optionsTowards tokenKey told source target = some options ∧
      (Value.obj options).tree = (Value.obj target.options).tree) ↔
      OptionsReached tokenKey told source target := by
  have hsome : ∀ o : Dict Text Value, (∃ options, some o = some options ∧
      (Value.obj options).tree = (Value.obj target.options).tree) ↔
        (Value.obj o).tree = (Value.obj target.options).tree :=
    fun o => ⟨fun ⟨_, ho, h⟩ => Option.some.inj ho ▸ h, fun h => ⟨o, rfl, h⟩⟩
  cases told with
  | true =>
    unfold optionsTowards updatedOptions OptionsReached
    simp only [if_true]
    split
    · exact merge_sanitized_iff hkeys
    · rw [hsome, tree_sanitize_iff hkeys]
  | false =>
    unfold optionsTowards updatedOptions OptionsReached
    simp only [Bool.false_eq_true, if_false]
    split
    · rw [mergeAuthOptions_nil, hsome]
    · rw [hsome]

theorem distinctKeys_optionsTowards {options : Dict Text Value}
    (hsource : (Value.obj source.options).distinctKeys = true)
    (htarget : (Value.obj target.options).distinctKeys = true)
    (h : optionsTowards tokenKey told source target = some options) :
    (Value.obj options).distinctKeys = true := by
  have hsanitized := distinctKeys_sanitize htarget
  have hdefaults := distinctKeys_defaults tokenKey (target.name = "_superusers")
  unfold optionsTowards updatedOptions at h
  cases told with
  | true =>
    simp only [if_true] at h
    split at h
    · exact distinctKeys_mergeAuthOptions hdefaults hsource hsanitized h
    · cases h
      exact hsanitized
  | false =>
    simp only [Bool.false_eq_true, if_false] at h
    split at h
    · exact distinctKeys_mergeAuthOptions hdefaults hsource rfl h
    · cases h
      exact hsource

/-- Only the type and the options of the source matter, up to the order of members. -/
theorem OptionsReached.congr {source' : RawRecord} (htype : source.type = source'.type)
    (hsource : (Value.obj source.options).distinctKeys = true)
    (hsource' : (Value.obj source'.options).distinctKeys = true)
    (htree : (Value.obj source.options).tree = (Value.obj source'.options).tree)
    (h : OptionsReached tokenKey told source target) :
    OptionsReached tokenKey told source' target := by
  have hbase : (Value.obj (deepMergeDicts
      (generateDefaultAuthOptions tokenKey (target.name = "_superusers")) source.options)).tree =
      (Value.obj (deepMergeDicts (generateDefaultAuthOptions tokenKey (target.name = "_superusers"))
        source'.options)).tree := by
    rw [tree_deepMergeDicts _ hsource, tree_deepMergeDicts _ hsource', htree]
  unfold OptionsReached at h ⊢
  dsimp only at h ⊢
  rw [← htype]
  split_ifs at h ⊢
  · exact h.congr hbase
  · exact h
  · exact hbase.symm.trans h
  · exact htree.symm.trans h

/-- Changes by which an update of `source` ends at `target`, but for options, and for a schema that
was not told apart. -/
structure Changes.Towards (c : Changes) (told differs : Bool) (source target : RawRecord) :
    Prop where
  name : c.name.getD source.name = target.name
  type : c.type.getD source.type = target.type
  system : c.system.getD source.system = target.system
  schema : c.schema.getD source.schema = if differs then target.schema else source.schema
  indexes : c.indexes.getD source.indexes = target.indexes
  rules : c.rules.apply source.rules = target.rules
  options : c.options = if told then some (sanitizeAuthOptions target.options) else none

theorem Changes.Towards.apply {c : Changes} {differs : Bool}
    (h : c.Towards told differs source target) : applyChanges tokenKey c source =
      (optionsTowards tokenKey told source target).map fun options =>
        { target with schema := if differs then target.schema else source.schema, options } := by
  rw [applyChanges_eq, updateCollection, optionsTowards]
  simp only [h.name, h.type, h.system, h.schema, h.indexes, h.rules, h.options]

/-- The changes of a generated migration. -/
theorem towards_of_generate {m : UpdateMigration} (h : generateUpdateMigration old new = some m) :
    ∃ d, computeSchemaDiff old.schema new.schema = some d ∧
      m.forwardChanges.Towards (optionsTold old new) d.differs old new ∧
      ∀ r : RawRecord, r.name = new.name → r.type = new.type → r.system = new.system →
        r.indexes = new.indexes → r.rules = new.rules →
          m.reverseChanges.Towards (optionsTold old new) d.differs r old := by
  obtain ⟨d, hd, h⟩ := Option.bind_eq_some_iff.1 h
  cases h
  refine ⟨d, hd, ⟨change_new _ _, change_new _ _, change_new _ _, ?_, change_new _ _, ?_, ?_⟩, ?_⟩
  · show (if d.differs then some new.schema else none).getD old.schema = _
    split <;> rfl
  · simp [CollectionDiff.side, computeCollectionDiff, serializeCollection, RuleChanges.apply,
      change_new]
  · show Option.map _ (if _ then none else some _) = _
    rw [optionsTold]
    split <;> simp_all [serializeCollection]
  · intro r hname htype hsystem hindexes hrules
    refine ⟨?_, ?_, ?_, ?_, ?_, ?_, ?_⟩
    · rw [hname]; exact change_old _ _
    · rw [htype]; exact change_old _ _
    · rw [hsystem]; exact change_old _ _
    · show (if d.differs then some old.schema else none).getD r.schema = _
      split <;> rfl
    · rw [hindexes]; exact change_old _ _
    · simp [CollectionDiff.side, computeCollectionDiff, serializeCollection, RuleChanges.apply,
        hrules, change_old]
    · show Option.map _ (if _ then none else some _) = _
      rw [optionsTold]
      split <;> simp_all [serializeCollection]

/-- Down undoes up, on everything but options, and on options exactly if those of the new
collection are reached from the old ones and the other way round. -/
theorem down_undoes_up_iff (keyUp keyDown : TokenType → Text)
    (hold : (Value.obj old.options).distinctKeys = true)
    (hnew : (Value.obj new.options).distinctKeys = true) {m : UpdateMigration}
    (hm : generateUpdateMigration old new = some m) (hschema : SchemaTold old.schema new.schema) :
    (∀ r, applyChanges keyUp m.forwardChanges old = some r → r.Alike new ∧
      ∀ s, applyChanges keyDown m.reverseChanges r = some s → s.Alike old) ∧
    ((∃ r, applyChanges keyUp m.forwardChanges old = some r ∧ r.Same new ∧
      ∃ s, applyChanges keyDown m.reverseChanges r = some s ∧ s.Same old) ↔
        OptionsReached keyUp (optionsTold old new) old new ∧
          OptionsReached keyDown (optionsTold old new) new old) := by
  obtain ⟨d, hd, hforward, hreverse⟩ := towards_of_generate hm
  have htold : d.differs = false → old.schema.map (fun f => (Value.obj f).tree) =
      new.schema.map fun f => (Value.obj f).tree := by
    intro hf
    rcases hschema with h | h
    · exact h
    · exact absurd (h d hd) (by rw [hf]; decide)
  have hup : ∀ r, applyChanges keyUp m.forwardChanges old = some r ↔
      ∃ options, optionsTowards keyUp (optionsTold old new) old new = some options ∧
        { new with schema := if d.differs then new.schema else old.schema, options } = r := by
    intro r
    rw [hforward.apply, Option.map_eq_some_iff]
  have halike : ∀ options, RawRecord.Alike
      { new with schema := if d.differs then new.schema else old.schema, options } new := by
    refine fun options => ⟨rfl, rfl, rfl, ?_, rfl, rfl⟩
    dsimp only
    split
    · rfl
    · exact htold (Bool.eq_false_iff.2 ‹_›)
  have hdown : ∀ r : RawRecord, r.Alike new → ∀ s,
      applyChanges keyDown m.reverseChanges r = some s ↔
        ∃ options, optionsTowards keyDown (optionsTold old new) r old = some options ∧
          { old with schema := if d.differs then old.schema else r.schema, options } = s := by
    intro r hr s
    rw [(hreverse r hr.name hr.type hr.system hr.indexes hr.rules).apply, Option.map_eq_some_iff]
  have halike' : ∀ r : RawRecord, r.Alike new → ∀ options, RawRecord.Alike
      { old with schema := if d.differs then old.schema else r.schema, options } old := by
    refine fun r hr options => ⟨rfl, rfl, rfl, ?_, rfl, rfl⟩
    dsimp only
    split
    · rfl
    · exact hr.schema.trans (htold (Bool.eq_false_iff.2 ‹_›)).symm
  constructor
  · intro r hr
    obtain ⟨options, -, rfl⟩ := (hup r).1 hr
    refine ⟨halike options, fun s hs => ?_⟩
    obtain ⟨options', -, rfl⟩ := (hdown _ (halike options) s).1 hs
    exact halike' _ (halike options) options'
  · constructor
    · rintro ⟨r, hr, hrnew, s, hs, hsold⟩
      obtain ⟨options, hoptions, rfl⟩ := (hup r).1 hr
      obtain ⟨options', hoptions', rfl⟩ := (hdown _ (halike options) s).1 hs
      have hkeys := distinctKeys_optionsTowards hold hnew hoptions
      refine ⟨(optionsTowards_iff hnew).1 ⟨options, hoptions, hrnew.options⟩, ?_⟩
      exact ((optionsTowards_iff hold).1 ⟨options', hoptions',
        hsold.options⟩).congr (by rfl) hkeys hnew
        hrnew.options
    · rintro ⟨hreached, hback⟩
      obtain ⟨options, hoptions, htree⟩ := (optionsTowards_iff hnew).2 hreached
      have hkeys := distinctKeys_optionsTowards hold hnew hoptions
      -- what is reached from `new` is reached from what comes of `up`
      have hback' : OptionsReached keyDown (optionsTold old new)
          { new with schema := if d.differs then new.schema else old.schema, options } old :=
        hback.congr (by rfl) hnew hkeys htree.symm
      obtain ⟨options', hoptions', htree'⟩ := (optionsTowards_iff hold).2 hback'
      exact ⟨_, (hup _).2 ⟨options, hoptions, rfl⟩, ⟨halike options, htree⟩, _,
        (hdown _ (halike options) _).2 ⟨options', hoptions', rfl⟩,
        ⟨halike' _ (halike options) options', htree'⟩⟩

/-- A field is added to a collection that gets another name, and removed again. -/
theorem added_field_removed :
    let old : RawRecord := ⟨"posts", "base", false, [], [], {}, []⟩
    let new : RawRecord := ⟨"articles", "base", false,
      [[("id", .text ("f1" : Text)), ("name", .text ("title" : Text))]], [], {}, []⟩
    ∃ m, generateUpdateMigration old new = some m ∧
      ∃ r, applyChanges (fun _ => []) m.forwardChanges old = some r ∧ r.Same new ∧
        ∃ s, applyChanges (fun _ => []) m.reverseChanges r = some s ∧ s.Same old := by
  intro old new
  have htold : optionsTold old new = false := by decide
  have hreached : OptionsReached (fun _ => []) (optionsTold old new) old new ∧
      OptionsReached (fun _ => []) (optionsTold old new) new old := by
    rw [htold]
    exact ⟨rfl, rfl⟩
  have hschema : ((computeSchemaDiff old.schema new.schema).all SchemaDiff.differs) = true := by
    decide
  have hm : generateUpdateMigration old new = some
      ⟨{ name := some "articles", schema := some new.schema },
        { name := some "posts", schema := some [] }⟩ := by
    decide
  exact ⟨_, hm, (down_undoes_up_iff (fun _ => []) (fun _ => []) (by decide) (by decide) hm
    (.inr fun d hd => by rw [hd] at hschema; exact hschema)).2.2 hreached⟩

/-- A secret that changes with an update is not in its migration. -/
theorem changed_secret_not_applied :
    let old : RawRecord := ⟨"users", "auth", false, [], [], {},
      generateDefaultAuthOptions (fun _ => "a") false⟩
    let new : RawRecord := ⟨"members", "auth", false, [], [], {},
      generateDefaultAuthOptions (fun _ => "b") false⟩
    generateUpdateMigration old new =
        some ⟨{ name := some "members" }, { name := some "users" }⟩ ∧
      applyChanges (fun _ => "c") { name := some "members" } old =
        some { new with options := old.options } ∧
      ¬ RawRecord.Same { new with options := old.options } new := by
  intro old new
  refine ⟨by decide, by decide +kernel, fun h => ?_⟩
  have htoken := Option.some.inj (Value.tree_obj_inj.1 h.options "authToken")
  have hsecret := Option.some.inj (Value.tree_obj_inj.1 htoken "secret")
  exact absurd (Value.text.inj (Tree.leaf.inj hsecret)) (by decide)

end Migrations

end PPBase
