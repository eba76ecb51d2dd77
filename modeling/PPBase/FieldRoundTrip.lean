import PPBase.FieldFormats

/-!
# From one field format to the other and back

`schemaToFields` lays the options of a field beside its other keys and adds the flags that are
missing; `fieldsToSchema` puts them back under `options`. The way there and back changes no key but
explicit `False` flags and an empty `options` (`SameField.round_trip`); what is in the nested format
stays as it is (`fieldsToSchema_idempotent`), and the record service nests options in the same way
(`sameOptions_normalizeField`). `formats_convert` puts the three together.
-/

namespace PPBase

namespace FieldFormats

/-! ## The flat format -/

/-- The flags that every field of a response has. -/
def flags : List Text := ["hidden", "presentable", "system", "required"]

/-- One key of a definition, with its options flattened. -/
def flattenEntry (flat : Raw) (e : Text × Value) : Raw :=
  match e with
  | (k, .obj options) => if k = "options" then flat.update options else flat.set k (.obj options)
  | (k, v) => flat.set k v

/-- `d.setdefault(k, False)` -/
def setDefaultFalse (d : Raw) (k : Text) : Raw := if d.has k then d else d.set k (.bool false)

/-- `_schema_to_fields` of one definition. -/
def schemaToFields (f : Raw) : Raw := flags.foldl setDefaultFalse (f.foldl flattenEntry [])

/-! ## What counts as the same -/

/-- A definition in the nested format, whose options have other names than its keys. -/
structure Nested (f : Raw) : Prop where
  nodup : f.keys.Nodup
  core : ∀ k ∈ f.keys, k ∈ coreKeys
  options : ∀ v, f.get? "options" = some v → ∃ os : Raw, v = .obj os ∧ os.keys.Nodup ∧
    ∀ k ∈ os.keys, k ∉ coreKeys

/-- What a key holds, where an empty `options` is none. -/
def filled (f : Raw) (k : Text) : Option Value :=
  if k = "options" ∧ f.get? k = some (.obj []) then none else f.get? k

/-- What a key holds, where also a flag that is `False` is none. -/
def shown (f : Raw) (k : Text) : Option Value :=
  if k ∈ flags ∧ f.get? k = some (.bool false) then none else filled f k

/-- Two definitions are the same up to an empty `options`. -/
def SameOptions (f g : Raw) : Prop := ∀ k, filled f k = filled g k

/-- Two definitions are the same up to an empty `options` and flags that are `False`. -/
def SameField (f g : Raw) : Prop := ∀ k, shown f k = shown g k

/-! ## There and back -/

/-- The entries that an entry becomes. -/
def pieces : Text × Value → Raw
  | (k, .obj options) => if k = "options" then options else [(k, .obj options)]
  | e => [e]

theorem flattenEntry_eq (flat : Raw) (e : Text × Value) :
    flattenEntry flat e = (pieces e).foldl (fun d p => d.set p.1 p.2) flat := by
  obtain ⟨k, v⟩ := e
  cases v with
  | obj options =>
    by_cases hk : k = "options"
    · simp only [flattenEntry, pieces, if_pos hk]
      rfl
    · simp only [flattenEntry, pieces, if_neg hk]
      rfl
  | _ => rfl

theorem foldl_flattenEntry (f : Raw) (h : Dict.keys (f.flatMap pieces) |>.Nodup) :
    f.foldl flattenEntry [] = f.flatMap pieces := by
  have hsets : f.foldl flattenEntry [] =
      (f.flatMap pieces).foldl (fun d p => Dict.set d p.1 p.2) [] := by
    rw [List.foldl_flatMap]
    exact List.foldl_ext _ _ _ fun flat e _ => flattenEntry_eq flat e
  rw [hsets, Dict.foldl_set_eq Prod.fst Prod.snd (f.flatMap pieces) [] h]
  simp

theorem flatMap_pieces : ∀ {f : Raw}, ("options" : Text) ∉ f.keys → f.flatMap pieces = f
  | [], _ => rfl
  | (k, v) :: f, h => by
    obtain ⟨hk, hf⟩ := List.ne_and_not_mem_of_not_mem_cons h
    have hpiece : pieces (k, v) = [(k, v)] := by
      cases v with
      | obj os =>
        simp only [pieces]
        exact if_neg (Ne.symm hk)
      | _ => rfl
    rw [List.flatMap_cons, hpiece, flatMap_pieces hf, List.singleton_append]

theorem core_append (d e : Raw) : core (d ++ e) = core d ++ core e := List.filter_append ..

theorem extra_append (d e : Raw) : extra (d ++ e) = extra d ++ extra e := List.filter_append ..

variable {d f : Raw} {k : Text}

/-- An object of core keys only. -/
theorem core_eq (h : ∀ k ∈ d.keys, k ∈ coreKeys) : core d = d ∧ extra d = [] := by
  have hmem : ∀ e ∈ d, e.1 ∈ coreKeys := fun e he => h e.1 (List.mem_map_of_mem he)
  constructor
  · exact List.filter_eq_self.2 fun e he => decide_eq_true (hmem e he)
  · exact List.filter_eq_nil_iff.2 fun e he => by simpa using hmem e he

/-- An object of options only. -/
theorem extra_eq (h : ∀ k ∈ d.keys, k ∉ coreKeys) : core d = [] ∧ extra d = d := by
  have hmem : ∀ e ∈ d, e.1 ∉ coreKeys := fun e he => h e.1 (List.mem_map_of_mem he)
  constructor
  · exact List.filter_eq_nil_iff.2 fun e he => by simpa using hmem e he
  · exact List.filter_eq_self.2 fun e he => decide_eq_true (hmem e he)

theorem del_of_notMem (h : k ∉ d.keys) : d.del k = d :=
  List.filter_eq_self.2 fun _ he => decide_eq_true fun hk => h (hk ▸ List.mem_map_of_mem he)

theorem del_append_cons {e : Raw} (hd : k ∉ d.keys) (he : k ∉ e.keys) (v : Value) :
    Dict.del (d ++ (k, v) :: e) k = d ++ e := by
  have hsplit : Dict.del (d ++ (k, v) :: e) k = d.del k ++ e.del k := by simp [Dict.del]
  rw [hsplit, del_of_notMem hd, del_of_notMem he]

/-- The options of a definition stand together among its flattened entries. -/
theorem flatten (h : Nested f) :
    ∃ f₁ os f₂ : Raw, f.flatMap pieces = f₁ ++ os ++ f₂ ∧ f₁ ++ f₂ = f.del "options" ∧
      os.keys.Nodup ∧ (∀ k ∈ os.keys, k ∉ coreKeys) ∧
      filled f "options" = if os = [] then none else some (.obj os) := by
  by_cases hopt : ("options" : Text) ∈ f.keys
  · obtain ⟨⟨_, v⟩, he, rfl⟩ := List.mem_map.1 hopt
    have hget := Dict.get?_of_mem h.nodup he
    obtain ⟨os, rfl, hnd, hos⟩ := h.options v hget
    obtain ⟨f₁, f₂, rfl⟩ := List.append_of_mem he
    have hkeys := h.nodup
    rw [Dict.keys, List.map_append, List.map_cons, List.nodup_middle, List.nodup_cons,
      List.mem_append, not_or] at hkeys
    obtain ⟨⟨h₁, h₂⟩, -⟩ := hkeys
    refine ⟨f₁, os, f₂, ?_, ?_, hnd, hos, ?_⟩
    · rw [List.flatMap_append, List.flatMap_cons, flatMap_pieces h₁, flatMap_pieces h₂,
        List.append_assoc]
      rfl
    · exact (del_append_cons h₁ h₂ _).symm
    · rw [filled, hget]
      by_cases hnil : os = [] <;> simp [hnil]
  · refine ⟨f, [], [], ?_, ?_, List.nodup_nil, fun _ hk => absurd hk List.not_mem_nil, ?_⟩
    · rw [flatMap_pieces hopt, List.append_nil, List.append_nil]
    · rw [List.append_nil, del_of_notMem hopt]
    · rw [filled, Dict.get?_eq_none_iff.2 hopt, if_pos rfl, ite_self]

/-- What the flattened entries of a definition consist of. -/
theorem foldl_flatten (h : Nested f) :
    ∃ os : Raw, core (f.foldl flattenEntry []) = f.del "options" ∧
      extra (f.foldl flattenEntry []) = os ∧
      filled f "options" = if os = [] then none else some (.obj os) := by
  obtain ⟨f₁, os, f₂, hpieces, hdel, hnd, hos, hfilled⟩ := flatten h
  have hcore : ∀ k ∈ Dict.keys (f₁ ++ f₂), k ∈ coreKeys := by
    rw [hdel]
    intro k hk
    obtain ⟨e, he, rfl⟩ := List.mem_map.1 hk
    exact h.core _ (List.mem_map_of_mem (List.mem_of_mem_filter he))
  have hnodup : (Dict.keys (f.flatMap pieces)).Nodup := by
    have hrest : (Dict.keys (f₁ ++ f₂)).Nodup := by
      rw [hdel]
      exact h.nodup.sublist ((List.filter_sublist ..).map _)
    have hdisjoint : List.Disjoint (Dict.keys (f₁ ++ f₂)) os.keys := fun k hk hkos =>
      hos k hkos (hcore k hk)
    have hperm : (f.flatMap pieces).Perm (f₁ ++ f₂ ++ os) := by
      rw [hpieces, List.append_assoc, List.append_assoc]
      exact List.perm_append_comm.append_left f₁
    rw [Dict.keys, (hperm.map Prod.fst).nodup_iff, List.map_append]
    exact hrest.append hnd hdisjoint
  rw [Dict.keys, List.map_append] at hcore
  obtain ⟨hcore₁, hextra₁⟩ := core_eq fun k hk => hcore k (List.mem_append_left _ hk)
  obtain ⟨hcore₂, hextra₂⟩ := core_eq fun k hk => hcore k (List.mem_append_right _ hk)
  obtain ⟨hcoreOs, hextraOs⟩ := extra_eq hos
  rw [foldl_flattenEntry f hnodup, hpieces]
  refine ⟨os, ?_, ?_, hfilled⟩
  · rw [core_append, core_append, hcore₁, hcoreOs, hcore₂, List.append_nil, hdel]
  · rw [extra_append, extra_append, hextra₁, hextraOs, hextra₂, List.append_nil, List.nil_append]

/-! ## The missing flags -/

theorem get?_setDefaultFalse (d : Raw) (j k : Text) :
    (setDefaultFalse d j).get? k = if j = k ∧ d.get? k = none then some (.bool false)
      else d.get? k := by
  unfold setDefaultFalse Dict.has
  by_cases hj : j = k
  · subst hj
    by_cases hget : d.get? j = none
    · simp [hget]
    · simp [hget, Option.isSome_iff_ne_none]
  · have hnot : ¬(j = k ∧ d.get? k = none) := fun h => hj h.1
    rw [if_neg hnot]
    by_cases hsome : (d.get? j).isSome
    · rw [if_pos hsome]
    · rw [if_neg hsome, Dict.get?_set_ne d _ hj]

theorem get?_foldl_setDefaultFalse (ks : List Text) (d : Raw) (k : Text) :
    (ks.foldl setDefaultFalse d).get? k = if k ∈ ks ∧ d.get? k = none then some (.bool false)
      else d.get? k := by
  induction ks generalizing d with
  | nil => simp
  | cons j ks ih =>
    rw [List.foldl_cons, ih, get?_setDefaultFalse]
    simp only [List.mem_cons]
    by_cases hj : j = k
    · subst hj
      cases hget : d.get? j <;> simp
    · simp [hj, Ne.symm hj]

theorem extra_set (hk : k ∈ coreKeys) (v : Value) : extra (d.set k v) = extra d := by
  induction d with
  | nil => simp [Dict.set, extra, hk]
  | cons e d ih =>
    obtain ⟨j, w⟩ := e
    unfold Dict.set
    split_ifs with hj
    · subst hj
      simp [extra, hk]
    · simp only [extra, List.filter_cons] at ih ⊢
      rw [ih]

theorem extra_foldl_setDefaultFalse :
    ∀ {ks : List Text}, (∀ k ∈ ks, k ∈ coreKeys) → ∀ d : Raw,
      extra (ks.foldl setDefaultFalse d) = extra d
  | [], _, _ => rfl
  | k :: ks, h, d => by
    obtain ⟨hk, hks⟩ := List.forall_mem_cons.1 h
    rw [List.foldl_cons, extra_foldl_setDefaultFalse hks, setDefaultFalse]
    split_ifs
    · rfl
    · exact extra_set hk _

/-! ## What the nested format holds -/

/-- The options that a definition is stored with. -/
def merged (f : Raw) : Raw :=
  match (core f).get? "options" with
  | some (.obj existing) => merge (extra f) existing
  | _ => extra f

theorem fieldsToSchema_eq (f : Raw) : fieldsToSchema f =
    if merged f = [] then (core f).del "options"
    else ((core f).del "options").set "options" (.obj (merged f)) := rfl

theorem get?_fieldsToSchema_of_ne (hk : k ≠ "options") :
    (fieldsToSchema f).get? k = if k ∈ coreKeys then f.get? k else none := by
  have hdel : ((core f).del "options").get? k = if k ∈ coreKeys then f.get? k else none := by
    rw [Dict.get?_del, if_neg (Ne.symm hk), get?_core]
  rw [fieldsToSchema_eq]
  by_cases hmerged : merged f = []
  · rw [if_pos hmerged, hdel]
  · rw [if_neg hmerged, Dict.get?_set_ne _ _ (Ne.symm hk), hdel]

theorem get?_fieldsToSchema_options (f : Raw) : (fieldsToSchema f).get? "options" =
    if merged f = [] then none else some (.obj (merged f)) := by
  rw [fieldsToSchema_eq]
  by_cases hmerged : merged f = []
  · rw [if_pos hmerged, if_pos hmerged, Dict.get?_del, if_pos rfl]
  · rw [if_neg hmerged, if_neg hmerged, Dict.get?_set_self]

theorem options_mem_coreKeys : ("options" : Text) ∈ coreKeys := by decide

theorem options_notMem_flags : ("options" : Text) ∉ flags := by decide

theorem flags_subset_coreKeys : ∀ k ∈ flags, k ∈ coreKeys := by decide

/-- The flat format has no options of its own. -/
theorem get?_schemaToFields (h : Nested f) (hk : k ∈ coreKeys) :
    (schemaToFields f).get? k =
      if k = "options" then none
      else if k ∈ flags ∧ f.get? k = none then some (.bool false) else f.get? k := by
  obtain ⟨-, hcore, -⟩ := foldl_flatten h
  have hflat : (f.foldl flattenEntry []).get? k = if k = "options" then none else f.get? k := by
    have hget := Dict.get?_del f "options" k
    rw [← hcore, get?_core, if_pos hk] at hget
    rw [hget]
    exact if_congr eq_comm rfl rfl
  rw [schemaToFields, get?_foldl_setDefaultFalse, hflat]
  by_cases hopt : k = "options"
  · subst hopt
    rw [if_pos rfl, if_pos rfl, if_neg fun hflag => options_notMem_flags hflag.1]
  · rw [if_neg hopt, if_neg hopt]

theorem shown_options (f : Raw) : shown f "options" = filled f "options" :=
  if_neg fun hflag => options_notMem_flags hflag.1

theorem SameField.round_trip (h : Nested f) : SameField f (fieldsToSchema (schemaToFields f)) := by
  intro k
  by_cases hopt : k = "options"
  · subst hopt
    obtain ⟨os, -, hextra, hfilled⟩ := foldl_flatten h
    have hmerged : merged (schemaToFields f) = os := by
      rw [merged, FieldFormats.get?_core, if_pos options_mem_coreKeys,
        get?_schemaToFields h options_mem_coreKeys, if_pos rfl, schemaToFields]
      exact (extra_foldl_setDefaultFalse flags_subset_coreKeys _).trans hextra
    have hget := get?_fieldsToSchema_options (schemaToFields f)
    rw [hmerged] at hget
    rw [shown_options, shown_options, hfilled, filled, hget]
    by_cases hos : os = [] <;> simp [hos]
  · have hget := get?_fieldsToSchema_of_ne (f := schemaToFields f) hopt
    by_cases hcore : k ∈ coreKeys
    · rw [if_pos hcore, get?_schemaToFields h hcore, if_neg hopt] at hget
      simp only [shown, filled, hopt, false_and, if_false, hget]
      by_cases hflag : k ∈ flags
      · cases hf : f.get? k <;> simp [hflag]
      · simp [hflag]
    · rw [if_neg hcore] at hget
      have hnone : f.get? k = none :=
        Dict.get?_eq_none_iff.2 fun hmem => hcore (h.core k hmem)
      simp only [shown, filled, hopt, false_and, if_false, hget, hnone]

/-! ## The nested format -/

theorem core_del (f : Raw) : core ((core f).del "options") = (core f).del "options" ∧
    extra ((core f).del "options") = [] := by
  refine core_eq fun k hk => ?_
  obtain ⟨e, he, rfl⟩ := List.mem_map.1 hk
  exact of_decide_eq_true (List.mem_filter.1 (List.mem_of_mem_filter he)).2

/-- The entry that the options of a definition make. -/
def optionsEntry (options : Raw) : Raw := [("options", .obj options)]

theorem merge_nil_left (d : Raw) : merge [] d = d := by
  simp [merge, Dict.keys]

theorem fieldsToSchema_idempotent (f : Raw) :
    fieldsToSchema (fieldsToSchema f) = fieldsToSchema f := by
  obtain ⟨hcore, hextra⟩ := core_del f
  have hno : ("options" : Text) ∉ Dict.keys ((core f).del "options") := by
    rw [← Dict.get?_eq_none_iff, Dict.get?_del, if_pos rfl]
  rw [fieldsToSchema_eq f]
  by_cases hmerged : merged f = []
  · rw [if_pos hmerged]
    have hnil : merged ((core f).del "options") = [] := by
      rw [merged, hcore, Dict.get?_eq_none_iff.2 hno]
      exact hextra
    rw [fieldsToSchema_eq, if_pos hnil, hcore, del_of_notMem hno]
  · have hset : ((core f).del "options").set "options" (.obj (merged f)) =
        (core f).del "options" ++ optionsEntry (merged f) := Dict.set_of_notMem hno _
    obtain ⟨hcoreLast, hextraLast⟩ := core_eq (d := optionsEntry (merged f)) fun k hk =>
      List.mem_singleton.1 hk ▸ options_mem_coreKeys
    have hall : core ((core f).del "options" ++ optionsEntry (merged f)) =
        (core f).del "options" ++ optionsEntry (merged f) := by
      rw [core_append, hcore, hcoreLast]
    have hget : Dict.get? ((core f).del "options" ++ optionsEntry (merged f)) "options" =
        some (.obj (merged f)) := by
      rw [get?_append, Dict.get?_eq_none_iff.2 hno, Option.none_or]
      exact if_pos rfl
    have hagain : merged ((core f).del "options" ++ optionsEntry (merged f)) = merged f := by
      rw [merged, hall, hget, extra_append, hextra, hextraLast]
      exact merge_nil_left _
    rw [if_neg hmerged, hset, fieldsToSchema_eq, hagain, if_neg hmerged, hall, optionsEntry,
      del_append_cons hno (fun hk => absurd hk List.not_mem_nil), List.append_nil, hset]
    rfl

/-! ## The record service -/

/-- The record service nests the options of a field as the collections do. -/
theorem sameOptions_normalizeField
    (h : f.get? "options" = none ∨ ∃ os, f.get? "options" = some (.obj os)) :
    ∃ g, normalizeField f = some g ∧ SameOptions g (fieldsToSchema f) := by
  have hcore : (core f).get? "options" = f.get? "options" := by
    rw [FieldFormats.get?_core, if_pos options_mem_coreKeys]
  have hne : extra f ≠ [] → ∀ os, merge (extra f) os ≠ [] := fun hextra os hmerge =>
    hextra (List.map_eq_nil_iff.1 (List.append_eq_nil_iff.1 hmerge).1)
  by_cases hextra : extra f = []
  · refine ⟨f, if_pos hextra, fun k => ?_⟩
    by_cases hopt : k = "options"
    · subst hopt
      rw [filled, filled, get?_fieldsToSchema_options, merged, hcore, hextra]
      rcases h with hget | ⟨os, hget⟩ <;> rw [hget]
      · simp
      · by_cases hos : os = [] <;> simp [merge_nil_left, hos]
    · have hget := get?_fieldsToSchema_of_ne (f := f) hopt
      simp only [filled, hopt, false_and, if_false, hget]
      by_cases hk : k ∈ coreKeys
      · rw [if_pos hk]
      · rw [if_neg hk, Dict.get?_eq_none_iff]
        rintro hmem
        obtain ⟨e, he, rfl⟩ := List.mem_map.1 hmem
        have hmem' : e ∈ extra f := List.mem_filter.2 ⟨he, decide_eq_true hk⟩
        exact List.not_mem_nil (hextra ▸ hmem')
  · refine ⟨fieldsToSchema f, ?_, fun k => rfl⟩
    rw [normalizeField, if_neg hextra, fieldsToSchema_eq, merged, hcore]
    rcases h with hget | ⟨os, hget⟩ <;> rw [hget]
    · exact congrArg some (if_neg hextra).symm
    · exact congrArg some (if_neg (hne hextra os)).symm

/-! ## The three converters -/

/-- Nested definitions survive the flat format, converting to the nested format a second time
changes nothing, and the record service nests the options of a field in the same way. -/
theorem formats_convert :
    (∀ schema : List Raw, (∀ f ∈ schema, Nested f) →
      List.Forall₂ SameField schema ((schema.map schemaToFields).map fieldsToSchema)) ∧
    (∀ fields : List Raw,
      (fields.map fieldsToSchema).map fieldsToSchema = fields.map fieldsToSchema) ∧
    ∀ f : Raw, (f.get? "options" = none ∨ ∃ os, f.get? "options" = some (.obj os)) →
      ∃ g, normalizeField f = some g ∧ SameOptions g (fieldsToSchema f) := by
  refine ⟨fun schema hschema => ?_, fun fields => ?_, fun f => sameOptions_normalizeField⟩
  · rw [List.map_map, List.forall₂_map_right_iff, List.forall₂_same]
    exact fun f hf => SameField.round_trip (hschema f hf)
  · rw [List.map_map]
    exact List.map_congr_left fun f _ => fieldsToSchema_idempotent f

/-- A number of at most ten, in the nested format. -/
def rating : Raw :=
  [("name", .text "rating"), ("type", .text "number"), ("required", .bool true),
    ("options", .obj [("max", .num 10)])]

theorem nested_rating : Nested rating where
  nodup := by decide
  core := by decide
  options v hv := by
    obtain rfl := Option.some.inj hv
    exact ⟨_, rfl, List.nodup_singleton _, by decide⟩

theorem rating_converts :
    List.Forall₂ SameField [rating] ([rating].map schemaToFields |>.map fieldsToSchema) ∧
      ∃ g, normalizeField rating = some g ∧ SameOptions g (fieldsToSchema rating) :=
  ⟨formats_convert.1 [rating] fun _ h => List.mem_singleton.1 h ▸ nested_rating,
    formats_convert.2.2 rating (.inr ⟨_, rfl⟩)⟩

end FieldFormats

end PPBase
