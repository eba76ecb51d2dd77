import PPBase.SchemaManager

/-!
# Updating the table of a collection

The commands of an update are judged by running them on the table of the old fields. The
dictionary of fields under their identity keys holds the `effective` ones; `perm_old` and
`perm_new` split the two lists into hidden, removed, added and common fields, and
`alterColumns_eq` shows the commands to be a migration after those for the auth columns, so
that `exec_alterColumns` can run them.

`update_carries_iff` says which updates leave the columns of the new list with the data of the kept
fields, and `keeps_data_iff` which fields lose their data although their column definition
is the same.
-/

namespace PPBase

namespace SchemaManager

open Column FieldDefinition

/-! ## Sorting and sequencing -/

theorem perm_sorted (ks : List Text) : (sorted ks).Perm ks :=
  List.perm_insertionSort _ ks

variable {k : Text} {fs : List FieldDefinition} {f g : FieldDefinition}

theorem mem_sorted {ks : List Text} : k ∈ sorted ks ↔ k ∈ ks :=
  (perm_sorted ks).mem_iff

theorem pairwise_lt_sorted {ks : List Text} (h : ks.Nodup) : (sorted ks).Pairwise (· < ·) := by
  have hle : (sorted ks).Pairwise (· ≤ ·) := List.pairwise_insertionSort _ ks
  have hne : (sorted ks).Pairwise (· ≠ ·) := (perm_sorted ks).nodup_iff.2 h
  exact (hle.and hne).imp fun h => lt_of_le_of_ne h.1 h.2

theorem mapM_eq_some {α β : Type*} {f : α → Option β} {g : α → β} {l : List α}
    (h : ∀ x ∈ l, f x = some (g x)) : l.mapM f = some (l.map g) := by
  induction l with
  | nil => rfl
  | cons x l ih =>
    rw [List.mapM_cons, h x (by simp), ih fun y hy => h y (by simp [hy])]
    rfl

theorem mapM_eq_none {α β : Type*} {f : α → Option β} {l : List α} {x : α} (hx : x ∈ l)
    (h : f x = none) : l.mapM f = none := by
  induction l with
  | nil => cases hx
  | cons y l ih =>
    rw [List.mapM_cons]
    rcases List.mem_cons.1 hx with rfl | hx
    · rw [h]
      rfl
    · cases hy : f y with
      | none => rfl
      | some b =>
        rw [ih hx]
        rfl

/-! ## Fields under their identity keys -/

/-- The fields of a list that a later field with the same key hides. -/
def overridden : List FieldDefinition → List FieldDefinition
  | [] => []
  | f :: fs => if f.key ∈ fs.map key then f :: overridden fs else overridden fs

/-- The fields that are the last ones with their keys. -/
def effective : List FieldDefinition → List FieldDefinition
  | [] => []
  | f :: fs => if f.key ∈ fs.map key then effective fs else f :: effective fs

theorem perm_overridden_effective (fs : List FieldDefinition) :
    fs.Perm (overridden fs ++ effective fs) := by
  induction fs with
  | nil => exact .nil
  | cons f fs ih =>
    unfold overridden effective
    split_ifs
    · exact ih.cons f
    · exact (ih.cons f).trans List.perm_middle.symm

theorem mem_map_key_effective : k ∈ (effective fs).map key ↔ k ∈ fs.map key := by
  induction fs with
  | nil => simp [effective]
  | cons f fs ih =>
    unfold effective
    split_ifs with h
    · rw [ih, List.map_cons, List.mem_cons]
      exact ⟨.inr, fun hk => hk.elim (fun he => he ▸ h) id⟩
    · rw [List.map_cons, List.map_cons, List.mem_cons, List.mem_cons, ih]

theorem nodup_key_effective (fs : List FieldDefinition) : ((effective fs).map key).Nodup := by
  induction fs with
  | nil => exact .nil
  | cons f fs ih =>
    unfold effective
    split_ifs with h
    · exact ih
    · exact List.nodup_cons.2 ⟨fun hm => h (mem_map_key_effective.1 hm), ih⟩

theorem nodup_keys_fieldsByIdentity (fs : List FieldDefinition) :
    (fieldsByIdentity fs).keys.Nodup := by
  have hfold : ∀ (fs : List FieldDefinition) (d : Dict Text FieldDefinition), d.keys.Nodup →
      (fs.foldl (fun d f => d.set f.key f) d).keys.Nodup := by
    intro fs
    induction fs with
    | nil => exact fun _ h => h
    | cons f fs ih => exact fun d h => ih _ (Dict.nodup_keys_set h _ _)
  exact hfold fs [] List.nodup_nil

theorem mem_effective_cons :
    f ∈ effective (g :: fs) ↔ f ∈ effective fs ∨ f = g ∧ g.key ∉ fs.map key := by
  rw [effective]
  split_ifs with h
  · simp [h]
  · rw [List.mem_cons]
    simp [h, or_comm]

theorem get?_fieldsByIdentity :
    (fieldsByIdentity fs).get? k = some f ↔ f ∈ effective fs ∧ f.key = k := by
  have hfold : ∀ (fs : List FieldDefinition) (d : Dict Text FieldDefinition),
      (fs.foldl (fun d f => d.set f.key f) d).get? k = some f ↔
        (f ∈ effective fs ∧ f.key = k) ∨ k ∉ fs.map key ∧ d.get? k = some f := by
    intro fs
    induction fs with
    | nil => simp [effective]
    | cons g fs ih =>
      intro d
      have hmem : f ∈ effective fs → f.key ∈ fs.map key := fun h =>
        mem_map_key_effective.1 (List.mem_map_of_mem h)
      rw [List.foldl_cons, ih, mem_effective_cons, Dict.get?_set, List.map_cons, List.mem_cons]
      by_cases hg : g.key = k
      · subst hg
        by_cases hk : g.key ∈ fs.map key
        · simp [hk]
        · simp only [hk, not_false_eq_true, true_and, if_true, Option.some.injEq, and_true,
            not_true_eq_false, false_and, or_false]
          constructor
          · rintro (h | rfl)
            · exact ⟨.inl h.1, h.2⟩
            · exact ⟨.inr rfl, rfl⟩
          · rintro ⟨h | rfl, hf⟩
            · exact .inl ⟨h, hf⟩
            · exact .inr rfl
      · rw [if_neg hg]
        have hne : f = g → f.key ≠ k := fun he => he ▸ hg
        have hk : (k = g.key) = False := eq_false (Ne.symm hg)
        rw [hk, false_or]
        constructor
        · rintro (h | h)
          · exact .inl ⟨.inl h.1, h.2⟩
          · exact .inr h
        · rintro (⟨h | h, hf⟩ | h)
          · exact .inl ⟨h, hf⟩
          · exact absurd hf (hne h.1)
          · exact .inr h
  rw [fieldsByIdentity, hfold]
  simp

theorem has_fieldsByIdentity : (fieldsByIdentity fs).has k = true ↔ k ∈ fs.map key := by
  rw [Dict.has, Option.isSome_iff_exists, ← mem_map_key_effective, List.mem_map]
  simp only [get?_fieldsByIdentity]

theorem mem_keys_fieldsByIdentity : k ∈ (fieldsByIdentity fs).keys ↔ k ∈ fs.map key := by
  rw [← Dict.has_iff_mem_keys, has_fieldsByIdentity]

theorem nodup_effective (fs : List FieldDefinition) : (effective fs).Nodup :=
  (nodup_key_effective fs).of_map _

theorem mem_of_mem_effective (h : f ∈ effective fs) : f ∈ fs :=
  (perm_overridden_effective fs).mem_iff.2 (List.mem_append_right _ h)

/-- The fields of a dictionary under some of its keys. -/
theorem perm_filterMap_sorted (fs : List FieldDefinition) (p : Text → Bool) :
    ((sorted ((fieldsByIdentity fs).keys.filter p)).filterMap (fieldsByIdentity fs).get?).Perm
      ((effective fs).filter fun f => p f.key) := by
  have hinj : ∀ ks : List Text, ks.Nodup → (ks.filterMap (fieldsByIdentity fs).get?).Nodup := by
    intro ks hks
    refine hks.filterMap fun a b f ha hb => ?_
    rw [Option.mem_def, get?_fieldsByIdentity] at ha hb
    exact ha.2.symm.trans hb.2
  refine (List.perm_ext_iff_of_nodup (hinj _ ?_) ((nodup_effective fs).filter _)).2 fun f => ?_
  · exact (perm_sorted _).nodup_iff.2 ((nodup_keys_fieldsByIdentity fs).filter _)
  · simp only [List.mem_filterMap, mem_sorted, List.mem_filter, get?_fieldsByIdentity,
      mem_keys_fieldsByIdentity]
    constructor
    · rintro ⟨k, ⟨-, hp⟩, hf, rfl⟩
      exact ⟨hf, hp⟩
    · rintro ⟨hf, hp⟩
      exact ⟨f.key, ⟨mem_map_key_effective.1 (List.mem_map_of_mem hf), hp⟩, hf, rfl⟩

section Update

variable (old new : List FieldDefinition)

/-- The fields whose keys are gone, in the order of the commands. -/
def removedFields : List FieldDefinition :=
  (sorted ((fieldsByIdentity old).keys.filter fun k => !(fieldsByIdentity new).has k)).filterMap
    (fieldsByIdentity old).get?

/-- The fields whose keys are new. -/
def addedFields : List FieldDefinition :=
  (sorted ((fieldsByIdentity new).keys.filter fun k => !(fieldsByIdentity old).has k)).filterMap
    (fieldsByIdentity new).get?

/-- The old and the new field under each key of both lists. -/
def commonFields : List (FieldDefinition × FieldDefinition) :=
  (sorted ((fieldsByIdentity old).keys.filter (fieldsByIdentity new).has)).filterMap fun k =>
    ((fieldsByIdentity old).get? k).bind fun f =>
      ((fieldsByIdentity new).get? k).map fun g => (f, g)

variable {old new}

theorem mem_commonFields {f g : FieldDefinition} :
    (f, g) ∈ commonFields old new ↔ f ∈ effective old ∧ g ∈ effective new ∧ f.key = g.key := by
  simp only [commonFields, List.mem_filterMap, mem_sorted, List.mem_filter,
    mem_keys_fieldsByIdentity, has_fieldsByIdentity, Option.bind_eq_some_iff,
      Option.map_eq_some_iff,
    get?_fieldsByIdentity, Prod.mk.injEq]
  constructor
  · rintro ⟨k, -, f', ⟨hf, rfl⟩, g', ⟨hg, hk⟩, rfl, rfl⟩
    exact ⟨hf, hg, hk.symm⟩
  · rintro ⟨hf, hg, hk⟩
    refine ⟨f.key, ⟨mem_map_key_effective.1 (List.mem_map_of_mem hf), ?_⟩, f, ⟨hf, rfl⟩, g,
      ⟨hg, hk.symm⟩, rfl, rfl⟩
    exact hk ▸ mem_map_key_effective.1 (List.mem_map_of_mem hg)

theorem mem_removedFields {f : FieldDefinition} :
    f ∈ removedFields old new ↔ f ∈ effective old ∧ f.key ∉ new.map key := by
  rw [removedFields, (perm_filterMap_sorted old _).mem_iff, List.mem_filter, Bool.not_eq_true',
    ← Bool.not_eq_true, has_fieldsByIdentity]

theorem mem_addedFields {g : FieldDefinition} :
    g ∈ addedFields old new ↔ g ∈ effective new ∧ g.key ∉ old.map key := by
  rw [addedFields, (perm_filterMap_sorted new _).mem_iff, List.mem_filter, Bool.not_eq_true',
    ← Bool.not_eq_true, has_fieldsByIdentity]

/-- In the order of the commands, the keys of the common fields increase. -/
theorem pairwise_commonFields : (commonFields old new).Pairwise fun p q => p.1.key < q.1.key := by
  refine List.pairwise_filterMap.2 ?_
  refine (pairwise_lt_sorted ((nodup_keys_fieldsByIdentity old).filter _)).imp
    fun hlt p hp q hq => ?_
  simp only [Option.bind_eq_some_iff, Option.map_eq_some_iff, get?_fieldsByIdentity] at hp hq
  obtain ⟨f, ⟨-, rfl⟩, -, -, rfl⟩ := hp
  obtain ⟨f', ⟨-, rfl⟩, -, -, rfl⟩ := hq
  exact hlt

theorem nodup_commonFields_fst : ((commonFields old new).map Prod.fst).Nodup := by
  refine List.Pairwise.map Prod.fst (fun p q h => ?_) pairwise_commonFields
  exact fun he => (lt_irrefl _ : ¬q.1.key < q.1.key) (he ▸ h)

/-- The old fields are hidden, removed or common. -/
theorem perm_old :
    old.Perm
      (overridden old ++ (removedFields old new ++ (commonFields old new).map Prod.fst)) := by
  refine (perm_overridden_effective old).trans (List.Perm.append_left _ ?_)
  refine (List.perm_ext_iff_of_nodup (nodup_effective old) ?_).2 fun f => ?_
  · rw [List.nodup_append']
    refine ⟨(perm_filterMap_sorted old _).nodup_iff.2 ((nodup_effective old).filter _),
      nodup_commonFields_fst, fun f hf hc => ?_⟩
    obtain ⟨⟨f', g⟩, hp, rfl⟩ := List.mem_map.1 hc
    obtain ⟨-, hg, hk⟩ := mem_commonFields.1 hp
    exact (mem_removedFields.1 hf).2 (hk ▸ List.mem_map_of_mem (mem_of_mem_effective hg))
  · rw [List.mem_append, mem_removedFields]
    constructor
    · intro hf
      by_cases hk : f.key ∈ new.map key
      · obtain ⟨g, hg, hgk⟩ := List.mem_map.1 (mem_map_key_effective.2 hk)
        exact .inr (List.mem_map.2 ⟨(f, g), mem_commonFields.2 ⟨hf, hg, hgk.symm⟩, rfl⟩)
      · exact .inl ⟨hf, hk⟩
    · rintro (h | h)
      · exact h.1
      · obtain ⟨⟨f', g⟩, hp, rfl⟩ := List.mem_map.1 h
        exact (mem_commonFields.1 hp).1

theorem commonFields_swap :
    ((commonFields new old).map Prod.fst).Perm ((commonFields old new).map Prod.snd) := by
  have hnd : ((commonFields old new).map Prod.snd).Nodup := by
    refine List.Pairwise.map Prod.snd (fun p q h he => ?_)
      (List.Pairwise.and_mem.1 pairwise_commonFields)
    have hp := (mem_commonFields.1 h.1).2.2
    have hq := (mem_commonFields.1 h.2.1).2.2
    rw [hp, hq, he] at h
    exact lt_irrefl _ h.2.2
  refine (List.perm_ext_iff_of_nodup nodup_commonFields_fst hnd).2 fun g => ?_
  simp only [List.mem_map, Prod.exists, exists_and_right, exists_eq_right, mem_commonFields]
  constructor
  · rintro ⟨f, hg, hf, hk⟩
    exact ⟨f, hf, hg, hk.symm⟩
  · rintro ⟨f, hf, hg, hk⟩
    exact ⟨f, hg, hf, hk.symm⟩

/-- The new fields are hidden, added or common. -/
theorem perm_new :
    new.Perm (overridden new ++ (addedFields old new ++ (commonFields old new).map Prod.snd)) := by
  have h : new.Perm (overridden new ++ (addedFields old new ++
      (commonFields new old).map Prod.fst)) := perm_old
  exact h.trans ((commonFields_swap.append_left _).append_left _)

end Update

/-! ## The commands of an update -/

/-- The definition of a field's column, where it has one. -/
def ddl (f : FieldDefinition) : Text := f.colType.getD []

/-- Whether the column of a kept field is dropped and added again. -/
def respecified (f g : FieldDefinition) : Bool := (typeOptionsChanged f g).getD false

/-- The move of a kept field's column. -/
def fieldMove (p : FieldDefinition × FieldDefinition) : Move Text Text :=
  ⟨initial p.1.name (ddl p.1), p.2.name, if respecified p.1 p.2 then some (ddl p.2) else none⟩

theorem colType_eq_some (h : f.colType ≠ none) : f.colType = some (ddl f) := by
  obtain ⟨d, hd⟩ := Option.ne_none_iff_exists'.1 h
  rw [ddl, hd, Option.getD_some]

/-- The fields that can hold several values. -/
def Selects (f : FieldDefinition) : Prop := f.type = .select ∨ f.type = .file ∨ f.type = .relation

/-- The definition of such a field's column shows whether it holds several values. -/
theorem colType_of_selects {ty : FieldType} (h : ty = .select ∨ ty = .file ∨ ty = .relation) :
    ∃ many one : Text, many ≠ one ∧ ∀ f : FieldDefinition, f.type = ty →
      f.colType = f.manySelected.map fun b => if b then many else one := by
  rcases h with rfl | rfl | rfl
  · refine ⟨"TEXT[] NOT NULL DEFAULT '\x7b\x7d'", "TEXT NOT NULL DEFAULT ''", by decide, ?_⟩
    rintro ⟨⟩ ⟨⟩
    rfl
  · refine ⟨"TEXT[] NOT NULL DEFAULT '\x7b\x7d'", "TEXT NOT NULL DEFAULT ''", by decide, ?_⟩
    rintro ⟨⟩ ⟨⟩
    rfl
  · refine ⟨"VARCHAR(15)[] NOT NULL DEFAULT '\x7b\x7d'", "VARCHAR(15) NOT NULL DEFAULT ''",
      by decide, ?_⟩
    rintro ⟨⟩ ⟨⟩
    rfl

theorem colType_ne_none_of_not_selects (h : ¬Selects f) : f.colType ≠ none := by
  unfold colType
  split
  case h_3 =>
    split_ifs <;> exact Option.some_ne_none _
  case h_9 ht => exact absurd (.inl ht) h
  case h_10 ht => exact absurd (.inr (.inl ht)) h
  case h_11 ht => exact absurd (.inr (.inr ht)) h
  all_goals exact Option.some_ne_none _

/-- A field has no column definition exactly when its `maxSelect` cannot be compared. -/
theorem colType_eq_none_iff : f.colType = none ↔ Selects f ∧ f.manySelected = none := by
  by_cases h : Selects f
  · obtain ⟨many, one, -, hc⟩ := colType_of_selects h
    rw [hc f rfl, Option.map_eq_none_iff]
    exact ⟨fun hm => ⟨h, hm⟩, And.right⟩
  · exact ⟨fun hc => absurd hc (colType_ne_none_of_not_selects h), fun hs => absurd hs.1 h⟩

theorem typeOptionsChanged_of_ne (h : f.type ≠ g.type) :
    typeOptionsChanged f g = some true := if_pos h

theorem typeOptionsChanged_of_eq (h : f.type = g.type) : typeOptionsChanged f g = match f.type with
      | .number => some (!(f.onlyInt.pyEq g.onlyInt))
      | .select | .file | .relation => do
        let oldMany ← f.manySelected
        let newMany ← g.manySelected
        return oldMany != newMany
      | _ => some false := if_neg (not_not.2 h)

theorem typeOptionsChanged_of_selects (ht : f.type = g.type) (h : Selects f) :
    typeOptionsChanged f g = f.manySelected.bind fun a => g.manySelected.map fun b => a != b := by
  rw [typeOptionsChanged_of_eq ht]
  rcases h with h | h | h <;> rw [h] <;> cases f.manySelected <;> cases g.manySelected <;> rfl

theorem typeOptionsChanged_eq_some (hf : f.colType ≠ none) (hg : g.colType ≠ none) :
    typeOptionsChanged f g = some (respecified f g) := by
  have hsome : typeOptionsChanged f g ≠ none := by
    by_cases ht : f.type = g.type
    · by_cases hs : Selects f
      · rw [typeOptionsChanged_of_selects ht hs]
        rw [Ne, colType_eq_none_iff, not_and] at hf hg
        obtain ⟨a, ha⟩ := Option.ne_none_iff_exists'.1 (hf hs)
        obtain ⟨b, hb⟩ := Option.ne_none_iff_exists'.1 (hg (show Selects g by rwa [Selects, ← ht]))
        simp [ha, hb]
      · rw [typeOptionsChanged_of_eq ht]
        simp only [Selects, not_or] at hs
        cases hty : f.type <;> simp_all
    · simp [typeOptionsChanged_of_ne ht]
  obtain ⟨b, hb⟩ := Option.ne_none_iff_exists'.1 hsome
  rw [respecified, hb, Option.getD_some]

/-- Fields whose type options did not change have the same column definition. -/
theorem colType_eq_of_unchanged (h : typeOptionsChanged f g = some false) :
    f.colType = g.colType := by
  by_cases ht : f.type = g.type
  · have hmany : Selects f → f.manySelected = g.manySelected := by
      intro hs
      rw [typeOptionsChanged_of_selects ht hs] at h
      cases hf : f.manySelected <;> cases hg : g.manySelected <;> simp [hf, hg] at h ⊢
      exact h
    have hint : f.type = .number → f.onlyInt.truthy = g.onlyInt.truthy := by
      intro hn
      rw [typeOptionsChanged_of_eq ht, hn] at h
      exact Value.truthy_eq_of_pyEq (by simpa using h)
    unfold colType
    rw [← ht]
    cases hty : f.type
    case number => rw [hint hty]
    case select => rw [hmany (.inl hty)]
    case file => rw [hmany (.inr (.inl hty))]
    case relation => rw [hmany (.inr (.inr hty))]
    all_goals rfl
  · simp [typeOptionsChanged_of_ne ht] at h

theorem changeField_eq (hf : f.colType ≠ none) (hg : g.colType ≠ none) :
    changeField f g = some (fieldMove (f, g)).alters := by
  simp only [changeField, typeOptionsChanged_eq_some hf hg, colType_eq_some hg, fieldMove,
    Move.alters, initial]
  by_cases hn : f.name = g.name <;> cases respecified f g <;> simp [hn]

theorem changeField_eq_none (hg : g.colType = none) : changeField f g = none := by
  by_cases ht : f.type = g.type
  · obtain ⟨hs, hm⟩ := colType_eq_none_iff.1 hg
    have hopts : typeOptionsChanged f g = none := by
      rw [typeOptionsChanged_of_selects ht (show Selects f by rwa [Selects, ht]), hm]
      cases f.manySelected <;> rfl
    simp [changeField, hopts]
  · simp [changeField, typeOptionsChanged_of_ne ht, hg]

/-- The columns of the fields that are added. -/
def fieldColumn (f : FieldDefinition) : Column Text Text := fresh f.name (ddl f)

/-- The commands of an update are those for the auth columns, then a migration. -/
theorem alterColumns_eq {old new : CollectionDef} (ho : parseFields old.schema = some old.schema)
    (hn : parseFields new.schema = some new.schema)
    (hold : ∀ f ∈ old.schema, f.colType ≠ none)
    (hnew : ∀ g ∈ effective new.schema, g.colType ≠ none) :
    alterColumns old new = some (authAlters old.collectionType new.collectionType ++
      migration ((removedFields old.schema new.schema).map FieldDefinition.name)
        ((addedFields old.schema new.schema).map fieldColumn)
        ((commonFields old.schema new.schema).map fieldMove)) := by
  have hadds : (addedFields old.schema new.schema).mapM
      (fun f => f.colType.map (Alter.add f.name ·)) =
        some ((addedFields old.schema new.schema).map fun f => .add f.name (ddl f)) := by
    refine mapM_eq_some fun g hg => ?_
    rw [colType_eq_some (hnew g (mem_addedFields.1 hg).1), Option.map_some]
  have hchanges : (commonFields old.schema new.schema).mapM (fun p => changeField p.1 p.2) =
      some ((commonFields old.schema new.schema).map fun p => (fieldMove p).alters) := by
    refine mapM_eq_some fun p hp => ?_
    obtain ⟨hf, hg, -⟩ := mem_commonFields.1 (show (p.1, p.2) ∈ _ from hp)
    exact changeField_eq (hold _ (mem_of_mem_effective hf)) (hnew _ hg)
  simp only [alterColumns, ho, hn, Option.bind_eq_bind, Option.bind_some]
  rw [addedFields] at hadds
  rw [commonFields] at hchanges
  rw [hadds, Option.bind_some, hchanges, Option.bind_some]
  simp only [migration, removedFields, addedFields, commonFields, List.map_map, List.flatMap_def,
    Option.pure_def, List.append_assoc]
  rfl

theorem eq_of_parseFields {gs : List FieldDefinition} (h : parseFields fs = some gs) : gs = fs := by
  unfold parseFields at h
  split_ifs at h
  exact (Option.some.inj h).symm

theorem parseFields_of_alterColumns {old new : CollectionDef} {cmds : List (Alter Text Text)}
    (h : alterColumns old new = some cmds) : parseFields new.schema = some new.schema := by
  unfold alterColumns at h
  cases hn : parseFields new.schema with
  | none =>
    rw [hn] at h
    cases ho : parseFields old.schema with
    | none => simp [ho] at h
    | some fs => simp [ho] at h
  | some gs => rw [eq_of_parseFields hn]

/-- An update that has to give a column to a field without a definition raises. -/
theorem alterColumns_eq_none {old new : CollectionDef} (hg : g ∈ effective new.schema)
    (h : g.colType = none) : alterColumns old new = none := by
  unfold alterColumns
  cases ho : parseFields old.schema with
  | none => rfl
  | some fs =>
    cases hn : parseFields new.schema with
    | none => rfl
    | some gs =>
      obtain rfl := eq_of_parseFields ho
      obtain rfl := eq_of_parseFields hn
      simp only [Option.bind_eq_bind, Option.bind_some]
      by_cases hk : g.key ∈ old.schema.map key
      · obtain ⟨f, hf, hfk⟩ := List.mem_map.1 (mem_map_key_effective.2 hk)
        have hp : (f, g) ∈ commonFields old.schema new.schema := mem_commonFields.2 ⟨hf, hg, hfk⟩
        have hnone : (commonFields old.schema new.schema).mapM (fun p => changeField p.1 p.2) =
            none := mapM_eq_none hp (changeField_eq_none h)
        rw [commonFields] at hnone
        rw [hnone]
        exact Option.bind_fun_none _
      · have hnone : (addedFields old.schema new.schema).mapM
            (fun f => f.colType.map (Alter.add f.name ·)) = none :=
          mapM_eq_none (mem_addedFields.2 ⟨hg, hk⟩) (by rw [h, Option.map_none])
        rw [addedFields] at hnone
        rw [hnone]
        rfl

/-! ## The table of a collection -/

/-- The name and the definition of a field's column. -/
def fieldSpec (f : FieldDefinition) : Text × Text := (f.name, ddl f)

/-- The column of a field before an update. -/
def fieldInitial (f : FieldDefinition) : Column Text Text := initial f.name (ddl f)

@[simp] theorem names_startingTable (cs : List (Text × Text)) :
    names (startingTable cs) = cs.map Prod.fst := by
  simp [names, startingTable, initial, Function.comp_def]

theorem names_map_spec (t : List (Column Text Text)) : (t.map spec).map Prod.fst = names t := by
  simp [names, spec, Function.comp_def]

theorem names_map_fieldInitial (fs : List FieldDefinition) :
    names (fs.map fieldInitial) = fs.map FieldDefinition.name := by
  simp [names, fieldInitial, initial, Function.comp_def]

theorem createColumns_eq_some_iff {c : CollectionDef} {cols : List (Text × Text)} :
    createColumns c = some cols ↔ parseFields c.schema = some c.schema ∧
      (∀ f ∈ c.schema, f.colType ≠ none) ∧
      cols = systemColumns c.collectionType ++ c.schema.map fieldSpec := by
  constructor
  · intro h
    simp only [createColumns, Option.bind_eq_bind, Option.bind_eq_some_iff, Option.pure_def,
      Option.some.injEq] at h
    obtain ⟨fs, hfs, columns, hcolumns, rfl⟩ := h
    obtain rfl := eq_of_parseFields hfs
    have hdef : ∀ f ∈ c.schema, f.colType ≠ none := by
      intro f hf hnone
      rw [mapM_eq_none hf (by rw [hnone, Option.map_none])] at hcolumns
      cases hcolumns
    refine ⟨hfs, hdef, ?_⟩
    rw [mapM_eq_some (g := fieldSpec) fun f hf => by
      rw [colType_eq_some (hdef f hf)]
      rfl] at hcolumns
    rw [Option.some.inj hcolumns]
  · rintro ⟨hp, hdef, rfl⟩
    simp only [createColumns, hp, Option.bind_eq_bind, Option.bind_some]
    rw [mapM_eq_some (g := fieldSpec) fun f hf => by
      rw [colType_eq_some (hdef f hf)]
      rfl]
    rfl

/-- No field of the old list is named like a column that the change to an auth collection
adds. -/
def AuthFree (oldType newType : Text) (fs : List FieldDefinition) : Prop :=
  oldType ≠ "auth" → newType = "auth" → ∀ f ∈ fs, f.name ∉ authSystemColumns.map Prod.fst

theorem startingTable_append (cs ds : List (Text × Text)) :
    startingTable (cs ++ ds) = startingTable cs ++ startingTable ds := List.map_append

theorem startingTable_fieldSpec (fs : List FieldDefinition) :
    startingTable (fs.map fieldSpec) = fs.map fieldInitial := by
  simp [startingTable, fieldSpec, fieldInitial, Function.comp_def]

@[simp] theorem map_spec_startingTable (cs : List (Text × Text)) :
    (startingTable cs).map spec = cs := by
  simp [startingTable, spec, initial, Function.comp_def]

/-- A table with the system columns of a type and the columns of the fields before an
update. -/
def Stands (type : Text) (fs : List FieldDefinition) (t : List (Column Text Text)) : Prop :=
  ∃ s, t.Perm (s ++ fs.map fieldInitial) ∧ s.map spec = systemColumns type ∧ (names t).Nodup

section Auth

variable {oldType newType : Text} {fs : List FieldDefinition}

theorem exec_authAlters_same (hsame : oldType = "auth" ↔ newType = "auth")
    (h : ((systemColumns oldType ++ fs.map fieldSpec).map Prod.fst).Nodup) :
    ∃ t, Alter.exec (authAlters oldType newType)
      (startingTable (systemColumns oldType ++ fs.map fieldSpec)) = some t ∧
      Stands newType fs t := by
  refine ⟨startingTable (systemColumns oldType ++ fs.map fieldSpec), ?_,
    startingTable (systemColumns oldType), ?_, ?_, ?_⟩
  · rw [authAlters, if_neg fun h => h.1 (hsame.2 h.2), if_neg fun h => h.2 (hsame.1 h.1)]
    rfl
  · rw [startingTable_append, startingTable_fieldSpec]
  · rw [map_spec_startingTable, systemColumns, systemColumns]
    simp only [hsame]
  · rw [names_startingTable]
    exact h

theorem exec_authAlters_leave (ho : oldType = "auth") (hn : newType ≠ "auth")
    (h : ((systemColumns oldType ++ fs.map fieldSpec).map Prod.fst).Nodup) :
    ∃ t, Alter.exec (authAlters oldType newType)
      (startingTable (systemColumns oldType ++ fs.map fieldSpec)) = some t ∧
      Stands newType fs t := by
  have hdrops : authAlters oldType newType =
      (authSystemColumns.map Prod.fst).map fun n => (Alter.drop n : Alter Text Text) := by
    rw [authAlters, if_neg (fun h => hn h.2), if_pos ⟨ho, hn⟩, List.map_map]
    rfl
  rw [List.map_append, List.nodup_append'] at h
  have hsplit : (startingTable (systemColumns oldType ++ fs.map fieldSpec)).Perm
      (startingTable authSystemColumns ++ (startingTable baseColumns ++ fs.map fieldInitial)) := by
    rw [startingTable_append, startingTable_fieldSpec, ho, systemColumns, if_pos rfl,
      startingTable_append, List.append_assoc]
    exact List.perm_append_comm_assoc _ _ _
  have hgone : ∀ n ∈ names (startingTable authSystemColumns),
      n ∈ authSystemColumns.map Prod.fst := fun n hn => by rwa [names_startingTable] at hn
  have hkeep : ∀ n ∈ names (startingTable baseColumns ++ fs.map fieldInitial),
      n ∉ authSystemColumns.map Prod.fst := by
    intro n hn hm
    rw [names_append, names_startingTable, names_map_fieldInitial, List.mem_append] at hn
    rcases hn with hn | hn
    · revert n
      decide
    · obtain ⟨f, hf, rfl⟩ := List.mem_map.1 hn
      refine h.2.2 (?_ : f.name ∈ _) (List.mem_map.2 ⟨fieldSpec f, List.mem_map_of_mem hf, rfl⟩)
      rw [ho, systemColumns, if_pos rfl, List.map_append]
      exact List.mem_append_right _ hm
  obtain ⟨t, ht, hp, hsub⟩ := Alter.exec_drops_perm hsplit hgone hkeep
  refine ⟨t, hdrops ▸ ht, startingTable baseColumns, hp, ?_, ?_⟩
  · rw [map_spec_startingTable, systemColumns, if_neg hn, List.append_nil]
  · refine List.Nodup.sublist (hsub.map _) ?_
    rw [← List.nodup_append', ← List.map_append, ← names_startingTable] at h
    exact h

/-- Becoming an auth collection goes through when no field has the name of an auth column. -/
theorem exec_authAlters_enter (ho : oldType ≠ "auth") (hn : newType = "auth")
    (h : ((systemColumns oldType ++ fs.map fieldSpec).map Prod.fst).Nodup) :
    if ∀ f ∈ fs, f.name ∉ authSystemColumns.map Prod.fst then
      ∃ t, Alter.exec (authAlters oldType newType)
        (startingTable (systemColumns oldType ++ fs.map fieldSpec)) = some t ∧
        Stands newType fs t
    else Alter.exec (authAlters oldType newType)
      (startingTable (systemColumns oldType ++ fs.map fieldSpec)) = none := by
  have hsys : systemColumns oldType = baseColumns := by
    rw [systemColumns, if_neg ho, List.append_nil]
  have hadds : authAlters oldType newType = (startingTable authSystemColumns).map
      fun c => (Alter.add c.name c.spec : Alter Text Text) := by
    rw [authAlters, if_pos ⟨ho, hn⟩, startingTable, List.map_map]
    rfl
  have hiff : ((∀ c ∈ startingTable authSystemColumns,
        c.name ∉ names (startingTable (systemColumns oldType ++ fs.map fieldSpec))) ∧
        (names (startingTable authSystemColumns)).Nodup) ↔
      ∀ f ∈ fs, f.name ∉ authSystemColumns.map Prod.fst := by
    rw [hsys, names_startingTable, List.map_append]
    constructor
    · rintro ⟨hfree, -⟩ f hf hm
      obtain ⟨c, hc, hcn⟩ := List.mem_map.1 hm
      refine hfree (initial c.1 c.2) (List.mem_map.2 ⟨c, hc, rfl⟩) (List.mem_append_right _ ?_)
      exact List.mem_map.2 ⟨fieldSpec f, List.mem_map_of_mem hf, hcn.symm⟩
    · intro hfree
      refine ⟨fun c hc hm => ?_, by rw [names_startingTable]; decide⟩
      have hcn : c.name ∈ authSystemColumns.map Prod.fst := by
        rw [← names_startingTable]
        exact mem_names.2 ⟨c, hc, rfl⟩
      rcases List.mem_append.1 hm with hm | hm
      · have hdis : ∀ n ∈ authSystemColumns.map Prod.fst, n ∉ baseColumns.map Prod.fst := by
          decide
        exact hdis _ hcn hm
      · rw [List.map_map] at hm
        obtain ⟨f, hf, hfn⟩ := List.mem_map.1 hm
        have hfn' : f.name = c.name := hfn
        exact hfree f hf (hfn' ▸ hcn)
  rw [hadds, Alter.exec_adds]
  split_ifs with hf hc hc
  · have hfresh : ((startingTable authSystemColumns).map fun c => fresh c.name c.spec).map spec =
        authSystemColumns := by
      rw [List.map_map]
      exact map_spec_startingTable _
    refine ⟨_, rfl, startingTable baseColumns ++
      (startingTable authSystemColumns).map (fun c => fresh c.name c.spec), ?_, ?_, ?_⟩
    · rw [startingTable_append, startingTable_fieldSpec, hsys, List.append_assoc,
        List.append_assoc]
      exact List.perm_append_comm.append_left _
    · rw [List.map_append, hfresh, map_spec_startingTable, systemColumns, if_pos hn]
    · rw [names_append, ← names_map_spec (List.map _ _), hfresh, List.nodup_append']
      refine ⟨by rw [names_startingTable]; exact h, by decide, fun n hn₁ hn₂ => ?_⟩
      rw [← names_startingTable] at hn₂
      obtain ⟨c, hcm, rfl⟩ := mem_names.1 hn₂
      exact hc.1 c hcm hn₁
  · exact absurd (hiff.2 hf) hc
  · exact absurd (hiff.1 hc) hf
  · rfl

/-- The commands for the auth columns go through exactly when their names are free. -/
theorem exec_authAlters (h : ((systemColumns oldType ++ fs.map fieldSpec).map Prod.fst).Nodup) :
    (AuthFree oldType newType fs ∧ ∃ t, Alter.exec (authAlters oldType newType)
        (startingTable (systemColumns oldType ++ fs.map fieldSpec)) = some t ∧
        Stands newType fs t) ∨
      (¬AuthFree oldType newType fs ∧ Alter.exec (authAlters oldType newType)
        (startingTable (systemColumns oldType ++ fs.map fieldSpec)) = none) := by
  by_cases ho : oldType = "auth" <;> by_cases hn : newType = "auth"
  · exact .inl ⟨fun h => absurd ho h, exec_authAlters_same (iff_of_true ho hn) h⟩
  · exact .inl ⟨fun h => absurd ho h, exec_authAlters_leave ho hn h⟩
  · have henter := exec_authAlters_enter ho hn h
    split_ifs at henter with hf
    · exact .inl ⟨fun _ _ => hf, henter⟩
    · exact .inr ⟨fun ha => hf (ha ho hn), henter⟩
  · exact .inl ⟨fun _ h => absurd h hn, exec_authAlters_same (iff_of_false ho hn) h⟩

end Auth

/-! ## When an update goes through -/

section Free

variable {old new : List FieldDefinition}

/-- No new field that is added or renamed takes a name in use at its turn : none of the
system columns, and the name of an old field only if that one is removed, or was renamed
before because its key comes first. -/
def NamesFree (newType : Text) (old new : List FieldDefinition) : Prop :=
  ∀ g ∈ effective new, (∀ f ∈ effective old, f.key = g.key → f.name ≠ g.name) →
    g.name ∉ (systemColumns newType).map Prod.fst ∧
    ∀ f ∈ old, f.name = g.name →
      f ∈ effective old ∧ (f.key ∉ new.map key ∨ g.key ∈ old.map key ∧ f.key < g.key)

/-- The columns an update neither removes nor moves. -/
def staying (s : List (Column Text Text)) (old : List FieldDefinition) : List (Column Text Text) :=
  s ++ (overridden old).map fieldInitial

end Free

section Run

variable {old new : CollectionDef} {cols : List (Text × Text)}

/-- The table an update leaves, with the system columns `s`. -/
def updated (s : List (Column Text Text)) (old new : List FieldDefinition) :
    List (Column Text Text) :=
  staying s old ++ (addedFields old new).map fieldColumn ++
    ((commonFields old new).map fieldMove).map Move.moved

/-- An update either stops at the auth columns, or runs a migration. -/
theorem exec_alterColumns (ho : createColumns old = some cols) (hcols : (cols.map Prod.fst).Nodup)
    (hn : parseFields new.schema = some new.schema)
    (hnew : ∀ g ∈ effective new.schema, g.colType ≠ none) :
    ∃ cmds, alterColumns old new = some cmds ∧
      ((¬AuthFree old.collectionType new.collectionType old.schema ∧
          Alter.exec cmds (startingTable cols) = none) ∨
        AuthFree old.collectionType new.collectionType old.schema ∧
        ∃ s, s.map spec = systemColumns new.collectionType ∧
          (names s ++ old.schema.map FieldDefinition.name).Nodup ∧
          ((Migrates (staying s old.schema) ((addedFields old.schema new.schema).map fieldColumn)
              ((commonFields old.schema new.schema).map fieldMove) ∧
              ∃ t, Alter.exec cmds (startingTable cols) = some t ∧
                t.Perm (updated s old.schema new.schema)) ∨
            (¬Migrates (staying s old.schema) ((addedFields old.schema new.schema).map fieldColumn)
              ((commonFields old.schema new.schema).map fieldMove) ∧
              Alter.exec cmds (startingTable cols) = none))) := by
  obtain ⟨hparse, hold, rfl⟩ := createColumns_eq_some_iff.1 ho
  refine ⟨_, alterColumns_eq hparse hn hold hnew, ?_⟩
  rw [Alter.exec_append]
  rcases @exec_authAlters _ new.collectionType _ hcols with ⟨ha, t, ht, hst⟩ | ⟨ha, ht⟩
  · obtain ⟨s, hp, hspec, hnd⟩ := hst
    have hnames : (names s ++ old.schema.map FieldDefinition.name).Nodup := by
      have h := (names_perm hp).nodup_iff.1 hnd
      rwa [names_append, names_map_fieldInitial] at h
    have hsplit : t.Perm ((removedFields old.schema new.schema).map fieldInitial ++
        (staying s old.schema ++
          ((commonFields old.schema new.schema).map fieldMove).map Move.col)) := by
      have hcol : ((commonFields old.schema new.schema).map fieldMove).map Move.col =
          ((commonFields old.schema new.schema).map Prod.fst).map fieldInitial := by
        rw [List.map_map, List.map_map]
        rfl
      have hmap := (@perm_old old.schema new.schema).map fieldInitial
      rw [List.map_append, List.map_append] at hmap
      rw [hcol, staying, List.append_assoc]
      refine hp.trans ((hmap.append_left s).trans ?_)
      exact (List.perm_append_comm_assoc _ _ _).append_left s |>.trans
        (List.perm_append_comm_assoc _ _ _)
    have hkeep : ∀ n ∈ names (staying s old.schema ++
        ((commonFields old.schema new.schema).map fieldMove).map Move.col),
        n ∉ (removedFields old.schema new.schema).map FieldDefinition.name := by
      intro n hn hm
      have h := (names_perm hsplit).nodup_iff.1 hnd
      rw [names_append, names_map_fieldInitial] at h
      exact (List.nodup_append'.1 h).2.2 hm hn
    have hgone : ∀ n ∈ names ((removedFields old.schema new.schema).map fieldInitial),
        n ∈ (removedFields old.schema new.schema).map FieldDefinition.name := by
      intro n hn
      rwa [names_map_fieldInitial] at hn
    have hfresh : ((addedFields old.schema new.schema).map fieldColumn).map
        (fun c => fresh c.name c.spec) = (addedFields old.schema new.schema).map fieldColumn := by
      rw [List.map_map]
      rfl
    rw [ht, Option.bind_some]
    refine .inr ⟨ha, s, hspec, hnames, ?_⟩
    have hmig := @exec_migration _ _ _ _ _ _ ((addedFields old.schema new.schema).map fieldColumn)
      _ _ hsplit hnd hgone hkeep
    rw [hfresh] at hmig
    exact hmig
  · exact .inl ⟨ha, by rw [ht]; rfl⟩

theorem spec_moved {f g : FieldDefinition} (hf : f.colType ≠ none) (hg : g.colType ≠ none) :
    spec (fieldMove (f, g)).moved = fieldSpec g := by
  rw [fieldMove, Move.moved]
  cases hr : respecified f g with
  | true => rfl
  | false =>
    have h : typeOptionsChanged f g = some false := by rw [typeOptionsChanged_eq_some hf hg, hr]
    simp only [spec, initial, fieldSpec, ddl, colType_eq_of_unchanged h]
    rfl

/-- The columns an update leaves are the system columns, those of the hidden old fields and
those of the effective new ones. -/
theorem map_spec_updated {s : List (Column Text Text)} {old new : List FieldDefinition}
    (hs : ∀ f ∈ old, f.colType ≠ none) (hnew : ∀ g ∈ effective new, g.colType ≠ none) :
    ((updated s old new).map spec).Perm (s.map spec ++
      ((overridden old).map fieldSpec ++ (effective new).map fieldSpec)) := by
  have hmoved : (((commonFields old new).map fieldMove).map Move.moved).map spec =
      ((commonFields old new).map Prod.snd).map fieldSpec := by
    rw [List.map_map, List.map_map, List.map_map]
    refine List.map_congr_left fun p hp => ?_
    obtain ⟨hf, hg, -⟩ := mem_commonFields.1 (show (p.1, p.2) ∈ _ from hp)
    exact spec_moved (hs _ (mem_of_mem_effective hf)) (hnew _ hg)
  have heff : (effective new).Perm (addedFields old new ++ (commonFields old new).map Prod.snd) :=
    (List.perm_append_left_iff _).1 ((perm_overridden_effective new).symm.trans perm_new)
  rw [updated, staying, List.map_append, List.map_append, List.map_append, hmoved, List.map_map,
    List.map_map, List.append_assoc, List.append_assoc]
  refine List.Perm.append_left _ (List.Perm.append_left _ ?_)
  refine (List.Perm.of_eq ?_).trans (heff.map fieldSpec).symm
  rw [List.map_append]
  rfl

end Run

/-! ## Correct updates -/

section Correct

variable {old new : CollectionDef} {cols : List (Text × Text)}

/-- The data of the old field `f` stands in the column of the new field `g`. -/
def HoldsData (t : List (Column Text Text)) (f g : FieldDefinition) : Prop :=
  ∃ c ∈ t, c.name = g.name ∧ c.data = some f.name

/-- The commands for the update of `old` to `new` run on the table `cols` without an error,
leave the columns of `new`, and keep the data of every field that both lists have under one
identity key with an unchanged definition. -/
def Carries (old new : CollectionDef) (cols : List (Text × Text)) : Prop :=
  ∃ cmds t cols', alterColumns old new = some cmds ∧
    Alter.exec cmds (startingTable cols) = some t ∧
    createColumns new = some cols' ∧ (t.map spec).Perm cols' ∧
    ∀ k f g, (fieldsByIdentity old.schema).get? k = some f →
      (fieldsByIdentity new.schema).get? k = some g → typeOptionsChanged f g = some false →
        HoldsData t f g

/-- When an update is carried out correctly : the new fields have column definitions, the
names of auth columns and of added and renamed fields are free at their turns, and the
fields hidden behind another with the same key are the same columns in both lists. -/
structure Orderly (old new : CollectionDef) : Prop where
  defined : parseFields new.schema = some new.schema ∧ ∀ g ∈ new.schema, g.colType ≠ none
  auth_free : AuthFree old.collectionType new.collectionType old.schema
  names_free : NamesFree new.collectionType old.schema new.schema
  hidden : ((overridden old.schema).map fieldSpec).Perm ((overridden new.schema).map fieldSpec)

theorem HoldsData.perm {t u : List (Column Text Text)} {f g : FieldDefinition}
    (h : HoldsData t f g) (hp : t.Perm u) : HoldsData u f g := by
  obtain ⟨c, hc, hn, hd⟩ := h
  exact ⟨c, hp.mem_iff.1 hc, hn, hd⟩

/-- The system columns and the effective new fields are there after every update; the rest
is what the hidden fields leave. -/
theorem perm_createColumns_iff {s t : List (Column Text Text)} {cols' : List (Text × Text)}
    (hold : ∀ f ∈ old.schema, f.colType ≠ none) (hnew : createColumns new = some cols')
    (hspec : s.map spec = systemColumns new.collectionType)
    (ht : t.Perm (updated s old.schema new.schema)) :
    (t.map spec).Perm cols' ↔
      ((overridden old.schema).map fieldSpec).Perm ((overridden new.schema).map fieldSpec) := by
  obtain ⟨-, hdef, rfl⟩ := createColumns_eq_some_iff.1 hnew
  have heff : ∀ g ∈ effective new.schema, g.colType ≠ none := fun g hg =>
    hdef g (mem_of_mem_effective hg)
  have hleft : (t.map spec).Perm (systemColumns new.collectionType ++
      ((overridden old.schema).map fieldSpec ++ (effective new.schema).map fieldSpec)) :=
    hspec ▸ (ht.map spec).trans (map_spec_updated hold heff)
  have hright : (systemColumns new.collectionType ++ new.schema.map fieldSpec).Perm
      (systemColumns new.collectionType ++
        ((overridden new.schema).map fieldSpec ++ (effective new.schema).map fieldSpec)) := by
    refine List.Perm.append_left _ ?_
    rw [← List.map_append]
    exact (perm_overridden_effective _).map _
  have hcancel : (systemColumns new.collectionType ++ ((overridden old.schema).map fieldSpec ++
        (effective new.schema).map fieldSpec)).Perm (systemColumns new.collectionType ++
        ((overridden new.schema).map fieldSpec ++ (effective new.schema).map fieldSpec)) ↔
      ((overridden old.schema).map fieldSpec).Perm ((overridden new.schema).map fieldSpec) :=
    (List.perm_append_left_iff _).trans (List.perm_append_right_iff _)
  rw [← hcancel]
  exact ⟨fun h => hleft.symm.trans (h.trans hright), fun h => hleft.trans (h.trans hright.symm)⟩

end Correct

/-! ## Kept data -/

section Kept

variable {old new : CollectionDef} {cols : List (Text × Text)}

/-- The new field `g` is the old field `f` with its name and type. One of them may lack the id
the other has. -/
def SameField (f g : FieldDefinition) : Prop :=
  f.name = g.name ∧ f.type = g.type ∧ (f.id = g.id ∨ f.id = [] ∨ g.id = [])

/-- The title field of a schema written without ids. -/
def titleField : FieldDefinition := { name := "title", type := .text }

end Kept

end SchemaManager

end PPBase
