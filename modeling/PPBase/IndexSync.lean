import Mathlib.Data.List.Dedup
import PPBase.DdlNames
import PPBase.ManagedIndexes

/-!
# The indexes after an update of a table

An index is on columns, whatever they are called : it follows a column that is renamed and goes with
a column that is dropped (`withoutDropped`). `_sync_collection_indexes` drops an index if its
statement changed and creates it again, and it compares an index that stays with its statement, read
over the columns of the new names.

Dropping and creating are loops in which every step reads and writes one name (`dropIndex_eq`,
`createIndex_eq`). So the update succeeds and leaves the indexes of the new definition exactly if
every index whose statement stays, word for word, is on columns that keep their names, or is gone
(`synchronized_iff`).
-/

namespace PPBase

namespace IndexSync

open Column Ddl SchemaManager IndexSql ManagedIndexes

/-! ## Columns -/

/-- A column : one that the table had before the update, by its name then, or one that was added. -/
inductive Attribute where
  | before (name : Text)
  | added (name : Text)
  deriving DecidableEq

/-- The column of a name. -/
def resolve (t : List (Column Text Text)) (name : Text) : Attribute :=
  match (t.find? (·.name = name)).bind (·.data) with
  | some n => .before n
  | none => .added name

/-- The column is not in the table any more. -/
def Attribute.Dropped (t : List (Column Text Text)) : Attribute → Prop
  | .before n => ∀ c ∈ t, c.data ≠ some n
  | .added _ => False

instance (t : List (Column Text Text)) : DecidablePred (Attribute.Dropped t)
  | .before _ => inferInstanceAs (Decidable (∀ c ∈ t, _))
  | .added _ => .isFalse id

/-- What PostgreSQL reads in the statement of an index : the names of columns in it, and the rest of
the definition. -/
structure IndexParser (φ : Type) where
  columns : Text → List Text
  shape : Text → φ

/-- The definition of an index, on columns. -/
abbrev Definition (φ : Type) := φ × List Attribute

section

variable {φ : Type} [DecidableEq φ] (pg : IndexParser φ)

/-- What PostgreSQL makes of the statement of an index on a table with these columns. -/
def definitionOf (t : List (Column Text Text)) (statement : Text) : Definition φ :=
  (pg.shape statement, (pg.columns statement).map (resolve t))

/-- A column of the index is dropped, and the index with it. -/
def Lost (t : List (Column Text Text)) (d : Definition φ) : Prop := ∃ a ∈ d.2, a.Dropped t

instance (t : List (Column Text Text)) (d : Definition φ) : Decidable (Lost t d) :=
  inferInstanceAs (Decidable (∃ a ∈ d.2, _))

/-! ## The catalog -/

/-- The relation after its table has another name. -/
def renameOwner {σ : Type} (old new : Text) :
    ManagedIndexes.Relation σ → ManagedIndexes.Relation σ
  | .index owner definition => .index (if owner = old then new else owner) definition
  | .other => .other

/-- `ALTER TABLE … RENAME TO`, if the name changed. A name that is taken is an error. -/
def renameRelation {σ : Type} (old new : Text) (db : IndexCatalog σ) : Option (IndexCatalog σ) :=
  if old = new then some db
  else if (db new).isSome then none
  else some fun n =>
    if n = new then db old else if n = old then none else (db n).map (renameOwner old new)

/-- The catalog after the columns of a table became these. -/
def withoutDropped (table : Text) (t : List (Column Text Text))
    (db : IndexCatalog (Definition φ)) : IndexCatalog (Definition φ) := fun n =>
  match db n with
  | some (.index owner d) =>
    if owner = table ∧ Lost t d then none else some (.index owner d)
  | r => r

/-- The table has exactly these indexes, on its columns. -/
def Carries (t : List (Column Text Text)) (table : Text) (expected : Dict Text Text)
    (db : IndexCatalog (Definition φ)) : Prop :=
  ∀ n d, db n = some (.index table d) ↔ ∃ s, expected.get? n = some s ∧ definitionOf pg t s = d

end

section

variable (sha256 : Text → List (Fin 16)) (isAlnum : Char → Bool)

/-- `expected_collection_index_statements` -/
def expectedCollectionIndexStatements (r : CollectionRecord) : Option (Dict Text Text) :=
  let type := r.toDef.collectionType
  if type = "view" then some []
  else if type ≠ "base" ∧ type ≠ "auth" then none
  else do
    let managed ← managedIndexes sha256 r
    let custom ← customIndexesByStoredName isAlnum (customIndexes r)
    validateManagedCustomIndexNames managed custom
    let table ← safeName r.name
    let normalizedCustom ← custom.mapM fun p =>
      (normalizeIndexStatementTarget isAlnum p.2 table).map (p.1, ·)
    let expected := managed.foldl (fun d p =>
      Dict.set d (truncatePostgresIdentifier p.1) p.2.statement.text) ([] : Dict Text Text)
    return expected.update normalizedCustom

variable {sha256 isAlnum}

/-! ## Names as they are stored -/

theorem truncate_truncate (n : Text) :
    truncatePostgresIdentifier (truncatePostgresIdentifier n) = truncatePostgresIdentifier n :=
  takeBytes_of_le (bytes_takeBytes_le 63 n)

theorem truncate_of_safeName {s t : Text} (h : safeName s = some t) :
    truncatePostgresIdentifier s = s := by
  rw [safeName] at h
  split_ifs at h with hs
  exact takeBytes_of_le hs.2

/-- Different names, as PostgreSQL stores them. -/
structure StoredNames (names : List Text) : Prop where
  nodup : names.Nodup
  stored : ∀ n ∈ names, truncatePostgresIdentifier n = n

variable {n : Text} {r : CollectionRecord} {expected : Dict Text Text}

theorem StoredNames.set {α : Type} {d : Dict Text α} (h : StoredNames d.keys)
    (hn : truncatePostgresIdentifier n = n) (v : α) : StoredNames (d.set n v).keys := by
  refine ⟨Dict.nodup_keys_set h.nodup n v, fun m hm => ?_⟩
  obtain ⟨e, he, rfl⟩ := List.mem_map.1 hm
  rcases Dict.mem_set he with rfl | he
  · exact hn
  · exact h.stored _ (List.mem_map_of_mem he)

theorem storedNames_nil {α : Type} : StoredNames (Dict.keys ([] : Dict Text α)) :=
  ⟨List.nodup_nil, nofun⟩

theorem StoredNames.setIndex {d : Dict Text ManagedIndex} (h : StoredNames d.keys) (table : Text)
    (unique : Bool) (column : Text) (keys : Statement) :
    StoredNames (setIndex sha256 table unique column keys d).keys :=
  h.set (takeBytes_of_le (bytes_boundedIndexName_le sha256)) _

theorem storedNames_managed {d : Dict Text ManagedIndex} (h : managedIndexes sha256 r = some d) :
    StoredNames d.keys := by
  obtain ⟨table, -, h⟩ := Option.bind_eq_some_iff.1 h
  obtain ⟨fields, -, h⟩ := Option.bind_eq_some_iff.1 h
  refine Failing.foldlM_some_invariant (P := fun d : Dict Text ManagedIndex => StoredNames d.keys)
    (fun f _ d d' hd hf => ?_) ?_ h
  · obtain ⟨keys?, -, hf⟩ := Option.bind_eq_some_iff.1 hf
    cases keys? with
    | none => exact Option.some.inj hf ▸ hd
    | some keys => exact Option.some.inj hf ▸ hd.setIndex table false f.name keys
  · have hcreated : StoredNames
        (setIndex sha256 table false "created" (btreeKeys "created") []).keys :=
      storedNames_nil.setIndex table false "created" _
    unfold systemIndexes
    dsimp only
    split_ifs
    · exact (hcreated.setIndex table true "email" _).setIndex table false "token_key" _
    · exact hcreated

theorem storedNames_custom {statements : List Text} {d : Dict Text Text}
    (h : customIndexesByStoredName isAlnum statements = some d) : StoredNames d.keys := by
  refine Failing.foldlM_some_invariant (P := fun d : Dict Text Text => StoredNames d.keys)
    (fun s _ d d' hd hs => ?_) storedNames_nil h
  obtain ⟨name, -, hs⟩ := Option.bind_eq_some_iff.1 hs
  dsimp only at hs
  split_ifs at hs
  exact Option.some.inj hs ▸ hd.set (truncate_truncate name) s

/-! ## The expected indexes -/

variable (sha256 isAlnum) in
/-- The indexes of a collection, managed and custom. -/
structure Indexes (r : CollectionRecord) (managed : Dict Text ManagedIndex)
    (custom : Dict Text Text) : Prop where
  managed_eq : managedIndexes sha256 r = some managed
  custom_eq : customIndexesByStoredName isAlnum (customIndexes r) = some custom
  valid : validateManagedCustomIndexNames managed custom = some ()
  safe : safeName r.name = some r.name
  targets : ∀ n raw, custom.get? n = some raw →
    ∃ s, normalizeIndexStatementTarget isAlnum raw r.name = some s

theorem Indexes.disjoint {managed : Dict Text ManagedIndex} {custom : Dict Text Text}
    (h : Indexes sha256 isAlnum r managed custom) (hn : n ∈ managed.keys) :
    custom.get? n = none := by
  have hall := h.valid
  rw [validateManagedCustomIndexNames] at hall
  have hfree := (Option.guard_eq_some' ()).1 hall n hn
  rw [(storedNames_managed h.managed_eq).stored n hn] at hfree
  exact Option.not_isSome_iff_eq_none.1 (by simpa [Dict.has] using hfree)

variable (sha256 isAlnum) in
/-- The expected statement of a name is that of the managed index, or that of the custom index on
the qualified table. -/
structure Expects (r : CollectionRecord) (managed : Dict Text ManagedIndex)
    (custom : Dict Text Text) (expected : Dict Text Text) : Prop
    extends Indexes sha256 isAlnum r managed custom where
  get?_iff : ∀ n s, expected.get? n = some s ↔
    (∃ i, managed.get? n = some i ∧ i.statement.text = s) ∨
      ∃ raw, custom.get? n = some raw ∧ normalizeIndexStatementTarget isAlnum raw r.name = some s

theorem exists_expects (hview : r.toDef.collectionType ≠ "view")
    (h : expectedCollectionIndexStatements sha256 isAlnum r = some expected) :
    ∃ managed custom, Expects sha256 isAlnum r managed custom expected := by
  unfold expectedCollectionIndexStatements at h
  dsimp only at h
  rw [if_neg hview] at h
  split_ifs at h
  obtain ⟨managed, hmanaged, h⟩ := Option.bind_eq_some_iff.1 h
  obtain ⟨custom, hcustom, h⟩ := Option.bind_eq_some_iff.1 h
  obtain ⟨⟨⟩, hvalid, h⟩ := Option.bind_eq_some_iff.1 h
  obtain ⟨table, htable, h⟩ := Option.bind_eq_some_iff.1 h
  obtain rfl := eq_of_safeName htable
  obtain ⟨normalized, hnormalized, h⟩ := Option.bind_eq_some_iff.1 h
  have hstored := storedNames_managed hmanaged
  obtain ⟨hkeys, hget⟩ := Dict.get?_mapM
    (f := fun raw => normalizeIndexStatementTarget isAlnum raw r.name) hnormalized
  have htargets : ∀ n raw, custom.get? n = some raw →
      ∃ s, normalizeIndexStatementTarget isAlnum raw r.name = some s := by
    intro n raw hraw
    have hn : (Dict.get? normalized n).isSome := by
      rw [← Dict.has, Dict.has_iff_mem_keys, hkeys, ← Dict.has_iff_mem_keys, Dict.has, hraw]
      rfl
    rw [hget, hraw] at hn
    exact Option.isSome_iff_exists.1 hn
  have hindexes : Indexes sha256 isAlnum r managed custom :=
    ⟨hmanaged, hcustom, hvalid, htable, htargets⟩
  refine ⟨managed, custom, hindexes, fun n s => ?_⟩
  have hmap : managed.map (fun p => truncatePostgresIdentifier p.1) = managed.keys :=
    List.map_congr_left fun p hp => hstored.stored _ (List.mem_map_of_mem hp)
  have hfold : (managed.foldl (fun d p =>
      Dict.set d (truncatePostgresIdentifier p.1) p.2.statement.text) ([] : Dict Text Text)) =
        managed.map fun p => (p.1, p.2.statement.text) := by
    rw [Dict.foldl_set_eq (fun p : Text × ManagedIndex => truncatePostgresIdentifier p.1)
      (fun p => p.2.statement.text) managed [] (by rw [hmap]; exact hstored.nodup), List.nil_append]
    refine List.map_congr_left fun p hp => ?_
    rw [hstored.stored _ (List.mem_map_of_mem hp)]
  have htext : Dict.get? (managed.map fun p => (p.1, p.2.statement.text)) n =
      (managed.get? n).map (·.statement.text) :=
    Dict.get?_map (fun _ (i : ManagedIndex) => i.statement.text) managed n
  have hnodup : (Dict.keys normalized).Nodup := hkeys ▸ (storedNames_custom hcustom).nodup
  rw [← Option.some.inj h, Dict.get?_update hnodup, hfold, htext, hget]
  cases hn : managed.get? n with
  | none => simp [Option.bind_eq_some_iff]
  | some i =>
    have hnone := hindexes.disjoint (Dict.has_iff_mem_keys.1 (by rw [Dict.has, hn]; rfl))
    simp [hnone]

theorem Expects.mem_keys_iff {managed : Dict Text ManagedIndex} {custom : Dict Text Text}
    (h : Expects sha256 isAlnum r managed custom expected) :
    n ∈ managed.keys ∨ n ∈ custom.keys ↔ ∃ s, expected.get? n = some s := by
  rw [← Dict.has_iff_mem_keys, ← Dict.has_iff_mem_keys, Dict.has, Dict.has,
    Option.isSome_iff_exists, Option.isSome_iff_exists]
  simp only [h.get?_iff]
  constructor
  · rintro (⟨i, hi⟩ | ⟨raw, hraw⟩)
    · exact ⟨_, .inl ⟨i, hi, rfl⟩⟩
    · obtain ⟨s, hs⟩ := h.targets n raw hraw
      exact ⟨s, .inr ⟨raw, hraw, hs⟩⟩
  · rintro ⟨s, ⟨i, hi, -⟩ | ⟨raw, hraw, -⟩⟩
    · exact .inl ⟨i, hi⟩
    · exact .inr ⟨raw, hraw⟩

/-! ## Dropping and creating -/

section

variable {σ : Type} {definitionOf : Text → σ}

/-- What `_drop_index_if_owned` makes of a name. -/
def dropStep (expected : List Text) (name : Text) :
    Option (ManagedIndexes.Relation σ) → Except IndexError (Option (ManagedIndexes.Relation σ))
  | none => .ok none
  | some .other => .error (.notAnIndex name)
  | some (.index owner _) =>
    if owner ∉ expected then .error (.wrongOwner "drop" name owner expected) else .ok none

theorem dropIndex_eq (expected : List Text) (db : IndexCatalog σ) (name : Text) :
    dropIndexIfOwned expected db name =
      (dropStep expected name (db (truncatePostgresIdentifier name))).map
        (Function.update db (truncatePostgresIdentifier name)) := by
  rw [dropIndexIfOwned, readIndexDefinition]
  cases hdb : db (truncatePostgresIdentifier name) with
  | none => exact congrArg Except.ok (Function.update_eq_self_iff.2 hdb.symm).symm
  | some r =>
    cases r with
    | other => rfl
    | index owner d =>
      simp only [dropStep, Failing.ok_bind]
      split_ifs <;> rfl

/-- A name is dropped without an error if nothing has it, or an index of an expected table. -/
theorem dropStep_eq_ok {expected : List Text} {name : Text}
    {found r : Option (ManagedIndexes.Relation σ)} (h : ∀ r ∈ found, r.OwnedBy expected) :
    dropStep expected name found = .ok r ↔ r = none := by
  cases found with
  | none => exact ⟨fun h => (Except.ok.inj h).symm, fun h => congrArg Except.ok h.symm⟩
  | some r' =>
    obtain ⟨owner, howner, d, rfl⟩ := h r' rfl
    rw [dropStep, if_neg (not_not.2 howner)]
    exact ⟨fun h => (Except.ok.inj h).symm, fun h => congrArg Except.ok h.symm⟩

variable [DecidableEq σ]

variable (isAlnum definitionOf) in
/-- What `_create_index_if_owned` makes of a name. -/
def createStep (table : Text) (index : Text × Text) (found : Option (ManagedIndexes.Relation σ)) :
    Except IndexError (Option (ManagedIndexes.Relation σ)) :=
  match safeName table, normalizeIndexStatementTarget isAlnum index.2 table with
  | none, _ => .error (.identifier table)
  | some _, none => .error .statement
  | some _, some text =>
    match found with
    | none => .ok (some (.index (truncatePostgresIdentifier table) (definitionOf text)))
    | some .other => .error (.notAnIndex index.1)
    | some (.index owner d) =>
      if owner ∉ expectedTableNames [table] then
        .error (.wrongOwner "create" index.1 owner (expectedTableNames [table]))
      else if d ≠ definitionOf text then .error (.differs index.1 owner)
      else .ok found

theorem createIndex_eq (table : Text) (db : IndexCatalog σ) (index : Text × Text) :
    createIndexIfOwned definitionOf isAlnum table db index =
      (createStep isAlnum definitionOf table index (db (truncatePostgresIdentifier index.1))).map
        (Function.update db (truncatePostgresIdentifier index.1)) := by
  obtain ⟨name, statement⟩ := index
  rw [createIndexIfOwned, createStep]
  cases safeName table with
  | none => rfl
  | some safe =>
    cases normalizeIndexStatementTarget isAlnum statement table with
    | none => rfl
    | some text =>
      dsimp only
      rw [readIndexDefinition]
      cases hdb : db (truncatePostgresIdentifier name) with
      | none => rfl
      | some r =>
        cases r with
        | other => rfl
        | index owner d =>
          simp only [Failing.ok_bind]
          split_ifs
          · rfl
          · exact congrArg Except.ok (Function.update_eq_self_iff.2 hdb.symm).symm
          · rfl

/-- An index is created if nothing has its name, and accepted if it is as it would be created. -/
theorem createStep_eq_ok {table : Text} {index : Text × Text} (htable : safeName table = some table)
    {found r : Option (ManagedIndexes.Relation σ)} :
    createStep isAlnum definitionOf table index found = .ok r ↔
      ∃ text, normalizeIndexStatementTarget isAlnum index.2 table = some text ∧
        (found = none ∨ found = some (.index table (definitionOf text))) ∧
          r = some (.index table (definitionOf text)) := by
  rw [createStep, htable]
  cases normalizeIndexStatementTarget isAlnum index.2 table with
  | none => exact iff_of_false (by rintro ⟨⟩) (by rintro ⟨_, ⟨⟩, _⟩)
  | some text =>
    simp only [truncate_of_safeName htable, expectedTableNames, List.map_cons, List.map_nil,
      Option.some.injEq, exists_eq_left']
    cases found with
    | none => simp [eq_comm]
    | some r' =>
      cases r' with
      | other => simp
      | index owner d =>
        by_cases howner : owner = table
        · by_cases hd : d = definitionOf text
          · simp [howner, hd, eq_comm]
          · simp [howner, hd]
        · simp [howner]

end

/-! ## The names that are dropped -/

variable {old new : CollectionRecord} {oldManaged newManaged : Dict Text ManagedIndex}
  {oldCustom newCustom : Dict Text Text}

variable (sha256 isAlnum old new) in
/-- The index has the same statement before and after the update, word for word. -/
def KeepsStatement (n : Text) : Prop :=
  (∃ oldManaged newManaged i j, managedIndexes sha256 old = some oldManaged ∧
    managedIndexes sha256 new = some newManaged ∧ oldManaged.get? n = some i ∧
      newManaged.get? n = some j ∧ j.statement.text = i.statement.text) ∨
  ∃ oldCustom newCustom raw,
    customIndexesByStoredName isAlnum (customIndexes old) = some oldCustom ∧
    customIndexesByStoredName isAlnum (customIndexes new) = some newCustom ∧
      oldCustom.get? n = some raw ∧ newCustom.get? n = some raw

theorem keepsStatement_iff (hold : Indexes sha256 isAlnum old oldManaged oldCustom)
    (hnew : Indexes sha256 isAlnum new newManaged newCustom) :
    KeepsStatement sha256 isAlnum old new n ↔
      (∃ i j, oldManaged.get? n = some i ∧ newManaged.get? n = some j ∧
        j.statement.text = i.statement.text) ∨
      ∃ raw, oldCustom.get? n = some raw ∧ newCustom.get? n = some raw := by
  simp only [KeepsStatement, hold.managed_eq, hnew.managed_eq, hold.custom_eq, hnew.custom_eq,
    Option.some.injEq, exists_and_left, exists_eq_left']

theorem mem_managedDrops (hkeys : oldManaged.keys.Nodup) :
    n ∈ managedDrops oldManaged newManaged ↔ ∃ i, oldManaged.get? n = some i ∧
      ∀ j, newManaged.get? n = some j → j.statement.text ≠ i.statement.text := by
  simp only [managedDrops, List.mem_map, List.mem_filter, decide_eq_true_eq, ne_eq,
    Option.map_eq_some_iff, not_exists, not_and]
  constructor
  · rintro ⟨p, ⟨hp, hne⟩, rfl⟩
    exact ⟨p.2, Dict.get?_of_mem hkeys hp, hne⟩
  · rintro ⟨i, hi, hne⟩
    exact ⟨(n, i), ⟨Dict.mem_of_get? hi, hne⟩, rfl⟩

theorem mem_customDrops (hold : Indexes sha256 isAlnum old oldManaged oldCustom)
    (hnew : Indexes sha256 isAlnum new newManaged newCustom) :
    ∃ drops, customDrops isAlnum old new newCustom = some drops ∧ ∀ n, n ∈ drops ↔
      ∃ raw, oldCustom.get? n = some raw ∧ newCustom.get? n ≠ some raw := by
  rw [customDrops]
  split_ifs with hsame
  · have heq := hold.custom_eq
    rw [hsame, hnew.custom_eq] at heq
    obtain rfl := Option.some.inj heq
    exact ⟨[], rfl, fun n => iff_of_false List.not_mem_nil fun ⟨_, h, hne⟩ => hne h⟩
  · rw [hold.custom_eq]
    refine ⟨_, rfl, fun n => ?_⟩
    simp only [List.mem_map, List.mem_filter, decide_eq_true_eq]
    constructor
    · rintro ⟨p, ⟨hp, hne⟩, rfl⟩
      exact ⟨p.2, Dict.get?_of_mem (storedNames_custom hold.custom_eq).nodup hp, hne⟩
    · rintro ⟨raw, hraw, hne⟩
      exact ⟨(n, raw), ⟨Dict.mem_of_get? hraw, hne⟩, rfl⟩

variable (sha256 isAlnum old new oldManaged oldCustom) in
/-- The old collection has an index of the name, with another statement. -/
def Outdated (n : Text) : Prop :=
  (n ∈ oldManaged.keys ∨ n ∈ oldCustom.keys) ∧ ¬KeepsStatement sha256 isAlnum old new n

theorem exists_drops (hold : Indexes sha256 isAlnum old oldManaged oldCustom)
    (hnew : Indexes sha256 isAlnum new newManaged newCustom) :
    ∃ drops, customDrops isAlnum old new newCustom = some drops ∧ ∀ n,
      n ∈ sorted (managedDrops oldManaged newManaged ++ drops).dedup ↔
        Outdated sha256 isAlnum old new oldManaged oldCustom n := by
  obtain ⟨drops, hdrops, hmem⟩ := mem_customDrops hold hnew
  refine ⟨drops, hdrops, fun n => ?_⟩
  have hstored := storedNames_managed hold.managed_eq
  rw [mem_sorted, List.mem_dedup, List.mem_append, mem_managedDrops hstored.nodup, hmem,
    Outdated, keepsStatement_iff hold hnew, ← Dict.has_iff_mem_keys, ← Dict.has_iff_mem_keys,
    Dict.has, Dict.has]
  cases hn : oldManaged.get? n with
  | some i =>
    have hnone := hold.disjoint (Dict.has_iff_mem_keys.1 (by rw [Dict.has, hn]; rfl))
    simp [hnone]
  | none => cases hc : oldCustom.get? n <;> simp

/-! ## The indexes before the synchronization -/

theorem renamed_index {σ : Type} {old new : Text} {db renamed : IndexCatalog σ}
    (howners : ∀ n owner d, db n = some (.index owner d) → db owner = some .other)
    (h : renameRelation old new db = some renamed) (n : Text) (d : σ) :
    renamed n = some (.index new d) ↔ db n = some (.index old d) := by
  rw [renameRelation] at h
  split_ifs at h with hsame htaken
  · rw [← Option.some.inj h, hsame]
  · have hfree := Option.not_isSome_iff_eq_none.1 htaken
    obtain rfl := Option.some.inj h
    constructor
    · intro hn
      dsimp only at hn
      split_ifs at hn
      · exact absurd (howners _ _ _ hn) (by rw [hfree]; nofun)
      · obtain ⟨r, hr, hrename⟩ := Option.map_eq_some_iff.1 hn
        cases r with
        | other => exact nomatch hrename
        | index owner d' =>
          obtain ⟨howner, rfl⟩ := Relation.index.inj hrename
          split_ifs at howner with heq
          · rw [hr, heq]
          · exact absurd (howners _ _ _ hr) (by rw [howner, hfree]; nofun)
    · intro hn
      have hne : n ≠ new := by
        rintro rfl
        exact absurd hn (by rw [hfree]; nofun)
      have hne' : n ≠ old := by
        rintro rfl
        exact absurd (hn.symm.trans (howners _ _ _ hn)) nofun
      dsimp only
      rw [if_neg hne, if_neg hne', hn, Option.map_some, renameOwner, if_pos rfl]

section

variable {φ : Type} {pg : IndexParser φ} {columns : List (Text × Text)}
  {t : List (Column Text Text)} {oldExpected newExpected : Dict Text Text}
  {db altered : IndexCatalog (Definition φ)}

theorem withoutDropped_eq {table : Text} {n : Text} {d : Definition φ} :
    withoutDropped table t db n = some (.index table d) ↔
      db n = some (.index table d) ∧ ¬Lost t d := by
  rw [withoutDropped]
  cases db n with
  | none => simp
  | some r =>
    cases r with
    | other => simp
    | index owner d' =>
      dsimp only
      split_ifs with hlost
      · refine iff_of_false nofun ?_
        rintro ⟨h, hnot⟩
        obtain ⟨rfl, rfl⟩ := Relation.index.inj (Option.some.inj h)
        exact hnot hlost.2
      · refine ⟨fun h => ⟨h, ?_⟩, And.left⟩
        obtain ⟨rfl, rfl⟩ := Relation.index.inj (Option.some.inj h)
        exact fun hl => hlost ⟨rfl, hl⟩

variable (sha256 isAlnum pg) in
/-- A collection's table, which had exactly the indexes of its definition, was renamed and its
columns became those of another definition. -/
structure AlteredTable (old new : CollectionRecord) (oldExpected newExpected : Dict Text Text)
    (columns : List (Text × Text)) (t : List (Column Text Text))
    (db altered : IndexCatalog (Definition φ)) : Prop where
  old_table : old.toDef.collectionType ≠ "view"
  new_table : new.toDef.collectionType ≠ "view"
  old_eq : expectedCollectionIndexStatements sha256 isAlnum old = some oldExpected
  new_eq : expectedCollectionIndexStatements sha256 isAlnum new = some newExpected
  /-- An index is on a table. -/
  owners : ∀ n owner d, db n = some (.index owner d) → db owner = some .other
  carries : Carries pg (startingTable columns) old.name oldExpected db
  columns_eq : ∃ alters, alterColumns old.toDef new.toDef = some alters ∧
    Alter.exec alters (startingTable columns) = some t
  catalog_eq : (renameRelation old.name new.name db).map (withoutDropped new.name t) = some altered
  /-- PostgreSQL reads the names of the columns between quotes. -/
  plain : ∀ f ∈ new.schema, Pg.Plain f.name
  /-- The statements name columns of the table. -/
  named : ∀ n s, newExpected.get? n = some s → ∀ c ∈ pg.columns s, c ∈ names t

/-- The table has the indexes of the old definition of which no column was dropped. -/
theorem AlteredTable.index
    (h : AlteredTable sha256 isAlnum pg old new oldExpected newExpected columns t db altered)
    (n : Text) (d : Definition φ) : altered n = some (.index new.name d) ↔
      ∃ s, oldExpected.get? n = some s ∧ definitionOf pg (startingTable columns) s = d ∧
        ¬Lost t d := by
  obtain ⟨renamed, hrenamed, rfl⟩ := Option.map_eq_some_iff.1 h.catalog_eq
  rw [withoutDropped_eq, renamed_index h.owners hrenamed, h.carries]
  simp only [and_assoc, ← exists_and_right]

/-- An old index is gone with one of its columns, or it is there on the columns that it had. -/
theorem AlteredTable.index_eq
    (h : AlteredTable sha256 isAlnum pg old new oldExpected newExpected columns t db altered)
    {n s : Text} (hn : oldExpected.get? n = some s) : altered n =
      if Lost t (definitionOf pg (startingTable columns) s) then none
      else some (.index new.name (definitionOf pg (startingTable columns) s)) := by
  obtain ⟨renamed, hrenamed, rfl⟩ := Option.map_eq_some_iff.1 h.catalog_eq
  have hdb := (renamed_index h.owners hrenamed n _).2 ((h.carries n _).2 ⟨s, hn, rfl⟩)
  rw [withoutDropped, hdb]
  dsimp only
  simp only [true_and]

theorem AlteredTable.owned
    (h : AlteredTable sha256 isAlnum pg old new oldExpected newExpected columns t db altered)
    {n s : Text} (hn : oldExpected.get? n = some s) : ∀ r ∈ altered n, r.OwnedBy [new.name] := by
  intro r hr
  rw [h.index_eq hn] at hr
  split_ifs at hr
  · exact nomatch hr
  · exact ⟨new.name, List.mem_cons_self, _, (Option.some.inj hr).symm⟩

theorem AlteredTable.owned_keys
    (h : AlteredTable sha256 isAlnum pg old new oldExpected newExpected columns t db altered)
    (hold : Expects sha256 isAlnum old oldManaged oldCustom oldExpected) :
    ∀ n, n ∈ oldManaged.keys ∨ n ∈ oldCustom.keys → ∀ r ∈ altered n, r.OwnedBy [new.name] := by
  intro n hn
  obtain ⟨s, hs⟩ := hold.mem_keys_iff.1 hn
  exact h.owned hs

end

/-! ## The synchronization -/

theorem storedNames_statements (hnew : Indexes sha256 isAlnum new newManaged newCustom) :
    StoredNames ((indexStatements newManaged newCustom).map Prod.fst) := by
  have hmanaged := storedNames_managed hnew.managed_eq
  have hcustom := storedNames_custom hnew.custom_eq
  have hkeys : (indexStatements newManaged newCustom).map Prod.fst =
      newManaged.keys ++ newCustom.keys := by
    simp [indexStatements, Dict.keys]
  rw [hkeys]
  refine ⟨List.nodup_append.2 ⟨hmanaged.nodup, hcustom.nodup, ?_⟩, fun n hn => ?_⟩
  · rintro n hn m hm rfl
    exact Dict.get?_eq_none_iff.1 (hnew.disjoint hn) hm
  · exact (List.mem_append.1 hn).elim (hmanaged.stored n) (hcustom.stored n)

section

variable {σ : Type} {definitionOf : Text → σ} {db db' : IndexCatalog σ}

theorem map_truncate {names : List Text} (h : StoredNames names) :
    names.map truncatePostgresIdentifier = names := by
  calc names.map truncatePostgresIdentifier = names.map id := List.map_congr_left h.stored
    _ = names := List.map_id names

theorem drops_eq {tables names : List Text} (hnames : StoredNames names)
    (howned : ∀ n ∈ names, ∀ r ∈ db n, r.OwnedBy tables) :
    names.foldlM (dropIndexIfOwned tables) db = .ok fun n => if n ∈ names then none else db n := by
  have hmap := map_truncate hnames
  refine (Failing.foldlM_update_eq_ok (g := truncatePostgresIdentifier) (dropIndex_eq tables)
    (by rw [hmap]; exact hnames.nodup)).2 ⟨fun n hn => ?_, fun n hn => ?_⟩
  · rw [hnames.stored n hn, dropStep_eq_ok (howned n hn), if_pos hn]
  · rw [hmap] at hn
    exact if_neg hn

variable [DecidableEq σ]

theorem creates_iff {table : Text} {indexes : List (Text × Text)}
    (htable : safeName table = some table) (hnames : StoredNames (indexes.map Prod.fst)) :
    indexes.foldlM (createIndexIfOwned definitionOf isAlnum table) db = .ok db' ↔
      (∀ p ∈ indexes, ∃ text, normalizeIndexStatementTarget isAlnum p.2 table = some text ∧
        (db p.1 = none ∨ db p.1 = some (.index table (definitionOf text))) ∧
          db' p.1 = some (.index table (definitionOf text))) ∧
      ∀ n ∉ indexes.map Prod.fst, db' n = db n := by
  have hstored : ∀ p ∈ indexes, truncatePostgresIdentifier p.1 = p.1 := fun p hp =>
    hnames.stored _ (List.mem_map_of_mem hp)
  have hmap : indexes.map (fun p => truncatePostgresIdentifier p.1) = indexes.map Prod.fst :=
    List.map_congr_left hstored
  rw [Failing.foldlM_update_eq_ok (createIndex_eq table) (by rw [hmap]; exact hnames.nodup), hmap]
  refine and_congr_left fun _ => forall₂_congr fun p hp => ?_
  rw [hstored p hp, createStep_eq_ok htable]

/-- The synchronization drops the names whose statement is not kept, and the statements of the new
collection can all be created, or accepted, after it. -/
theorem synced_iff (hold : Indexes sha256 isAlnum old oldManaged oldCustom)
    (hnew : Indexes sha256 isAlnum new newManaged newCustom)
    (howned : ∀ n, n ∈ oldManaged.keys ∨ n ∈ oldCustom.keys → ∀ r ∈ db n, r.OwnedBy [new.name]) :
    syncCollectionIndexes definitionOf isAlnum sha256 old new db = some (.ok db') ↔
      (∀ p ∈ indexStatements newManaged newCustom, ∃ text,
        normalizeIndexStatementTarget isAlnum p.2 new.name = some text ∧
          (Outdated sha256 isAlnum old new oldManaged oldCustom p.1 ∨ db p.1 = none ∨
            db p.1 = some (.index new.name (definitionOf text))) ∧
          db' p.1 = some (.index new.name (definitionOf text))) ∧
      ∀ n ∉ (indexStatements newManaged newCustom).map Prod.fst,
        (Outdated sha256 isAlnum old new oldManaged oldCustom n → db' n = none) ∧
          (¬Outdated sha256 isAlnum old new oldManaged oldCustom n → db' n = db n) := by
  obtain ⟨drops, hdrops, hmem⟩ := exists_drops hold hnew
  have hnames : StoredNames (sorted (managedDrops oldManaged newManaged ++ drops).dedup) := by
    refine ⟨(List.perm_insertionSort _ _).nodup_iff.2 (List.nodup_dedup _), fun n hn => ?_⟩
    exact ((hmem n).1 hn).1.elim ((storedNames_managed hold.managed_eq).stored n)
      ((storedNames_custom hold.custom_eq).stored n)
  have htables : expectedTableNames [old.name, new.name] = [old.name, new.name] := by
    simp [expectedTableNames, truncate_of_safeName hold.safe, truncate_of_safeName hnew.safe]
  have hdropped : ∀ n ∈ sorted (managedDrops oldManaged newManaged ++ drops).dedup,
      ∀ r ∈ db n, r.OwnedBy [old.name, new.name] := by
    intro n hn r hr
    obtain ⟨owner, howner, d, rfl⟩ := howned n ((hmem n).1 hn).1 r hr
    exact ⟨owner, List.mem_cons_of_mem _ howner, d, rfl⟩
  have hsync : syncCollectionIndexes definitionOf isAlnum sha256 old new db =
      some ((indexStatements newManaged newCustom).foldlM
        (createIndexIfOwned definitionOf isAlnum new.name) fun n =>
          if n ∈ sorted (managedDrops oldManaged newManaged ++ drops).dedup then none
          else db n) := by
    simp only [syncCollectionIndexes, hold.managed_eq, hnew.managed_eq, hnew.custom_eq, hnew.valid,
      hdrops, hold.safe, hnew.safe, Option.bind_eq_bind, Option.bind_some, Option.pure_def]
    rw [htables, drops_eq hnames hdropped]
    rfl
  rw [hsync, Option.some.injEq, creates_iff hnew.safe (storedNames_statements hnew)]
  constructor
  · rintro ⟨hin, hout⟩
    refine ⟨fun p hp => ?_, fun n hn => ⟨fun hd => ?_, fun hd => ?_⟩⟩
    · obtain ⟨text, htext, hfound, hresult⟩ := hin p hp
      refine ⟨text, htext, ?_, hresult⟩
      by_cases hd : Outdated sha256 isAlnum old new oldManaged oldCustom p.1
      · exact .inl hd
      · rw [if_neg (mt (hmem _).1 hd)] at hfound
        exact .inr hfound
    · rw [hout n hn, if_pos ((hmem n).2 hd)]
    · rw [hout n hn, if_neg (mt (hmem n).1 hd)]
  · rintro ⟨hin, hout⟩
    refine ⟨fun p hp => ?_, fun n hn => ?_⟩
    · obtain ⟨text, htext, hfound, hresult⟩ := hin p hp
      refine ⟨text, htext, ?_, hresult⟩
      split_ifs with hd
      · exact .inl rfl
      · exact hfound.resolve_left (mt (hmem _).2 hd)
    · split_ifs with hd
      · exact (hout n hn).1 ((hmem n).1 hd)
      · exact (hout n hn).2 (mt (hmem n).2 hd)

end

/-! ## Complete synchronization -/

theorem table_eq_of_normalize {raw table table' s s' : Text}
    (h : normalizeIndexStatementTarget isAlnum raw table = some s)
    (h' : normalizeIndexStatementTarget isAlnum raw table' = some s') : table = table' := by
  obtain ⟨p, hp, h⟩ := Option.bind_eq_some_iff.1 h
  obtain ⟨_, -, h⟩ := Option.bind_eq_some_iff.1 h
  obtain ⟨_, htable, -⟩ := Option.bind_eq_some_iff.1 h
  obtain ⟨p', hp', h'⟩ := Option.bind_eq_some_iff.1 h'
  obtain ⟨_, -, h'⟩ := Option.bind_eq_some_iff.1 h'
  obtain ⟨_, htable', -⟩ := Option.bind_eq_some_iff.1 h'
  obtain rfl := Option.some.inj (hp.symm.trans hp')
  exact ((Option.guard_eq_some' ()).1 htable).symm.trans ((Option.guard_eq_some' ()).1 htable')

/-- A managed statement on columns with plain names is read back as it is. -/
theorem normalize_eq_self (hmanaged : managedIndexes sha256 new = some newManaged)
    (hplain : ∀ f ∈ new.schema, Pg.Plain f.name) {p : Text × ManagedIndex} (hp : p ∈ newManaged)
    {text : Text}
    (h : normalizeIndexStatementTarget isAlnum p.2.statement.text new.name = some text) :
    text = p.2.statement.text := by
  have hsystem : ∀ c ∈ (["created", "email", "token_key"] : List Text), Pg.Plain c := by
    simp only [List.forall_mem_cons, List.not_mem_nil, false_imp_iff, implies_true, and_true]
    exact ⟨⟨by decide, by decide, by decide⟩, ⟨by decide, by decide, by decide⟩,
      by decide, by decide, by decide⟩
  obtain ⟨hsafe, hall⟩ := forall_managedIndexes sha256 hsystem hplain hmanaged
  obtain ⟨c, hm, hc⟩ := hall p hp
  have htable := plain_of_safeName hsafe
  have hname : Pg.Plain p.2.name := by
    rw [hm.name]
    exact plain_managedIndexName sha256 htable hc
  obtain ⟨k, hk, hkeys⟩ := hm.keys.exists_text
  have htext := text_statement hk
  rw [hm.table] at htext
  rw [htext] at h ⊢
  exact normalize_managed isAlnum p.2.unique hname.ne_nil hname.quote htable.ne_nil htable.quote
    hkeys h

/-- A statement that is kept is expected before and after the update. -/
theorem expected_of_keeps (hold : Expects sha256 isAlnum old oldManaged oldCustom oldExpected)
    (hnew : Expects sha256 isAlnum new newManaged newCustom newExpected)
    (h : KeepsStatement sha256 isAlnum old new n) :
    ∃ s, oldExpected.get? n = some s ∧ newExpected.get? n = some s := by
  rw [keepsStatement_iff hold.toIndexes hnew.toIndexes] at h
  rcases h with ⟨i, j, hi, hj, heq⟩ | ⟨raw, hraw, hraw'⟩
  · exact ⟨i.statement.text, (hold.get?_iff _ _).2 (.inl ⟨i, hi, rfl⟩),
      (hnew.get?_iff _ _).2 (.inl ⟨j, hj, heq⟩)⟩
  · obtain ⟨s, hs⟩ := hold.targets n raw hraw
    obtain ⟨s', hs'⟩ := hnew.targets n raw hraw'
    have htable := table_eq_of_normalize hs hs'
    rw [htable] at hs
    obtain rfl := Option.some.inj (hs.symm.trans hs')
    refine ⟨s, (hold.get?_iff _ _).2 (.inr ⟨raw, hraw, ?_⟩),
      (hnew.get?_iff _ _).2 (.inr ⟨raw, hraw', hs'⟩)⟩
    rw [htable]
    exact hs

variable (sha256 isAlnum) in
/-- The statements of the managed indexes are read back. -/
def Readable (r : CollectionRecord) : Prop :=
  ∀ managed, managedIndexes sha256 r = some managed → ∀ p ∈ managed,
    (normalizeIndexStatementTarget isAlnum p.2.statement.text r.name).isSome

/-- A statement of the new collection as it is read is the one that is expected. -/
theorem expected_of_mem (hnew : Expects sha256 isAlnum new newManaged newCustom newExpected)
    (hplain : ∀ f ∈ new.schema, Pg.Plain f.name) {p : Text × Text}
    (hp : p ∈ indexStatements newManaged newCustom) {text : Text}
    (h : normalizeIndexStatementTarget isAlnum p.2 new.name = some text) :
    newExpected.get? p.1 = some text := by
  rw [hnew.get?_iff]
  rcases List.mem_append.1 hp with hp | hp
  · obtain ⟨q, hq, rfl⟩ := List.mem_map.1 hp
    have hget := Dict.get?_of_mem (storedNames_managed hnew.managed_eq).nodup hq
    exact .inl ⟨q.2, hget, (normalize_eq_self hnew.managed_eq hplain hq h).symm⟩
  · have hget := Dict.get?_of_mem (storedNames_custom hnew.custom_eq).nodup hp
    exact .inr ⟨p.2, hget, h⟩

theorem exists_text (hnew : Expects sha256 isAlnum new newManaged newCustom newExpected)
    (hread : Readable sha256 isAlnum new) {p : Text × Text}
    (hp : p ∈ indexStatements newManaged newCustom) :
    ∃ text, normalizeIndexStatementTarget isAlnum p.2 new.name = some text := by
  rcases List.mem_append.1 hp with hp | hp
  · obtain ⟨q, hq, rfl⟩ := List.mem_map.1 hp
    exact Option.isSome_iff_exists.1 (hread newManaged hnew.managed_eq q hq)
  · exact hnew.targets p.1 p.2
      (Dict.get?_of_mem (storedNames_custom hnew.custom_eq).nodup hp)

theorem exists_statement (hnew : Expects sha256 isAlnum new newManaged newCustom newExpected)
    {s : Text} (h : newExpected.get? n = some s) :
    ∃ p ∈ indexStatements newManaged newCustom, p.1 = n := by
  rcases (hnew.get?_iff n s).1 h with ⟨i, hi, -⟩ | ⟨raw, hraw, -⟩
  · exact ⟨_, List.mem_append_left _ (List.mem_map_of_mem (Dict.mem_of_get? hi)), rfl⟩
  · exact ⟨_, List.mem_append_right _ (Dict.mem_of_get? hraw), rfl⟩

section

variable {φ : Type} [DecidableEq φ] {pg : IndexParser φ} {columns : List (Text × Text)}
  {t : List (Column Text Text)} {db altered db' : IndexCatalog (Definition φ)}

variable (sha256 isAlnum pg) in
/-- Every index whose statement is kept is gone with a dropped column, or is on columns that have
the names that they had. -/
def KeepsColumns (old new : CollectionRecord) (expected : Dict Text Text)
    (columns : List (Text × Text)) (t : List (Column Text Text)) : Prop :=
  ∀ n s, KeepsStatement sha256 isAlnum old new n → expected.get? n = some s →
    Lost t (definitionOf pg (startingTable columns) s) ∨
      ∀ c ∈ pg.columns s, resolve t c = resolve (startingTable columns) c

/-- If the synchronization succeeds, an index that keeps its statement is on the columns that its
statement names now. -/
theorem keepsColumns_of_synced
    (h : AlteredTable sha256 isAlnum pg old new oldExpected newExpected columns t db altered)
    (hdb' : syncCollectionIndexes (definitionOf pg t) isAlnum sha256 old new altered =
      some (.ok db')) : KeepsColumns sha256 isAlnum pg old new newExpected columns t := by
  obtain ⟨oldManaged, oldCustom, hold⟩ := exists_expects h.old_table h.old_eq
  obtain ⟨newManaged, newCustom, hnew⟩ := exists_expects h.new_table h.new_eq
  obtain ⟨hin, -⟩ := (synced_iff hold.toIndexes hnew.toIndexes (h.owned_keys hold)).1 hdb'
  intro n s hkeeps hs
  obtain ⟨p, hp, rfl⟩ := exists_statement hnew hs
  obtain ⟨s', hs', hsame⟩ := expected_of_keeps hold hnew hkeeps
  obtain rfl := Option.some.inj (hsame.symm.trans hs)
  obtain ⟨text, htext, hfound, -⟩ := hin p hp
  obtain rfl := Option.some.inj ((expected_of_mem hnew h.plain hp htext).symm.trans hs)
  refine or_iff_not_imp_left.2 fun hlost => ?_
  rw [h.index_eq hs', if_neg hlost] at hfound
  rcases hfound with hd | hnone | hsome
  · exact absurd hkeeps hd.2
  · exact nomatch hnone
  · have hdef := (Relation.index.inj (Option.some.inj hsome)).2
    exact fun c hc => (List.map_inj_left.1 (congrArg Prod.snd hdef) c hc).symm

/-- The synchronization succeeds and leaves exactly the indexes of the new definition if and only if
the managed statements are read back, no other relation has the name of an expected index, and every
index that keeps its statement keeps its columns or is gone with one of them. -/
theorem synchronized_iff
    (h : AlteredTable sha256 isAlnum pg old new oldExpected newExpected columns t db altered) :
    (∃ db', syncCollectionIndexes (definitionOf pg t) isAlnum sha256 old new altered =
        some (.ok db') ∧ Carries pg t new.name newExpected db') ↔
      Readable sha256 isAlnum new ∧
        (∀ n s, newExpected.get? n = some s → ∀ r ∈ altered n, r.OwnedBy [new.name]) ∧
        KeepsColumns sha256 isAlnum pg old new newExpected columns t := by
  obtain ⟨oldManaged, oldCustom, hold⟩ := exists_expects h.old_table h.old_eq
  obtain ⟨newManaged, newCustom, hnew⟩ := exists_expects h.new_table h.new_eq
  have hsync : ∀ db', syncCollectionIndexes (definitionOf pg t) isAlnum sha256 old new altered =
      some (.ok db') ↔ _ := fun db' =>
    synced_iff hold.toIndexes hnew.toIndexes (h.owned_keys hold)
  constructor
  · rintro ⟨db', hdb', -⟩
    obtain ⟨hin, -⟩ := (hsync db').1 hdb'
    refine ⟨fun managed hmanaged p hp => ?_, fun n s hs => ?_, keepsColumns_of_synced h hdb'⟩
    · obtain rfl := Option.some.inj (hmanaged.symm.trans hnew.managed_eq)
      obtain ⟨text, htext, -⟩ := hin (p.1, p.2.statement.text)
        (List.mem_append_left _ (List.mem_map_of_mem hp))
      exact Option.isSome_iff_exists.2 ⟨text, htext⟩
    · obtain ⟨p, hp, rfl⟩ := exists_statement hnew hs
      obtain ⟨text, -, hd | hfree | hindex, -⟩ := hin p hp
      · obtain ⟨s', hs'⟩ := hold.mem_keys_iff.1 hd.1
        exact h.owned hs'
      · rw [hfree]
        exact nofun
      · rintro r hr
        rw [hindex] at hr
        exact ⟨new.name, List.mem_cons_self, _, (Option.some.inj hr).symm⟩
  · rintro ⟨hread, hfree, hkept⟩
    classical
    -- The catalog that is left : the expected indexes, and what was not dropped.
    refine ⟨fun n =>
      match newExpected.get? n with
      | some s => some (.index new.name (definitionOf pg t s))
      | none =>
        if Outdated sha256 isAlnum old new oldManaged oldCustom n then none else altered n,
      (hsync _).2 ⟨fun p hp => ?_, fun n hn => ?_⟩, fun n d => ?_⟩
    · obtain ⟨text, htext⟩ := exists_text hnew hread hp
      have hs := expected_of_mem hnew h.plain hp htext
      refine ⟨text, htext, or_iff_not_imp_left.2 fun hd => ?_, by rw [hs]⟩
      cases hs' : oldExpected.get? p.1 with
      | some s' =>
        have hkeeps : KeepsStatement sha256 isAlnum old new p.1 := by
          by_contra hchanged
          exact hd ⟨hold.mem_keys_iff.2 ⟨s', hs'⟩, hchanged⟩
        obtain ⟨s, hs₁, hs₂⟩ := expected_of_keeps hold hnew hkeeps
        obtain rfl := Option.some.inj (hs₁.symm.trans hs')
        obtain rfl := Option.some.inj (hs₂.symm.trans hs)
        rw [h.index_eq hs']
        split_ifs with hlost
        · exact .inl rfl
        · have hcolumns := (hkept p.1 s hkeeps hs).resolve_left hlost
          have hdef : definitionOf pg (startingTable columns) s = definitionOf pg t s :=
            congrArg (pg.shape s, ·) (List.map_congr_left fun c hc => (hcolumns c hc).symm)
          exact .inr (by rw [hdef])
      | none =>
        refine .inl (Option.eq_none_iff_forall_not_mem.2 fun r hr => ?_)
        obtain ⟨owner, howner, d, rfl⟩ := hfree p.1 text hs r hr
        rw [List.mem_singleton.1 howner] at hr
        obtain ⟨s, hs₁, -⟩ := (h.index p.1 d).1 hr
        rw [hs'] at hs₁
        exact nomatch hs₁
    · have hnone : newExpected.get? n = none := by
        by_contra hsome
        obtain ⟨s, hs⟩ := Option.ne_none_iff_exists'.1 hsome
        obtain ⟨p, hp, rfl⟩ := exists_statement hnew hs
        exact hn (List.mem_map_of_mem hp)
      rw [hnone]
      exact ⟨fun hd => if_pos hd, fun hd => if_neg hd⟩
    · dsimp only
      cases hs : newExpected.get? n with
      | some s => simp
      | none =>
        refine iff_of_false ?_ (by simp)
        split_ifs with hd
        · exact nofun
        · intro hindex
          obtain ⟨s, hs', -⟩ := (h.index n d).1 hindex
          refine hd ⟨hold.mem_keys_iff.2 ⟨s, hs'⟩, fun hkeeps => ?_⟩
          obtain ⟨s', -, hsome⟩ := expected_of_keeps hold hnew hkeeps
          rw [hs] at hsome
          exact nomatch hsome

end

/-! ## Two updates -/

/-- What PostgreSQL reads in the statement of an index on one column : the column in parentheses,
and the method before them. -/
def oneColumn : IndexParser Text where
  columns s := [((s.dropWhile (· ≠ '(')).drop 2).takeWhile (· ≠ '"')]
  shape s := (s.takeWhile (· ≠ '(')).reverse.takeWhile (· ≠ '"')

/-- A table with JSON fields, by their ids. -/
def jsonTable (fields : List (Text × Text)) : CollectionRecord :=
  ⟨"c1", "t", "base", false, fields.map fun f => { id := f.1, name := f.2, type := .json }, [],
    ⟨none, none, none, none, none⟩, []⟩

def withColumns (names : List Text) : List (Text × Text) :=
  baseColumns ++ names.map fun n => (n, ("JSONB NOT NULL DEFAULT 'null'::jsonb" : Text))

/-- A catalog of one table with the expected indexes. -/
def storedIn (expected : Dict Text Text) (names : List Text) : IndexCatalog (Definition Text) :=
  fun n =>
    if n = "t" then some .other
    else (expected.get? n).map fun s =>
      .index "t" (definitionOf oneColumn (startingTable (withColumns names)) s)

def noDigits : Text → List (Fin 16) := fun _ => []

/-- The statements of a table with JSON fields. -/
def expectedOf (names : List Text) : Dict Text Text :=
  ("idx_t_created",
      "CREATE INDEX IF NOT EXISTS \"idx_t_created\" ON \"public\".\"t\" (\"created\")") ::
    names.map fun n => (("idx_t_" : Text) ++ n,
      ("CREATE INDEX IF NOT EXISTS \"idx_t_" : Text) ++ n ++
        ("\" ON \"public\".\"t\" USING GIN (\"" : Text) ++ n ++ ("\")" : Text))

theorem storedIn_eq {names : List Text} {owner : Text} {d : Definition Text}
    (h : storedIn expected names n = some (.index owner d)) :
    owner = "t" ∧ ∃ s, expected.get? n = some s ∧
      definitionOf oneColumn (startingTable (withColumns names)) s = d := by
  rw [storedIn] at h
  split_ifs at h
  · exact nomatch Option.some.inj h
  · obtain ⟨s, hs, hr⟩ := Option.map_eq_some_iff.1 h
    obtain ⟨howner, hd⟩ := Relation.index.inj hr
    exact ⟨howner.symm, s, hs, hd⟩

theorem base_ne_view : ("base" : Text) ≠ "view" := by decide

/-- An update of a table with JSON fields that renames columns. -/
theorem altered_jsonTable {oldFields newFields : List (Text × Text)} {oldNames newNames : List Text}
    {t : List (Column Text Text)}
    (hold : expectedCollectionIndexStatements noDigits Char.isAlphanum (jsonTable oldFields) =
      some (expectedOf oldNames))
    (hnew : expectedCollectionIndexStatements noDigits Char.isAlphanum (jsonTable newFields) =
      some (expectedOf newNames))
    (htable : (expectedOf oldNames).get? "t" = none)
    (hcolumns : ∃ alters, alterColumns (jsonTable oldFields).toDef (jsonTable newFields).toDef =
      some alters ∧ Alter.exec alters (startingTable (withColumns oldNames)) = some t)
    (hplain : ∀ f ∈ (jsonTable newFields).schema, Pg.Plain f.name)
    (hnamed : ∀ p ∈ expectedOf newNames, ∀ c ∈ oneColumn.columns p.2, c ∈ names t) :
    AlteredTable noDigits Char.isAlphanum oneColumn (jsonTable oldFields) (jsonTable newFields)
      (expectedOf oldNames) (expectedOf newNames) (withColumns oldNames) t
      (storedIn (expectedOf oldNames) oldNames)
      (withoutDropped "t" t (storedIn (expectedOf oldNames) oldNames)) where
  old_table := base_ne_view
  new_table := base_ne_view
  old_eq := hold
  new_eq := hnew
  owners n owner d h := by
    rw [(storedIn_eq h).1]
    exact if_pos rfl
  carries n d := by
    refine ⟨fun h => (storedIn_eq h).2, ?_⟩
    rintro ⟨s, hs, rfl⟩
    have hn : n ≠ "t" := by
      rintro rfl
      rw [htable] at hs
      exact nomatch hs
    rw [storedIn, if_neg hn, hs]
    rfl
  columns_eq := hcolumns
  catalog_eq := by
    have hname : (jsonTable oldFields).name = (jsonTable newFields).name := rfl
    rw [renameRelation, if_pos hname]
    rfl
  plain := hplain
  named n s h := hnamed (n, s) (Dict.mem_of_get? h)

theorem owned_stored {names : List Text} {t : List (Column Text Text)} (hn : n ≠ "t") :
    ∀ r ∈ withoutDropped "t" t (storedIn expected names) n, r.OwnedBy ["t"] := by
  intro r hr
  rw [withoutDropped, storedIn, if_neg hn] at hr
  cases hs : expected.get? n with
  | none =>
    rw [hs] at hr
    exact nomatch hr
  | some s =>
    rw [hs] at hr
    dsimp only [Option.map_some] at hr
    split_ifs at hr
    · exact nomatch hr
    · exact ⟨"t", List.mem_cons_self, _, (Option.some.inj hr).symm⟩

/-- The columns after `a` is called `b`. -/
def renamed : List (Column Text Text) :=
  startingTable baseColumns ++ [⟨"b", "JSONB NOT NULL DEFAULT 'null'::jsonb", some "a"⟩]

theorem altered_renamed : AlteredTable noDigits Char.isAlphanum oneColumn (jsonTable [("1", "a")])
    (jsonTable [("1", "b")]) (expectedOf ["a"]) (expectedOf ["b"]) (withColumns ["a"]) renamed
    (storedIn (expectedOf ["a"]) ["a"])
    (withoutDropped "t" renamed (storedIn (expectedOf ["a"]) ["a"])) :=
  altered_jsonTable rfl rfl rfl ⟨[.rename "a" "b"], rfl, rfl⟩
    (List.forall_mem_singleton.2 ⟨by decide, by decide, by decide⟩) (by decide)

theorem renamed_synchronized : ∃ db', syncCollectionIndexes (definitionOf oneColumn renamed)
      Char.isAlphanum noDigits (jsonTable [("1", "a")]) (jsonTable [("1", "b")])
      (withoutDropped "t" renamed (storedIn (expectedOf ["a"]) ["a"])) = some (.ok db') ∧
    Carries oneColumn renamed "t" (expectedOf ["b"]) db' := by
  refine (synchronized_iff altered_renamed).2 ⟨?_, fun n s hs => owned_stored ?_, ?_⟩
  · intro managed hmanaged
    obtain rfl := Option.some.inj (hmanaged.symm.trans rfl)
    decide +kernel
  · rintro rfl
    exact nomatch hs
  · intro n s hkeeps hs
    have hmem := Dict.mem_of_get? hs
    rw [expectedOf, List.mem_cons, List.map_singleton, List.mem_singleton] at hmem
    rcases hmem with hcreated | hb
    · obtain ⟨-, rfl⟩ := Prod.mk.inj hcreated
      exact .inr (by decide)
    · obtain ⟨rfl, -⟩ := Prod.mk.inj hb
      rcases hkeeps with ⟨_, _, _, _, hmanaged, -, hi, -⟩ | ⟨_, _, _, hcustom, -, hraw, -⟩
      · obtain rfl := Option.some.inj (hmanaged.symm.trans rfl)
        exact nomatch hi
      · obtain rfl := Option.some.inj (hcustom.symm.trans rfl)
        exact nomatch hraw

/-- The columns after `a` is called `b` and `c` is called `a`. -/
def swapped : List (Column Text Text) :=
  startingTable baseColumns ++ [⟨"b", "JSONB NOT NULL DEFAULT 'null'::jsonb", some "a"⟩,
    ⟨"a", "JSONB NOT NULL DEFAULT 'null'::jsonb", some "c"⟩]

theorem altered_swapped : AlteredTable noDigits Char.isAlphanum oneColumn
    (jsonTable [("1", "a"), ("2", "c")]) (jsonTable [("1", "b"), ("2", "a")])
    (expectedOf ["a", "c"]) (expectedOf ["b", "a"]) (withColumns ["a", "c"]) swapped
    (storedIn (expectedOf ["a", "c"]) ["a", "c"])
    (withoutDropped "t" swapped (storedIn (expectedOf ["a", "c"]) ["a", "c"])) :=
  altered_jsonTable rfl rfl rfl ⟨[.rename "a" "b", .rename "c" "a"], rfl, rfl⟩
    (List.forall_mem_cons.2 ⟨⟨by decide, by decide, by decide⟩,
      List.forall_mem_singleton.2 ⟨by decide, by decide, by decide⟩⟩) (by decide)

/-- `idx_t_a` keeps its statement, but it is on the column that is called `b` now. -/
theorem swapped_not_synchronized : ¬∀ (sha256 : Text → List (Fin 16)) (isAlnum : Char → Bool)
    (pg : IndexParser Text) (old new : CollectionRecord) (oldExpected newExpected : Dict Text Text)
    (columns : List (Text × Text)) (t : List (Column Text Text))
    (db altered : IndexCatalog (Definition Text)),
    AlteredTable sha256 isAlnum pg old new oldExpected newExpected columns t db altered →
      ∃ db', syncCollectionIndexes (definitionOf pg t) isAlnum sha256 old new altered =
        some (.ok db') ∧ Carries pg t new.name newExpected db' := by
  intro h
  obtain ⟨db', hdb', -⟩ := h _ _ _ _ _ _ _ _ _ _ _ altered_swapped
  have hkept := keepsColumns_of_synced altered_swapped hdb' "idx_t_a" _
    (.inl ⟨_, _, _, _, rfl, rfl, rfl, rfl, rfl⟩) rfl
  exact absurd hkept (by decide)

end

end IndexSync

end PPBase
