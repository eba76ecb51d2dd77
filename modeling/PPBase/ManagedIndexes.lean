import PPBase.Ddl
import PPBase.Failing
import PPBase.Registry

/-!
# The names of the managed indexes

PPBase names the index of a column after its table and the column. Two pairs of a table and a
column have one name exactly if they `Clash` : the part of a table's name after an underscore may
stand at the beginning of the column's, and a name that was shortened may be the name of another
pair as it is (`managedIndexName_eq_iff`, `join_eq_iff`).

The names of all relations are an `IndexCatalog`. An index is created or dropped only after its
owner was checked, so whatever the names are, only the indexes of the collection's own tables change
(`confined_syncCollectionIndexes`, `confined_createCollectionIndexes`).
-/

namespace PPBase

namespace ManagedIndexes

open Ddl SchemaManager IndexSql

/-! ## Names -/

/-- The number of bytes. -/
def bytes (s : Text) : ℕ := (s.map Char.utf8Size).sum

/-- The name before it is bounded. -/
def joinedName (table column : Text) : Text := ("idx_" : Text) ++ table ++ '_' :: column

theorem bytes_append (s t : Text) : bytes (s ++ t) = bytes s + bytes t := by
  rw [bytes, List.map_append, List.sum_append, bytes, bytes]

theorem bytes_takeBytes_le : ∀ (n : ℕ) (s : Text), bytes (takeBytes n s) ≤ n
  | _, [] => Nat.zero_le _
  | n, c :: s => by
    rw [takeBytes]
    split_ifs with h
    · have ih := bytes_takeBytes_le (n - c.utf8Size) s
      simp only [bytes, List.map_cons, List.sum_cons] at ih ⊢
      omega
    · exact Nat.zero_le _

theorem takeBytes_of_le : ∀ {n : ℕ} {s : Text}, bytes s ≤ n → takeBytes n s = s
  | _, [], _ => rfl
  | n, c :: s, h => by
    have hc : c.utf8Size + bytes s ≤ n := h
    rw [takeBytes, if_pos (by omega), takeBytes_of_le (by omega)]

theorem bytes_hexDigits (ds : List (Fin 16)) : bytes (ds.map hexDigit) = ds.length := by
  have hone : ∀ d, (hexDigit d).utf8Size = 1 := by decide
  rw [bytes, List.map_map, show Char.utf8Size ∘ hexDigit = fun _ => 1 from funext hone]
  simp

theorem hexDigit_injective : Function.Injective hexDigit := by
  have hinj : ∀ d d', hexDigit d = hexDigit d' → d = d' := by decide
  exact fun d d' => hinj d d'

/-- The two parts around a separator are those of another pair, moved by a part that ends with a
separator. -/
theorem join_eq_iff {α : Type*} {x : α} : ∀ {a b a' b' : List α},
    a ++ x :: b = a' ++ x :: b' ↔ (a = a' ∧ b = b') ∨ (∃ m, a = a' ++ x :: m ∧ b' = m ++ x :: b) ∨
      ∃ m, a' = a ++ x :: m ∧ b = m ++ x :: b'
  | [], b, [], b' => by simp
  | [], b, y :: a', b' => by
    simp only [List.nil_append, List.cons_append, List.cons.injEq]
    constructor
    · rintro ⟨rfl, rfl⟩
      exact .inr (.inr ⟨a', ⟨rfl, rfl⟩, rfl⟩)
    · rintro (⟨h, -⟩ | ⟨m, h, -⟩ | ⟨m, ⟨rfl, rfl⟩, rfl⟩)
      · exact nomatch h
      · exact nomatch h
      · exact ⟨rfl, rfl⟩
  | y :: a, b, [], b' => by
    simp only [List.nil_append, List.cons_append, List.cons.injEq]
    constructor
    · rintro ⟨rfl, rfl⟩
      exact .inr (.inl ⟨a, ⟨rfl, rfl⟩, rfl⟩)
    · rintro (⟨h, -⟩ | ⟨m, ⟨rfl, rfl⟩, rfl⟩ | ⟨m, h, -⟩)
      · exact nomatch h
      · exact ⟨rfl, rfl⟩
      · exact nomatch h
  | y :: a, b, z :: a', b' => by
    have ih : a ++ x :: b = a' ++ x :: b' ↔ _ := join_eq_iff
    simp only [List.cons_append, List.cons.injEq, ih]
    constructor
    · rintro ⟨rfl, ⟨rfl, rfl⟩ | ⟨m, rfl, rfl⟩ | ⟨m, rfl, rfl⟩⟩
      · exact .inl ⟨⟨rfl, rfl⟩, rfl⟩
      · exact .inr (.inl ⟨m, ⟨rfl, rfl⟩, rfl⟩)
      · exact .inr (.inr ⟨m, ⟨rfl, rfl⟩, rfl⟩)
    · rintro (⟨⟨rfl, rfl⟩, rfl⟩ | ⟨m, ⟨rfl, rfl⟩, rfl⟩ | ⟨m, ⟨rfl, rfl⟩, rfl⟩)
      · exact ⟨rfl, .inl ⟨rfl, rfl⟩⟩
      · exact ⟨rfl, .inr (.inl ⟨m, rfl, rfl⟩)⟩
      · exact ⟨rfl, .inr (.inr ⟨m, rfl, rfl⟩)⟩

section

variable (sha256 : Text → List (Fin 16)) {x x' : Text}

/-- The digits of the digest that a shortened name ends with. -/
def digits (x : Text) : List (Fin 16) := (sha256 x).take 16

/-- A name that is too long, shortened. -/
def shortened (x : Text) : Text := takeBytes 46 x ++ '_' :: (digits sha256 x).map hexDigit

theorem boundedIndexName_eq : boundedIndexName sha256 x =
    if bytes x ≤ 63 then x else shortened sha256 x := rfl

theorem managedIndexName_eq (table column : Text) : managedIndexName sha256 table column =
    if bytes (joinedName table column) ≤ 63 then joinedName table column
    else shortened sha256 (joinedName table column) := rfl

theorem bytes_boundedIndexName_le : bytes (boundedIndexName sha256 x) ≤ 63 := by
  rw [boundedIndexName_eq]
  split_ifs with h
  · exact h
  · have hstart := bytes_takeBytes_le 46 x
    have hdigits : (digits sha256 x).length ≤ 16 := List.length_take_le 16 _
    have hcons : bytes ('_' :: (digits sha256 x).map hexDigit) = 1 + (digits sha256 x).length := by
      rw [← bytes_hexDigits]
      rfl
    rw [shortened, bytes_append, hcons]
    omega

/-- Two names that are too long are shortened to one name if both beginnings and digits agree. -/
theorem shortened_eq_iff (hlength : ∀ t, (sha256 t).length = 64) :
    shortened sha256 x = shortened sha256 x' ↔
      takeBytes 46 x = takeBytes 46 x' ∧ digits sha256 x = digits sha256 x' := by
  have hdigits : ∀ t, (digits sha256 t).length = 16 := by
    intro t
    rw [digits, List.length_take, hlength]
    rfl
  constructor
  · intro h
    obtain ⟨hstart, htail⟩ := List.append_inj' h (by simp [hdigits])
    exact ⟨hstart, List.map_injective_iff.2 hexDigit_injective (List.cons.inj htail).2⟩
  · rintro ⟨hstart, htail⟩
    rw [shortened, shortened, hstart, htail]

/-- Two pairs of a table and a column with one name. -/
inductive Clash : Text × Text → Text × Text → Prop
  /-- The end of the table's name is the beginning of the column's. -/
  | moved (t m c : Text) : Clash (t ++ '_' :: m, c) (t, m ++ '_' :: c)
  /-- Both names are shortened, and the same remains of them. -/
  | digest {p p' : Text × Text} (hp : 63 < bytes (joinedName p.1 p.2))
      (hp' : 63 < bytes (joinedName p'.1 p'.2))
      (hstart : takeBytes 46 (joinedName p.1 p.2) = takeBytes 46 (joinedName p'.1 p'.2))
      (hdigits : digits sha256 (joinedName p.1 p.2) = digits sha256 (joinedName p'.1 p'.2)) :
      Clash p p'
  /-- One name is shortened to the other. -/
  | short {p p' : Text × Text} (hp : bytes (joinedName p.1 p.2) ≤ 63)
      (hp' : 63 < bytes (joinedName p'.1 p'.2))
      (heq : joinedName p.1 p.2 = shortened sha256 (joinedName p'.1 p'.2)) : Clash p p'
  | symm {p p' : Text × Text} (h : Clash p p') : Clash p' p

/-- The names of two different pairs are one exactly if the pairs clash. -/
theorem managedIndexName_eq_iff (hlength : ∀ t, (sha256 t).length = 64) {p p' : Text × Text}
    (hne : p ≠ p') :
    managedIndexName sha256 p.1 p.2 = managedIndexName sha256 p'.1 p'.2 ↔ Clash sha256 p p' := by
  constructor
  · intro h
    rw [managedIndexName_eq, managedIndexName_eq] at h
    split_ifs at h with hp hp' hp'
    · obtain ⟨t, c⟩ := p
      obtain ⟨t', c'⟩ := p'
      simp only [joinedName, List.append_assoc, List.append_cancel_left_eq, join_eq_iff] at h
      rcases h with ⟨rfl, rfl⟩ | ⟨m, rfl, rfl⟩ | ⟨m, rfl, rfl⟩
      · exact absurd rfl hne
      · exact .moved t' m c
      · exact .symm (.moved t m c')
    · exact .short hp (Nat.not_le.1 hp') h
    · exact .symm (.short hp' (Nat.not_le.1 hp) h.symm)
    · obtain ⟨hstart, hdigits⟩ := (shortened_eq_iff sha256 hlength).1 h
      exact .digest (Nat.not_le.1 hp) (Nat.not_le.1 hp') hstart hdigits
  · intro h
    clear hne
    induction h with
    | moved t m c =>
      have hjoin : joinedName (t ++ '_' :: m) c = joinedName t (m ++ '_' :: c) := by
        simp [joinedName]
      rw [managedIndexName_eq, managedIndexName_eq, hjoin]
    | digest hp hp' hstart hdigits =>
      rw [managedIndexName_eq, managedIndexName_eq, if_neg (Nat.not_le.2 hp),
        if_neg (Nat.not_le.2 hp'), shortened_eq_iff sha256 hlength]
      exact ⟨hstart, hdigits⟩
    | short hp hp' heq =>
      rw [managedIndexName_eq, managedIndexName_eq, if_pos hp, if_neg (Nat.not_le.2 hp')]
      exact heq
    | symm h ih => exact ih.symm

end

/-! ## The catalog -/

/-- What has a name : an index of a table, or another relation. The definition is what PostgreSQL
makes of the statement. -/
inductive Relation (σ : Type) where
  | index (owner : Text) (definition : σ)
  | other
deriving DecidableEq

/-- The relations of the public schema by their names. -/
abbrev IndexCatalog (σ : Type) := Text → Option (Relation σ)

/-- Why an index is not created or dropped. -/
inductive IndexError where
  | identifier (name : Text)
  | notAnIndex (name : Text)
  | wrongOwner (operation name owner : Text) (expected : List Text)
  | differs (name owner : Text)
  | statement
deriving DecidableEq

section

variable {σ : Type} [DecidableEq σ] (definitionOf : Text → σ) (isAlnum : Char → Bool)

/-- `_read_index_definition`, whose owner `_index_owner` reads too. -/
def readIndexDefinition (db : IndexCatalog σ) (name : Text) :
    Except IndexError (Option (Text × σ)) :=
  match db (truncatePostgresIdentifier name) with
  | none => .ok none
  | some .other => .error (.notAnIndex name)
  | some (.index owner definition) => .ok (some (owner, definition))

/-- `_expected_table_names` -/
def expectedTableNames (tables : List Text) : List Text := tables.map truncatePostgresIdentifier

/-- `_drop_index_if_owned` -/
def dropIndexIfOwned (expected : List Text) (db : IndexCatalog σ) (name : Text) :
    Except IndexError (IndexCatalog σ) := do
  match ← readIndexDefinition db name with
  | none => .ok db
  | some (owner, _) =>
    if owner ∉ expected then .error (.wrongOwner "drop" name owner expected)
    else .ok (Function.update db (truncatePostgresIdentifier name) none)

/-- `_create_index_if_owned` of a statement for an index of this name. -/
def createIndexIfOwned (table : Text) (db : IndexCatalog σ) (index : Text × Text) :
    Except IndexError (IndexCatalog σ) :=
  let (name, statement) := index
  match safeName table, normalizeIndexStatementTarget isAlnum statement table with
  | none, _ => .error (.identifier table)
  | some _, none => .error .statement
  | some _, some text => do
    match ← readIndexDefinition db name with
    | none =>
      .ok (Function.update db (truncatePostgresIdentifier name)
        (some (.index (truncatePostgresIdentifier table) (definitionOf text))))
    | some (owner, definition) =>
      if owner ∉ expectedTableNames [table] then
        .error (.wrongOwner "create" name owner (expectedTableNames [table]))
      else if definition ≠ definitionOf text then .error (.differs name owner)
      else .ok db

variable (sha256 : Text → List (Fin 16))

/-- The names and statements of the indexes of a collection. -/
def indexStatements (managed : Dict Text ManagedIndex) (custom : List (Text × Text)) :
    List (Text × Text) :=
  managed.map (fun p => (p.1, p.2.statement.text)) ++ custom

/-- The indexes after `create_collection_table`. -/
def createCollectionIndexes (r : CollectionRecord) (db : IndexCatalog σ) :
    Option (Except IndexError (IndexCatalog σ)) := do
  let table ← safeName r.name
  let managed ← managedIndexes sha256 r
  let custom ← customIndexesByStoredName isAlnum (customIndexes r)
  validateManagedCustomIndexNames managed custom
  let named ← (customIndexes r).mapM fun s => (customIndexName isAlnum s).map (·, s)
  return (indexStatements managed named).foldlM (createIndexIfOwned definitionOf isAlnum table) db

/-- `_sync_collection_indexes` -/
def syncCollectionIndexes (old new : CollectionRecord) (db : IndexCatalog σ) :
    Option (Except IndexError (IndexCatalog σ)) := do
  let oldManaged ← managedIndexes sha256 old
  let newManaged ← managedIndexes sha256 new
  let newCustom ← customIndexesByStoredName isAlnum (customIndexes new)
  validateManagedCustomIndexNames newManaged newCustom
  let drops ← customDrops isAlnum old new newCustom
  let oldTable ← safeName old.name
  let table ← safeName new.name
  let dropNames := sorted (managedDrops oldManaged newManaged ++ drops).dedup
  return do
    let db ← dropNames.foldlM (dropIndexIfOwned (expectedTableNames [oldTable, table])) db
    (indexStatements newManaged newCustom).foldlM (createIndexIfOwned definitionOf isAlnum table) db

end

section

variable {σ : Type} {tables : List Text} {db db' db'' : IndexCatalog σ}

/-- The relation is an index of one of the tables. -/
def Relation.OwnedBy (tables : List Text) (r : Relation σ) : Prop :=
  ∃ owner ∈ tables, ∃ definition, r = .index owner definition

/-- Only indexes of the tables changed. -/
def Confined (tables : List Text) (db db' : IndexCatalog σ) : Prop :=
  ∀ name, db' name = db name ∨
    (∀ r ∈ db name, r.OwnedBy tables) ∧ ∀ r ∈ db' name, r.OwnedBy tables

theorem Confined.refl (tables : List Text) (db : IndexCatalog σ) : Confined tables db db :=
  fun _ => .inl rfl

theorem Confined.trans (h : Confined tables db db') (h' : Confined tables db' db'') :
    Confined tables db db'' := by
  intro name
  rcases h name with heq | ⟨hold, hnew⟩
  · rw [← heq]
    exact h' name
  · rcases h' name with heq' | ⟨-, hnew'⟩
    · rw [heq']
      exact .inr ⟨hold, hnew⟩
    · exact .inr ⟨hold, hnew'⟩

theorem Confined.mono {tables' : List Text} (hsub : tables ⊆ tables') (h : Confined tables db db') :
    Confined tables' db db' := by
  have howned : ∀ r : Relation σ, r.OwnedBy tables → r.OwnedBy tables' := by
    rintro r ⟨owner, howner, hr⟩
    exact ⟨owner, hsub howner, hr⟩
  intro name
  exact (h name).imp_right fun h =>
    ⟨fun r hr => howned r (h.1 r hr), fun r hr => howned r (h.2 r hr)⟩

variable {name : Text}

/-- An index of another table is as it was. -/
theorem Confined.other (h : Confined tables db db') {owner : Text} {definition : σ}
    (howner : owner ∉ tables) (hname : db name = some (.index owner definition)) :
    db' name = some (.index owner definition) := by
  rcases h name with heq | ⟨hold, -⟩
  · rw [heq, hname]
  · obtain ⟨owner', howner', definition', hr⟩ := hold _ hname
    obtain ⟨rfl, -⟩ := Relation.index.inj hr
    exact absurd howner' howner

theorem confined_update {r' : Option (Relation σ)} (hold : ∀ r ∈ db name, r.OwnedBy tables)
    (hnew : ∀ r ∈ r', r.OwnedBy tables) : Confined tables db (Function.update db name r') := by
  intro n
  by_cases hn : n = name
  · subst hn
    rw [Function.update_self]
    exact .inr ⟨hold, hnew⟩
  · exact .inl (Function.update_of_ne hn _ _)

theorem readIndexDefinition_eq_ok {found : Option (Text × σ)}
    (h : readIndexDefinition db name = .ok found) :
    db (truncatePostgresIdentifier name) = found.map fun p => .index p.1 p.2 := by
  rw [readIndexDefinition] at h
  cases hdb : db (truncatePostgresIdentifier name) with
  | none =>
    rw [hdb] at h
    rw [← Except.ok.inj h]
    rfl
  | some r =>
    rw [hdb] at h
    cases r with
    | other => exact nomatch h
    | index owner definition =>
      rw [← Except.ok.inj h]
      rfl

/-- Dropping an index changes only indexes of the expected tables. -/
theorem confined_dropIndexIfOwned (h : dropIndexIfOwned tables db name = .ok db') :
    Confined tables db db' := by
  obtain ⟨found, hfound, h⟩ := Failing.bind_eq_ok.1 h
  have hread := readIndexDefinition_eq_ok hfound
  cases found with
  | none =>
    rw [← Except.ok.inj h]
    exact .refl tables db
  | some p =>
    obtain ⟨owner, definition⟩ := p
    dsimp only at h
    split_ifs at h with howner
    rw [← Except.ok.inj h]
    refine confined_update (fun r hr => ?_) fun r hr => nomatch hr
    rw [hread] at hr
    exact ⟨owner, howner, definition, (Option.some.inj hr).symm⟩

theorem confined_foldlM {α : Type} {f : IndexCatalog σ → α → Except IndexError (IndexCatalog σ)}
    (hf : ∀ {db db' x}, f db x = .ok db' → Confined tables db db') :
    ∀ {xs : List α} {db db' : IndexCatalog σ}, xs.foldlM f db = .ok db' → Confined tables db db'
  | [], db, _, h => by
    rw [← Except.ok.inj h]
    exact .refl tables db
  | _ :: _, _, _, h => by
    obtain ⟨_, hx, hxs⟩ := Failing.foldlM_cons_eq_ok.1 h
    exact (hf hx).trans (confined_foldlM hf hxs)

variable [DecidableEq σ] {definitionOf : Text → σ} {isAlnum : Char → Bool}
  {sha256 : Text → List (Fin 16)}

/-- Creating an index changes only indexes of its table. -/
theorem confined_createIndexIfOwned {table : Text} {index : Text × Text}
    (h : createIndexIfOwned definitionOf isAlnum table db index = .ok db') :
    Confined (expectedTableNames [table]) db db' := by
  obtain ⟨name, statement⟩ := index
  rw [createIndexIfOwned] at h
  split at h
  · exact nomatch h
  · exact nomatch h
  · rename_i text _ _
    obtain ⟨found, hfound, h⟩ := Failing.bind_eq_ok.1 h
    have hread := readIndexDefinition_eq_ok hfound
    cases found with
    | none =>
      rw [← Except.ok.inj h]
      refine confined_update (fun r hr => ?_) fun r hr => ?_
      · rw [hread] at hr
        exact nomatch hr
      · exact ⟨truncatePostgresIdentifier table, List.mem_cons_self, definitionOf text,
          (Option.some.inj hr).symm⟩
    | some p =>
      dsimp only at h
      split_ifs at h
      rw [← Except.ok.inj h]
      exact .refl _ db

/-- Creating the indexes of a collection changes only indexes of its table. -/
theorem confined_createCollectionIndexes {r : CollectionRecord}
    (h : createCollectionIndexes definitionOf isAlnum sha256 r db = some (.ok db')) :
    Confined (expectedTableNames [r.name]) db db' := by
  simp only [createCollectionIndexes, Option.bind_eq_bind, Option.bind_eq_some_iff, Option.pure_def,
    Option.some.injEq] at h
  obtain ⟨table, htable, managed, -, custom, -, -, -, named, -, h⟩ := h
  obtain rfl := eq_of_safeName htable
  exact confined_foldlM confined_createIndexIfOwned h

/-- Synchronizing the indexes of a collection changes only indexes of its tables. -/
theorem confined_syncCollectionIndexes {old new : CollectionRecord}
    (h : syncCollectionIndexes definitionOf isAlnum sha256 old new db = some (.ok db')) :
    Confined (expectedTableNames [old.name, new.name]) db db' := by
  simp only [syncCollectionIndexes, Option.bind_eq_bind, Option.bind_eq_some_iff, Option.pure_def,
    Option.some.injEq] at h
  obtain ⟨_, -, _, -, _, -, -, -, _, -, oldTable, hold, table, hnew, h⟩ := h
  obtain rfl := eq_of_safeName hold
  obtain rfl := eq_of_safeName hnew
  obtain ⟨mid, hdrops, hcreates⟩ := Failing.bind_eq_ok.1 h
  refine (confined_foldlM confined_dropIndexIfOwned hdrops).trans ?_
  refine (confined_foldlM confined_createIndexIfOwned hcreates).mono ?_
  exact List.subset_cons_self _ _

/-- A collection without fields has indexes of its dates. -/
def datesOnly (name : Text) : CollectionRecord :=
  ⟨"dates", name, "base", false, [], [], {}, []⟩

/-- The catalog has an index of the table that is renamed, and one of another. -/
def twoTables : IndexCatalog Unit :=
  Function.update (Function.update (fun _ => none) "idx_posts_created" (some (.index "posts" ())))
    "idx_users_created" (some (.index "users" ()))

def renamedDates : Option (Except IndexError (IndexCatalog Unit)) :=
  syncCollectionIndexes (fun _ => ()) (fun _ => false) (fun _ => List.replicate 64 0)
    (datesOnly "posts") (datesOnly "notes") twoTables

theorem renamed_confined : ∃ db', renamedDates = some (.ok db') ∧
    db' "idx_posts_created" = none ∧
    Confined (expectedTableNames ["posts", "notes"]) twoTables db' := by
  have hok : (renamedDates.bind Except.toOption).isSome = true := by decide +kernel
  cases h : renamedDates with
  | none =>
    rw [h] at hok
    cases hok
  | some r =>
    cases r with
    | error e =>
      rw [h] at hok
      cases hok
    | ok db' =>
      unfold renamedDates at h
      have hdropped : (renamedDates.bind Except.toOption).map (· "idx_posts_created") =
          some none := by
        decide +kernel
      rw [renamedDates, h] at hdropped
      exact ⟨db', rfl, Option.some.inj hdropped, confined_syncCollectionIndexes h⟩

/-- Two pairs have names of at most 63 bytes that are different, of which each is dropped and
created without changing indexes of other tables, exactly if they do not clash. -/
theorem names_apart_iff (definitionOf : Text → σ) (isAlnum : Char → Bool)
    (sha256 : Text → List (Fin 16)) (hlength : ∀ t, (sha256 t).length = 64) (p p' : Text × Text)
    (hne : p ≠ p') :
    (managedIndexName sha256 p.1 p.2 ≠ managedIndexName sha256 p'.1 p'.2 ∧
      bytes (managedIndexName sha256 p.1 p.2) ≤ 63 ∧
      truncatePostgresIdentifier (managedIndexName sha256 p.1 p.2) =
        managedIndexName sha256 p.1 p.2 ∧
      (∀ (tables : List Text) (db db' : IndexCatalog σ),
        dropIndexIfOwned tables db (managedIndexName sha256 p.1 p.2) = .ok db' →
          Confined tables db db') ∧
      ∀ (statement : Text) (db db' : IndexCatalog σ),
        createIndexIfOwned definitionOf isAlnum p.1 db
            (managedIndexName sha256 p.1 p.2, statement) = .ok db' →
          Confined (expectedTableNames [p.1]) db db') ↔ ¬Clash sha256 p p' := by
  have hbytes := bytes_boundedIndexName_le sha256 (x := joinedName p.1 p.2)
  rw [← managedIndexName_eq_iff sha256 hlength hne]
  constructor
  · exact And.left
  · intro h
    exact ⟨h, hbytes, takeBytes_of_le hbytes, fun _ _ _ => confined_dropIndexIfOwned,
      fun _ _ _ => confined_createIndexIfOwned⟩

/-- The pairs of the tables `posts` and `users` do not clash. -/
theorem names_apart_posts : ¬Clash (fun _ => List.replicate 64 0) ("posts", "created")
    ("users", "created") :=
  (names_apart_iff (fun _ => ()) (fun _ => false) (fun _ => List.replicate 64 0)
    (fun _ => List.length_replicate) ("posts", "created") ("users", "created") (by decide)).1
    ⟨by decide, by decide, by decide, fun _ _ _ => confined_dropIndexIfOwned,
      fun _ _ _ => confined_createIndexIfOwned⟩

/-- The table `a` with the column `b_c` and the table `a_b` with the column `c`. -/
theorem underscore_clash : (("a", "b_c") : Text × Text) ≠ (("a_b", "c") : Text × Text) ∧
    ∀ sha256, managedIndexName sha256 "a" "b_c" = managedIndexName sha256 "a_b" "c" :=
  ⟨by decide, fun _ => rfl⟩

end

end ManagedIndexes

end PPBase
