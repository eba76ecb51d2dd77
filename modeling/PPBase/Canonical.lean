import PPBase.Registry
import PPBase.SchemaContract
import PPBase.SchemaPlan

/-!
# The canonical model of a collection's table

`buildCollectionTableSpec` is the table a backup expects of a collection, from the stored fields
alone. It is compared with the columns of the table that the schema manager has left : `catalogRow`
takes PostgreSQL to show a column definition as the canonical model has it.

`run_agrees` : the two have the same columns in every run of created and updated collections
in which an update leaves the hidden fields' columns as they are, names are identifiers and
types are those of collections. The invariant is `Backed`.
-/

namespace PPBase

namespace Canonical

open SchemaManager SchemaContract
open ColumnSpec (make)

/-- `_BASE_COLUMNS` -/
def baseColumns : List ColumnSpec :=
  [⟨"id", "character varying(15)", false, none, isIdentifier_id, by decide, allowed_none⟩,
    ⟨"created", "timestamp with time zone", false, some "now()", by decide, by decide, by decide⟩,
    ⟨"updated", "timestamp with time zone", false, some "now()", by decide, by decide, by decide⟩]

/-- `_AUTH_COLUMNS` -/
def authColumns : List ColumnSpec :=
  [⟨"email", "character varying(255)", false, some "''::character varying", by decide, by decide,
      by decide⟩,
    ⟨"email_visibility", "boolean", false, some "false", by decide, by decide, by decide⟩,
    ⟨"verified", "boolean", false, some "false", by decide, by decide, by decide⟩,
    ⟨"password_hash", "text", false, some "''::text", by decide, isColumnType_text, by decide⟩,
    ⟨"token_key", "character varying(50)", false, some "''::character varying", by decide,
      by decide, by decide⟩]

/-- `_field_column_spec` -/
def fieldColumnSpec (f : FieldDefinition) : Option ColumnSpec :=
  match f.type with
  | .text | .editor | .url | .password => make f.name "text" false (some "''::text")
  | .number =>
    if f.onlyInt.truthy then make f.name "integer" false (some "0")
    else make f.name "double precision" false (some "0")
  | .bool => make f.name "boolean" false (some "false")
  | .email => make f.name "character varying(255)" false (some "''::character varying")
  | .date => make f.name "timestamp with time zone" true none
  | .autodate => make f.name "timestamp with time zone" false (some "now()")
  | .select | .file =>
    f.manySelected.bind fun many =>
      if many then make f.name "text[]" false (some "'\x7b\x7d'::text[]")
      else make f.name "text" false (some "''::text")
  | .relation =>
    f.manySelected.bind fun many =>
      if many then
        make f.name "character varying(15)[]" false (some "'\x7b\x7d'::character varying[]")
      else make f.name "character varying(15)" false (some "''::character varying")
  | .json => make f.name "jsonb" false (some "'null'::jsonb")
  | .geoPoint => make f.name "jsonb" false (some "'\x7b\"lat\": 0, \"lon\": 0\x7d'::jsonb")

/-- `build_collection_table_spec` -/
def buildCollectionTableSpec (name kind : Text) (schema : List FieldDefinition) :
    Option TableSpec := do
  guard (kind = "base" ∨ kind = "auth")
  let fields ← schema.mapM fieldColumnSpec
  TableSpec.make name kind (baseColumns ++ (if kind =
    "auth" then authColumns else []) ++ fields) ["id"] []

/-! ## The columns of the live table -/

/-- The column definitions the schema manager writes, and the type, the nullability and the
default PostgreSQL shows for them. -/
def renderings : Dict Text (Text × Bool × Option Text) :=
  [("VARCHAR(15) PRIMARY KEY", "character varying(15)", false, none),
    ("TIMESTAMPTZ NOT NULL DEFAULT NOW()", "timestamp with time zone", false, some "now()"),
    ("TEXT NOT NULL DEFAULT ''", "text", false, some "''::text"),
    ("INTEGER NOT NULL DEFAULT 0", "integer", false, some "0"),
    ("DOUBLE PRECISION NOT NULL DEFAULT 0", "double precision", false, some "0"),
    ("BOOLEAN NOT NULL DEFAULT FALSE", "boolean", false, some "false"),
    ("VARCHAR(255) NOT NULL DEFAULT ''", "character varying(255)", false,
      some "''::character varying"),
    ("VARCHAR(50) NOT NULL DEFAULT ''", "character varying(50)", false,
      some "''::character varying"),
    ("TIMESTAMPTZ NULL", "timestamp with time zone", true, none),
    ("TEXT[] NOT NULL DEFAULT '\x7b\x7d'", "text[]", false, some "'\x7b\x7d'::text[]"),
    ("VARCHAR(15)[] NOT NULL DEFAULT '\x7b\x7d'", "character varying(15)[]", false,
      some "'\x7b\x7d'::character varying[]"),
    ("VARCHAR(15) NOT NULL DEFAULT ''", "character varying(15)", false,
      some "''::character varying"),
    ("JSONB NOT NULL DEFAULT 'null'::jsonb", "jsonb", false, some "'null'::jsonb"),
    ("JSONB NOT NULL DEFAULT '\x7b\"lon\":0,\"lat\":0\x7d'::jsonb", "jsonb", false,
      some "'\x7b\"lat\": 0, \"lon\": 0\x7d'::jsonb")]

/-- A column as PostgreSQL's catalog shows it. -/
def catalogRow (c : Text × Text) : Option (Text × Text × Bool × Option Text) :=
  (renderings.get? c.2).map (c.1, ·)

/-- The columns of a table, if there is one under the name. -/
def liveColumns (cat : Catalog) (name : Text) : Option (List (Text × Text × Bool × Option Text)) :=
  match cat.relations.get? name with
  | some (.table columns) => columns.mapM catalogRow
  | _ => none

/-- The table of a collection has the columns a backup expects. -/
def HasModel (cat : Catalog) (r : CollectionRecord) : Prop :=
  ∃ model rows, buildCollectionTableSpec r.name r.type r.schema = some model ∧
    liveColumns cat r.name = some rows ∧ rows.Perm (model.columns.map ColumnSpec.row)

/-- Every collection with a table of its own has the columns a backup expects. -/
def Agrees (s : Registry) : Prop :=
  ∀ r ∈ s.records, r.type ≠ "view" → r.name ∉ CollectionService.systemTables →
    HasModel s.catalog r

/-! ## One field -/

section Field

variable {f : FieldDefinition}

theorem nodup_renderings : renderings.keys.Nodup := by decide

theorem renderings_allowed : ∀ e ∈ renderings, isColumnType e.2.1 = true ∧
    ∀ d ∈ e.2.2.2, d ∈ allowedDefaults := by decide

/-- A column spec of the canonical model is what PostgreSQL shows of the definition `d`. -/
theorem make_of_rendering {name d type : Text} {nullable : Bool} {default : Option Text}
    (hn : isIdentifier name = true) (hr : (d, type, nullable, default) ∈ renderings) :
    ∃ c, make name type nullable default = some c ∧ catalogRow (name, d) = some c.row := by
  obtain ⟨ht, hd⟩ := renderings_allowed _ hr
  obtain ⟨c, hc, hrow⟩ := @ColumnSpec.make_eq_some name type nullable default hn ht hd
  refine ⟨c, hc, ?_⟩
  rw [catalogRow, Dict.get?_of_mem nodup_renderings hr, hrow]
  rfl

/-- The two renderings of a field agree. -/
theorem fieldColumnSpec_eq (hn : isIdentifier f.name = true) (hc : f.colType ≠ none) :
    ∃ c, fieldColumnSpec f = some c ∧ catalogRow (fieldSpec f) = some c.row := by
  obtain ⟨d, hd⟩ := Option.ne_none_iff_exists'.1 hc
  have hspec : fieldSpec f = (f.name, d) := by rw [fieldSpec, ddl, hd, Option.getD_some]
  rw [hspec]
  unfold FieldDefinition.colType at hd
  unfold fieldColumnSpec
  cases hty : f.type <;> simp only [hty] at hd ⊢
  case number =>
    split_ifs at hd ⊢ <;> obtain rfl := Option.some.inj hd <;>
      exact make_of_rendering hn (by simp only [renderings, List.mem_cons, true_or, or_true])
  case select | file | relation =>
    obtain ⟨many, hmany, rfl⟩ := Option.map_eq_some_iff.1 hd
    rw [hmany, Option.bind_some]
    cases many
    · exact make_of_rendering hn (by simp only [renderings, List.mem_cons, true_or, or_true,
        Bool.false_eq_true, ↓reduceIte])
    · exact make_of_rendering hn (by simp only [renderings, List.mem_cons, true_or, or_true,
        ↓reduceIte])
  all_goals
    obtain rfl := Option.some.inj hd
    exact make_of_rendering hn (by simp only [renderings, List.mem_cons, true_or, or_true])

end Field

/-! ## The whole table -/

section Whole

theorem name_of_catalogRow {c : Text × Text} {r : Text × Text × Bool × Option Text}
    (h : catalogRow c = some r) : r.1 = c.1 := by
  obtain ⟨-, -, rfl⟩ := Option.map_eq_some_iff.1 h
  rfl

/-- Showing a table's columns in another order. -/
theorem mapM_perm {α β : Type*} {f : α → Option β} {l m : List α} {r : List β} (h : l.Perm m)
    (hl : l.mapM f = some r) : ∃ r', m.mapM f = some r' ∧ r'.Perm r := by
  induction h generalizing r with
  | nil => exact ⟨r, hl, .refl _⟩
  | cons x _ ih =>
    simp only [List.mapM_cons, Option.bind_eq_bind, Option.bind_eq_some_iff] at hl ⊢
    obtain ⟨y, hy, r₁, hr₁, hr⟩ := hl
    obtain ⟨r', hr', hp⟩ := ih hr₁
    obtain rfl := Option.some.inj hr
    exact ⟨_, ⟨y, hy, r', hr', rfl⟩, hp.cons y⟩
  | swap x y l =>
    simp only [List.mapM_cons, Option.bind_eq_bind, Option.bind_eq_some_iff] at hl ⊢
    obtain ⟨b, hb, r₂, ⟨a, ha, r₁, hr₁, hr₂⟩, hr⟩ := hl
    obtain rfl := Option.some.inj hr₂
    obtain rfl := Option.some.inj hr
    exact ⟨_, ⟨a, ha, _, ⟨b, hb, r₁, hr₁, rfl⟩, rfl⟩, .swap _ _ _⟩
  | trans _ _ ih₁ ih₂ =>
    obtain ⟨r₁, h₁, hp₁⟩ := ih₁ hl
    obtain ⟨r₂, h₂, hp₂⟩ := ih₂ h₁
    exact ⟨r₂, h₂, hp₂.trans hp₁⟩

theorem mapM_catalogRow_names {cs : List (Text × Text)}
    {rows : List (Text × Text × Bool × Option Text)} (h : cs.mapM catalogRow = some rows) :
    rows.map Prod.fst = cs.map Prod.fst := by
  induction cs generalizing rows with
  | nil =>
    obtain rfl := Option.some.inj h
    rfl
  | cons c cs ih =>
    simp only [List.mapM_cons, Option.bind_eq_bind, Option.bind_eq_some_iff] at h
    obtain ⟨r, hr, rest, hrest, h⟩ := h
    obtain rfl := Option.some.inj h
    rw [List.map_cons, List.map_cons, name_of_catalogRow hr, ih hrest]

theorem mapM_fieldColumnSpec {schema : List FieldDefinition}
    (hn : ∀ f ∈ schema, isIdentifier f.name = true) (hc : ∀ f ∈ schema, f.colType ≠ none) :
    ∃ cs, schema.mapM fieldColumnSpec = some cs ∧
      (schema.map fieldSpec).mapM catalogRow = some (cs.map ColumnSpec.row) := by
  induction schema with
  | nil => exact ⟨[], rfl, rfl⟩
  | cons f schema ih =>
    obtain ⟨c, hc₁, hrow⟩ := fieldColumnSpec_eq (hn f (by simp)) (hc f (by simp))
    obtain ⟨cs, hcs, hrows⟩ := ih (fun g hg => hn g (by simp [hg])) fun g hg => hc g (by simp [hg])
    refine ⟨c :: cs, ?_, ?_⟩
    · rw [List.mapM_cons, hc₁, hcs]
      rfl
    · rw [List.map_cons, List.mapM_cons, hrow, hrows]
      rfl

variable {name kind : Text} {schema : List FieldDefinition}

theorem systemColumns_rows (hk : kind = "base" ∨ kind = "auth") :
    (systemColumns kind).mapM catalogRow =
      some ((baseColumns ++ if kind = "auth" then authColumns else []).map ColumnSpec.row) := by
  rcases hk with rfl | rfl
  · decide
  · decide

/-- The canonical model of a collection has the columns that creating its table makes. -/
theorem buildCollectionTableSpec_eq (hname : isIdentifier name = true)
    (hk : kind = "base" ∨ kind = "auth") (hn : ∀ f ∈ schema, isIdentifier f.name = true)
    (hc : ∀ f ∈ schema, f.colType ≠ none)
    (hnd : ((systemColumns kind ++ schema.map fieldSpec).map Prod.fst).Nodup) :
    ∃ model, buildCollectionTableSpec name kind schema = some model ∧
      (systemColumns kind ++ schema.map fieldSpec).mapM catalogRow =
        some (model.columns.map ColumnSpec.row) := by
  obtain ⟨cs, hcs, hrows⟩ := mapM_fieldColumnSpec hn hc
  have hall : (systemColumns kind ++ schema.map fieldSpec).mapM catalogRow =
      some ((baseColumns ++ (if kind = "auth" then authColumns else []) ++ cs).map
        ColumnSpec.row) := by
    rw [List.mapM_append, systemColumns_rows hk, hrows]
    simp only [List.map_append]
    rfl
  have hnames : (baseColumns ++ (if kind = "auth" then authColumns else []) ++ cs).map
      ColumnSpec.name = (systemColumns kind ++ schema.map fieldSpec).map Prod.fst := by
    rw [← mapM_catalogRow_names hall, List.map_map]
    rfl
  have hid : isKey ((systemColumns kind ++ schema.map fieldSpec).map Prod.fst)
      [("id" : Text)] = true := by
    have hmem : ("id" : Text) ∈ (systemColumns kind ++ schema.map fieldSpec).map Prod.fst := by
      simp [systemColumns, SchemaManager.baseColumns]
    simp only [isKey, List.all_cons, List.all_nil, Bool.and_true, Bool.and_eq_true,
      decide_eq_true_eq]
    exact ⟨⟨by decide, List.nodup_singleton _⟩, hmem⟩
  have hkind : kind ∈ tableKinds := by rcases hk with rfl | rfl <;> decide
  obtain ⟨model, hmodel, hcols⟩ := TableSpec.make_eq_some hname hkind
    (show baseColumns ++ (if kind = "auth" then authColumns else []) ++ cs ≠ [] by
      simp [baseColumns]) (hnames ▸ hnd) (hnames ▸ hid)
  refine ⟨model, ?_, hcols ▸ hall⟩
  simp only [buildCollectionTableSpec, guard, if_pos hk, hcs, Option.bind_eq_bind,
    Option.bind_some, pure]
  exact hmodel

end Whole

/-! ## The tables under the statements -/

/-- The table under the name `n` has the columns that creating the collection makes. -/
def TableOf (cat : Catalog) (n : Text) (c : CollectionDef) : Prop :=
  ∃ cols made, cat.relations.get? n = some (.table cols) ∧ createColumns c = some made ∧
    (made.map Prod.fst).Nodup ∧ cols.Perm made

/-- The columns of the fields that are hidden behind a later field with the same identity key. -/
def hiddenColumns (fs : List FieldDefinition) : List (Text × Option Text) :=
  (overridden fs).map fun f => (f.name, f.colType)

section Statements

variable {pg : Postgres} {c old new : CollectionDef} {cat cat' : Catalog}

theorem length_of_safeName {s t : Text} (h : safeName s = some t) :
    (s.map Char.utf8Size).sum ≤ 63 := by
  unfold safeName at h
  split_ifs at h with hs
  exact hs.2

theorem TableOf.congr {n : Text} (h : TableOf cat n old) (ht : old.type = new.type)
    (hs : old.schema = new.schema) (hr : cat'.relations.get? n = cat.relations.get? n) :
    TableOf cat' n new := by
  obtain ⟨cols, made, hcols, hmade, hrest⟩ := h
  refine ⟨cols, made, hr.trans hcols, ?_, hrest⟩
  rw [← hmade]
  simp only [createColumns, CollectionDef.collectionType, ht, hs]

/-- Creating the table of a new collection. -/
theorem tableOf_create (h : createCollectionTable pg c cat = some cat')
    (hview : c.collectionType ≠ "view") (hfree : cat.relations.get? c.name = none) :
    TableOf cat' c.name c ∧ (c.name.map Char.utf8Size).sum ≤ 63 := by
  simp only [createCollectionTable, Option.bind_eq_bind, Option.bind_eq_some_iff] at h
  obtain ⟨table, htable, h⟩ := h
  have hlen := length_of_safeName htable
  obtain rfl := eq_of_safeName htable
  rw [if_neg hview] at h
  have hhas : cat.relations.has c.name = false := by rw [Dict.has, hfree, Option.isSome_none]
  simp only [Option.bind_eq_some_iff, hhas, Bool.false_eq_true, if_false] at h
  obtain ⟨columns, hcols, -, -, _, hnd, h⟩ := h
  rw [Option.guard_eq_some'] at hnd
  obtain rfl := Option.some.inj h
  exact ⟨⟨columns, columns, Dict.get?_set_self _ _ _, hcols, hnd, .refl _⟩, hlen⟩

end Statements

section Update

variable {pg : Postgres} {old new : CollectionDef} {cat cat' : Catalog}

/-- An update of a table leaves the columns that creating the new collection makes, if the
hidden fields have the same columns. -/
theorem tableOf_alter {cmds : List (Alter Text Text)} {n : Text} (ho : TableOf cat n old)
    (hcmds : alterColumns old new = some cmds) (h : alterTable n cmds cat = some cat')
    (hhid : (hiddenColumns old.schema).Perm (hiddenColumns new.schema)) :
    TableOf cat' n new := by
  obtain ⟨cols, made, hcols, hmade, hnd, hp⟩ := ho
  obtain ⟨-, hold, -⟩ := createColumns_eq_some_iff.1 hmade
  have hparse := parseFields_of_alterColumns hcmds
  have heff : ∀ g ∈ effective new.schema, g.colType ≠ none := fun g hg hnone => by
    rw [alterColumns_eq_none hg hnone] at hcmds
    cases hcmds
  -- a hidden field of the new list has the column of a hidden one of the old list
  have hnew : ∀ g ∈ new.schema, g.colType ≠ none := by
    intro g hg
    rcases List.mem_append.1 ((perm_overridden_effective _).mem_iff.1 hg) with hg | hg
    · obtain ⟨f, hf, he⟩ := List.mem_map.1 (hhid.mem_iff.2 (List.mem_map_of_mem hg))
      rw [← (Prod.mk.inj he).2]
      exact hold f ((perm_overridden_effective _).mem_iff.2 (List.mem_append_left _ hf))
    · exact heff g hg
  have hspecs : ((overridden old.schema).map fieldSpec).Perm
      ((overridden new.schema).map fieldSpec) := by
    have hmap := hhid.map fun p => (p.1, p.2.getD [])
    rw [hiddenColumns, hiddenColumns, List.map_map, List.map_map] at hmap
    exact hmap
  have hmade' := createColumns_eq_some_iff.2 ⟨hparse, hnew, rfl⟩
  -- the commands run on the live table as on the one with the columns in order
  obtain ⟨t, ht, hlive⟩ : ∃ t, Alter.exec cmds (startingTable cols) = some t ∧
      cat'.relations.get? n = some (.table (t.map spec)) := by
    unfold alterTable at h
    split_ifs at h with hnil
    · subst hnil
      obtain rfl := Option.some.inj h
      exact ⟨_, rfl, by rw [map_spec_startingTable, hcols]⟩
    · rw [hcols] at h
      obtain ⟨t, ht, rfl⟩ := Option.map_eq_some_iff.1 h
      exact ⟨t, ht, Dict.get?_set_self _ _ _⟩
  obtain ⟨u, hu, htu⟩ := Alter.exec_perm (hp.map _) ht
  obtain ⟨cmds', hcmds', hrun⟩ := exec_alterColumns hmade hnd hparse heff
  obtain rfl := Option.some.inj (hcmds'.symm.trans hcmds)
  rcases hrun with ⟨-, hnone⟩ | ⟨-, s, hspec, -, ⟨-, u', hu', hpu⟩ | ⟨-, hnone⟩⟩
  · exact absurd (hu.symm.trans hnone) (Option.some_ne_none _)
  · obtain rfl := Option.some.inj (hu'.symm.trans hu)
    have hlast : (t.map spec).Perm _ :=
      (htu.map spec).trans ((perm_createColumns_iff hold hmade' hspec hpu).2 hspecs)
    refine ⟨_, _, hlive, hmade', (hlast.map Prod.fst).nodup_iff.1 ?_, hlast⟩
    rw [names_map_spec]
    refine Alter.nodup_exec ?_ ht
    rw [← names_map_spec, map_spec_startingTable]
    exact (hp.map Prod.fst).nodup_iff.2 hnd
  · exact absurd (hu.symm.trans hnone) (Option.some_ne_none _)

/-- The update of a table. -/
theorem tableOf_update (h : updateCollectionTable pg old new cat = some cat')
    (hold : old.collectionType ≠ "view") (hnew : new.collectionType ≠ "view")
    (ht : TableOf cat old.name old)
      (hhid : (hiddenColumns old.schema).Perm (hiddenColumns new.schema)) :
    TableOf cat' new.name new ∧ (new.name.map Char.utf8Size).sum ≤ 63 := by
  simp only [updateCollectionTable, Option.bind_eq_bind, Option.bind_eq_some_iff] at h
  obtain ⟨oldName, holdName, newName, hnewName, h⟩ := h
  have hlen := length_of_safeName hnewName
  obtain rfl := eq_of_safeName holdName
  obtain rfl := eq_of_safeName hnewName
  rw [if_neg (by tauto)] at h
  refine ⟨?_, hlen⟩
  obtain ⟨cols, made, hcols, hrest⟩ := ht
  split_ifs at h with hname
  all_goals
    simp only [Option.bind_eq_some_iff] at h
    obtain ⟨cmds, hcmds, renamed, hrename, altered, halter, -, -, h⟩ := h
    have hlive : renamed.relations.get? new.name = some (.table cols) := by
      first
      | exact (Option.some.inj hrename) ▸ not_not.1 hname ▸ hcols
      | (unfold Catalog.rename at hrename
         simp only [hcols] at hrename
         split_ifs at hrename
         exact (Option.some.inj hrename) ▸ Dict.get?_set_self _ _ _)
    obtain ⟨cols', made', hcols', hrest'⟩ :=
      tableOf_alter ⟨cols, made, hlive, hrest⟩ hcmds halter hhid
    exact ⟨cols', made', Option.some.inj h ▸ hcols', hrest'⟩

end Update

section Replace

variable {pg : Postgres} {old new : CollectionDef} {cat cat' : Catalog}

theorem get?_drop (cat : Catalog) (n m : Text) :
    (cat.drop n).relations.get? m = if n = m then none else cat.relations.get? m :=
  Dict.get?_del _ _ _

theorem eq_drop_of_dropCollectionObject {n : Text}
    (h : dropCollectionObject pg n cat = some cat') : cat' = cat.drop n := by
  simp only [dropCollectionObject, Option.bind_eq_bind, Option.bind_eq_some_iff] at h
  obtain ⟨table, htable, -, -, h⟩ := h
  obtain rfl := eq_of_safeName htable
  exact (Option.some.inj h).symm

/-- A view that becomes a table. -/
theorem tableOf_replace (h : updateCollectionTable pg old new cat = some cat')
    (hold : old.collectionType = "view") (hnew : new.collectionType ≠ "view")
    (hfree : new.name ≠ old.name → cat.relations.get? new.name = none) :
    TableOf cat' new.name new ∧ (new.name.map Char.utf8Size).sum ≤ 63 := by
  simp only [updateCollectionTable, Option.bind_eq_bind, Option.bind_eq_some_iff] at h
  obtain ⟨oldName, holdName, newName, hnewName, h⟩ := h
  obtain rfl := eq_of_safeName holdName
  obtain rfl := eq_of_safeName hnewName
  have htype : old.collectionType ≠ new.collectionType := fun he => hnew (he ▸ hold)
  rw [if_pos (.inl hold), if_pos (.inr (.inl htype))] at h
  simp only [replaceCollectionObject, Option.bind_eq_bind, Option.bind_eq_some_iff] at h
  obtain ⟨oldName', -, -, -, h⟩ := h
  rw [if_neg fun hv => hnew hv.2.1] at h
  simp only [if_neg hnew] at h
  obtain ⟨cat₁, hdrop, h⟩ := Option.bind_eq_some_iff.1 h
  obtain rfl := eq_drop_of_dropCollectionObject hdrop
  refine tableOf_create h hnew ?_
  rw [get?_drop]
  split_ifs with hn
  · rfl
  · exact hfree (Ne.symm hn)

/-- An update under a new name leaves no relation under the old one. -/
theorem relation_gone (h : updateCollectionTable pg old new cat = some cat')
    (hne : old.name ≠ new.name) : cat'.relations.get? old.name = none := by
  have hgone : (cat.drop old.name).relations.get? old.name = none := by rw [get?_drop, if_pos rfl]
  have hframe : ∀ {cat₁ : Catalog}, cat₁.Frame cat' [new.name] →
      cat₁.relations.get? old.name = none → cat'.relations.get? old.name = none :=
    fun hf hnone => (hf old.name (by simpa using hne)).1.trans hnone
  simp only [updateCollectionTable, Option.bind_eq_bind, Option.bind_eq_some_iff] at h
  obtain ⟨oldName, holdName, newName, hnewName, h⟩ := h
  obtain rfl := eq_of_safeName holdName
  obtain rfl := eq_of_safeName hnewName
  split_ifs at h with hview hchanged
  · simp only [replaceCollectionObject, Option.bind_eq_bind, Option.bind_eq_some_iff] at h
    obtain ⟨oldName', hname', -, -, h⟩ := h
    obtain rfl := eq_of_safeName hname'
    rw [if_neg fun hv => hne hv.2.2] at h
    split_ifs at h with hnew
    · simp only [Option.bind_eq_some_iff] at h
      obtain ⟨cat₁, hdrop, table, htable, h⟩ := h
      obtain rfl := eq_drop_of_dropCollectionObject hdrop
      obtain rfl := eq_of_safeName htable
      split_ifs at h
      exact hframe (Option.some.inj h ▸ Catalog.frame_put _ _ _) hgone
    · obtain ⟨cat₁, hdrop, h⟩ := Option.bind_eq_some_iff.1 h
      obtain rfl := eq_drop_of_dropCollectionObject hdrop
      exact hframe (createCollectionTable_frame h) hgone
  · exact absurd (.inl hne) hchanged
  · simp only [Option.bind_eq_some_iff] at h
    obtain ⟨cmds, -, renamed, hrename, altered, halter, -, -, h⟩ := h
    refine hframe ((alterTable_frame halter).trans
      (Option.some.inj h ▸ Catalog.frame_touch _ _)) ?_
    unfold Catalog.rename at hrename
    cases hr : cat.relations.get? old.name with
    | none => simp [hr] at hrename
    | some r =>
      simp only [hr] at hrename
      split_ifs at hrename
      obtain rfl := Option.some.inj hrename
      exact (Dict.get?_set_ne _ _ (Ne.symm hne)).trans hgone

end Replace

/-! ## What the service keeps -/

open CollectionService

/-- A collection with a name of its own that is a view, or whose table a backup can describe. -/
def Describable (name type : Text) (schema : List FieldDefinition) : Prop :=
  name ∉ systemTables ∧
    (type = "view" ∨ isName name = true ∧ (type = "base" ∨ type = "auth") ∧
      ∀ f ∈ schema, isName f.name = true)

/-- A collection with a table that a backup describes as it is. -/
structure Stored (cat : Catalog) (r : CollectionRecord) : Prop where
  describable : Describable r.name r.type r.schema
  short : (r.name.map Char.utf8Size).sum ≤ 63
  table : TableOf cat r.name r.toDef

/-- The invariant of the registry : its tables are those of its collections, and the records
of system tables are locked. -/
structure Backed (s : Registry) : Prop where
  keyed : s.WellKeyed
  locked : ∀ r ∈ s.records, r.name ∈ systemTables → r.system = true
  named : ∀ n, s.catalog.relations.get? n ≠ none →
    n ∈ systemTables ∨ n ∈ s.records.map CollectionRecord.name
  stored : ∀ r ∈ s.records, r.type ≠ "view" → r.name ∉ systemTables → Stored s.catalog r

section Invariant

variable {pg : Postgres} {s s' : Registry} {r old new : CollectionRecord} {cat cat' : Catalog}

theorem collectionType_toDef (h : r.type = "view" ∨ r.type = "base" ∨ r.type = "auth") :
    r.toDef.collectionType = r.type := by
  refine if_neg fun hnil => ?_
  have ht : r.type = [] := hnil
  rw [ht] at h
  revert h
  decide

theorem Describable.type_mem {name type : Text} {schema : List FieldDefinition}
    (h : Describable name type schema) : type = "view" ∨ type = "base" ∨ type = "auth" :=
  h.2.imp_right fun h => h.2.1

theorem Stored.congr (h : Stored cat r)
    (hr : cat'.relations.get? r.name = cat.relations.get? r.name) : Stored cat' r :=
  ⟨h.describable, h.short, h.table.congr rfl rfl hr⟩

/-- A stored collection has the columns its canonical model states. -/
theorem Stored.hasModel (h : Stored s.catalog r) (hview : r.type ≠ "view") :
    HasModel s.catalog r := by
  obtain ⟨⟨-, hdesc⟩, hshort, cols, made, hcols, hmade, hnd, hp⟩ := h
  obtain ⟨hname, htype, hfields⟩ := hdesc.resolve_left hview
  obtain ⟨hparse, hdef, rfl⟩ := createColumns_eq_some_iff.1 hmade
  have hkind : r.toDef.collectionType = r.type := collectionType_toDef (.inr htype)
  rw [hkind] at hnd hp
  have hids : ∀ f ∈ r.schema, isIdentifier f.name = true := by
    intro f hf
    unfold parseFields at hparse
    split_ifs at hparse with hall
    have hlen : (f.name.map Char.utf8Size).sum ≤ 63 := by
      simpa using List.all_eq_true.1 hall f hf
    simp [isIdentifier, hfields f hf, hlen]
  obtain ⟨model, hmodel, hrows⟩ := @buildCollectionTableSpec_eq r.name r.type r.schema
    (by simp [isIdentifier, hname, hshort]) htype hids hdef hnd
  obtain ⟨rows, hlive, hperm⟩ := mapM_perm hp.symm hrows
  have hcat : s.catalog.relations.get? r.name = some (.table cols) := hcols
  exact ⟨model, rows, hmodel, by rw [liveColumns, hcat]; exact hlive, hperm⟩

theorem Backed.agrees (h : Backed s) : Agrees s := fun r hr hview hsys =>
  (h.stored r hr hview hsys).hasModel hview

theorem addCollection_backed (hs : Backed s) (hd : Describable r.name r.type r.schema)
    (h : addCollection pg r s = .ok s') : Backed s' := by
  obtain ⟨hnew, hrec, hcat⟩ := addCollection_spec h
  have hframe : s.catalog.Frame s'.catalog [r.name] := createCollectionTable_frame hcat
  have hmem : ∀ q ∈ s'.records, q ∈ s.records ∨ q = r := fun q hq => by
    simpa [hrec] using hq
  have hfree : s.catalog.relations.get? r.name = none := by
    by_contra hno
    rcases hs.named r.name hno with hsys | hn
    · exact hd.1 hsys
    · obtain ⟨q, hq, he⟩ := List.mem_map.1 hn
      exact (hnew q hq).2 he
  refine ⟨addCollection_wellKeyed hs.keyed h, fun q hq hsys => ?_, fun n hn => ?_,
    fun q hq hview hsys => ?_⟩
  · rcases hmem q hq with hq | rfl
    · exact hs.locked q hq hsys
    · exact absurd hsys hd.1
  · rw [hrec, List.map_append, List.mem_append]
    by_cases he : n = r.name
    · exact .inr (.inr (List.mem_singleton.2 he))
    · rw [(hframe n (by simpa using he)).1] at hn
      exact (hs.named n hn).imp_right .inl
  · rcases hmem q hq with hq | rfl
    · refine (hs.stored q hq hview hsys).congr (hframe q.name ?_).1
      simpa using (hnew q hq).2
    · have hkind : q.toDef.collectionType = q.type := collectionType_toDef hd.type_mem
      obtain ⟨htable, hshort⟩ := tableOf_create hcat (by rw [hkind]; exact hview) hfree
      exact ⟨hd, hshort, htable⟩

end Invariant

section Change

variable {lower : Text → Text} {pg : Postgres} {s s' : Registry} {r old new : CollectionRecord}

theorem eq_of_not_changed (h : physicalSchemaChanged old new = false) :
    old.name = new.name ∧ old.type = new.type ∧ old.schema = new.schema := by
  simp only [physicalSchemaChanged, Bool.or_eq_false_iff, decide_eq_false_iff_not, not_not] at h
  exact ⟨h.1.1.1.1, h.1.1.1.2, h.1.1.2⟩

/-- The table of a changed collection. -/
theorem stored_change (hs : Backed s) (hold : old ∈ s.records) (hid : new.id = old.id)
    (hsys : old.name ∉ systemTables) (hd : Describable new.name new.type new.schema)
    (hhid : old.type ≠ "view" → (hiddenColumns old.schema).Perm (hiddenColumns new.schema))
    (hview : new.type ≠ "view") (h : changeCollection pg old new s = .ok s') :
    Stored s'.catalog new := by
  obtain ⟨hnew, -, hcat⟩ := changeCollection_spec h
  have hkind : new.toDef.collectionType = new.type := collectionType_toDef hd.type_mem
  split_ifs at hcat with hch
  · by_cases hov : old.type = "view"
    · have hkind' : old.toDef.collectionType = old.type := collectionType_toDef (.inl hov)
      obtain ⟨htable, hshort⟩ := tableOf_replace hcat (hkind'.trans hov) (by rwa [hkind])
        fun hne => by
          by_contra hno
          rcases hs.named new.name hno with hn | hn
          · exact hd.1 hn
          · obtain ⟨q, hq, he⟩ := List.mem_map.1 hn
            refine hnew q hq (fun hqi => hne ?_) he
            obtain rfl := hs.keyed.eq_of_id hq hold (hqi.trans hid)
            exact he.symm
      exact ⟨hd, hshort, htable⟩
    · have hst := hs.stored old hold hov hsys
      have hkind' : old.toDef.collectionType = old.type :=
        collectionType_toDef hst.describable.type_mem
      obtain ⟨htable, hshort⟩ := tableOf_update hcat (by rwa [hkind']) (by rwa [hkind]) hst.table
        (hhid hov)
      exact ⟨hd, hshort, htable⟩
  · obtain ⟨hn, ht, hf⟩ := eq_of_not_changed (Bool.not_eq_true _ ▸ hch)
    have hst := hs.stored old hold (ht ▸ hview) hsys
    refine ⟨hd, hn ▸ hst.short, ?_⟩
    rw [hcat, ← hn]
    exact hst.table.congr ht hf rfl

theorem changeCollection_backed (hs : Backed s) (hold : old ∈ s.records) (hid : new.id = old.id)
    (hsys : old.system = false) (hd : Describable new.name new.type new.schema)
    (hhid : old.type ≠ "view" → new.type ≠ "view" →
      (hiddenColumns old.schema).Perm (hiddenColumns new.schema))
    (h : changeCollection pg old new s = .ok s') : Backed s' := by
  obtain ⟨hnew, hrec, hcat⟩ := changeCollection_spec h
  have hframe := changeCollection_frame h
  have holdsys : old.name ∉ systemTables := fun hn => by
    rw [hs.locked old hold hn] at hsys
    cases hsys
  have hmem : ∀ q ∈ s'.records, q = new ∨ q ∈ s.records ∧ q.id ≠ old.id := by
    intro q hq
    rw [hrec, List.mem_map] at hq
    obtain ⟨p, hp, rfl⟩ := hq
    unfold replaced
    split_ifs with hpi
    · exact .inl rfl
    · exact .inr ⟨hp, by rwa [← hid]⟩
  have hkeep : ∀ q ∈ s.records, q.id ≠ old.id → q ∈ s'.records := by
    intro q hq hne
    rw [hrec]
    exact List.mem_map.2 ⟨q, hq, if_neg (by rwa [hid])⟩
  have hin : new ∈ s'.records := by
    rw [hrec]
    exact List.mem_map.2 ⟨old, hold, if_pos hid.symm⟩
  refine ⟨changeCollection_wellKeyed hs.keyed h, fun q hq hqs => ?_, fun n hn => ?_,
    fun q hq hview hqs => ?_⟩
  · rcases hmem q hq with rfl | ⟨hq, -⟩
    · exact absurd hqs hd.1
    · exact hs.locked q hq hqs
  · by_cases hnn : n = new.name
    · exact .inr (hnn ▸ List.mem_map_of_mem hin)
    · by_cases hno : n = old.name
      · -- the old name is left behind
        subst hno
        split_ifs at hcat with hch
        · exact absurd (relation_gone hcat hnn) hn
        · exact absurd (eq_of_not_changed (Bool.not_eq_true _ ▸ hch)).1 hnn
      · rw [(hframe n (by simp [hnn, hno])).1] at hn
        refine (hs.named n hn).imp_right fun hn => ?_
        obtain ⟨q, hq, rfl⟩ := List.mem_map.1 hn
        refine List.mem_map_of_mem (hkeep q hq fun hqi => hno ?_)
        rw [hs.keyed.eq_of_id hq hold hqi]
  · rcases hmem q hq with rfl | ⟨hq, hne⟩
    · exact stored_change hs hold hid holdsys hd (fun ho => hhid ho hview) hview h
    · refine (hs.stored q hq hview hqs).congr (hframe q.name ?_).1
      have hne' : q.name ≠ new.name := hnew q hq (by rwa [hid])
      simpa using ⟨hs.keyed.name_ne hq hold hne, hne'⟩

end Change

/-! ## Runs -/

section Runs

variable {lower : Text → Text} {pg : Postgres} {s s' : Registry} {r : CollectionRecord}

theorem dropCollection_backed (hs : Backed s) (hr : r ∈ s.records)
    (h : dropCollection pg r s = .ok s') : Backed s' := by
  obtain ⟨hrec, hcat⟩ := dropCollection_spec h
  have hdrop := eq_drop_of_dropCollectionObject hcat
  have hmem : ∀ q ∈ s'.records, q ∈ s.records ∧ q.id ≠ r.id := fun q hq => by
    rw [hrec] at hq
    simpa using List.mem_filter.1 hq
  have hget : ∀ n, s'.catalog.relations.get? n =
      if r.name = n then none else s.catalog.relations.get? n := fun n => by rw [hdrop, get?_drop]
  refine ⟨dropCollection_wellKeyed hs.keyed h, fun q hq hqs => ?_, fun n hn => ?_,
    fun q hq hview hqs => ?_⟩
  · exact hs.locked q (hmem q hq).1 hqs
  · rw [hget] at hn
    split_ifs at hn with hne
    · exact absurd rfl hn
    · refine (hs.named n hn).imp_right fun hn => ?_
      obtain ⟨q, hq, rfl⟩ := List.mem_map.1 hn
      refine List.mem_map_of_mem (hrec ▸ List.mem_filter.2 ⟨hq, decide_eq_true fun hqi => hne ?_⟩)
      rw [hs.keyed.eq_of_id hq hr hqi]
  · obtain ⟨hq, hqi⟩ := hmem q hq
    refine (hs.stored q hq hview hqs).congr ?_
    rw [hget, if_neg (Ne.symm (hs.keyed.name_ne hq hr hqi))]

/-- The name a record has after an update. -/
def nameAsked (lower : Text → Text) (r : CollectionRecord) (data : CollectionUpdate) : Text :=
  match data.name with
  | some n => if lower n = lower r.name then r.name else n
  | none => r.name

/-- An operation that makes describable collections and, where it changes a table, gives the
hidden fields the columns that those of the stored schema have. Imports are left out. -/
def Regular (lower : Text → Text) (s : Registry) : Op → Prop
  | .create _ data => Describable data.name data.type data.schema
  | .update _ i data => ∀ r, findCollection lower s i = .ok r → r.system = false →
      Describable (nameAsked lower r data) (data.type.getD r.type) (data.schema.getD r.schema) ∧
        (r.type ≠ "view" → data.type.getD r.type ≠ "view" →
          (hiddenColumns r.schema).Perm (hiddenColumns (data.schema.getD r.schema)))
  | .delete _ => True
  | .importAll _ _ => False

/-- Each operation of a run is regular in the state before it. -/
def RegularAll (lower : Text → Text) (pg : Postgres) : Registry → List Op → Prop
  | _, [] => True
  | s, op :: ops => Regular lower s op ∧ RegularAll lower pg (step lower pg s op) ops

theorem eq_nameAsked {data : CollectionUpdate} {n : Text}
    (h : newName lower s r data.name = .ok n) : n = nameAsked lower r data := by
  unfold newName at h
  unfold nameAsked
  cases hn : data.name with
  | none =>
    rw [hn] at h
    exact (Except.ok.inj h).symm
  | some m =>
    rw [hn] at h
    simp only at h ⊢
    split_ifs at h ⊢
    · exact (Except.ok.inj h).symm
    · obtain ⟨-, -, h⟩ := Failing.bind_eq_ok.1 h
      cases h
    · obtain ⟨-, -, h⟩ := Failing.bind_eq_ok.1 h
      exact (Except.ok.inj h).symm

theorem createCollection_backed {g : Generated} {data : CollectionCreate} (hs : Backed s)
    (hop : Describable data.name data.type data.schema)
    (h : createCollection lower pg g data s = .ok s') : Backed s' := by
  obtain ⟨-, -, h⟩ := Failing.bind_eq_ok.1 h
  split_ifs at h
  obtain ⟨id, -, h⟩ := Failing.bind_eq_ok.1 h
  exact addCollection_backed hs hop h

theorem updateCollection_backed {g : Generated} {i : Text} {data : CollectionUpdate}
    (hs : Backed s) (hop : Regular lower s (.update g i data))
    (h : updateCollection lower pg g i data s = .ok s') : Backed s' := by
  obtain ⟨record, hfind, h⟩ := Failing.bind_eq_ok.1 h
  split_ifs at h with hsys
  obtain ⟨name, hname, h⟩ := Failing.bind_eq_ok.1 h
  obtain rfl := eq_nameAsked hname
  have hlock : record.system = false := Bool.not_eq_true _ ▸ hsys
  obtain ⟨hd, hhid⟩ := hop record hfind hlock
  exact changeCollection_backed hs (findCollection_mem hfind) (by rfl) hlock hd hhid h

theorem deleteCollection_backed {i : Text} (hs : Backed s)
    (h : deleteCollection lower pg i s = .ok s') : Backed s' := by
  obtain ⟨record, hfind, h⟩ := Failing.bind_eq_ok.1 h
  split_ifs at h
  exact dropCollection_backed hs (findCollection_mem hfind) h

theorem step_backed {op : Op} (hs : Backed s) (hop : Regular lower s op) :
    Backed (step lower pg s op) := by
  cases op with
  | create g data =>
    cases h : createCollection lower pg g data s with
    | error e => simpa only [step, h] using hs
    | ok s' => simpa only [step, h] using createCollection_backed hs hop h
  | update g i data =>
    cases h : updateCollection lower pg g i data s with
    | error e => simpa only [step, h] using hs
    | ok s' => simpa only [step, h] using updateCollection_backed hs hop h
  | delete i =>
    cases h : deleteCollection lower pg i s with
    | error e => simpa only [step, h] using hs
    | ok s' => simpa only [step, h] using deleteCollection_backed hs h
  | importAll entries deleteMissing => exact hop.elim

/-- After every run of regular operations the tables of the collections have the columns
their canonical models state. -/
theorem run_agrees {ops : List Op} (hs : Backed s) (hops : RegularAll lower pg s ops) :
    Agrees (run lower pg s ops) := by
  have hrun : Backed (run lower pg s ops) := by
    induction ops generalizing s with
    | nil => exact hs
    | cons op ops ih => exact ih (step_backed hs hops.1) hops.2
  exact hrun.agrees

theorem backed_empty : Backed ⟨[], ⟨[], []⟩⟩ where
  keyed := ⟨.nil, .nil⟩
  locked _ h := absurd h List.not_mem_nil
  named _ h := absurd rfl h
  stored _ h := absurd h List.not_mem_nil

/-- A schema whose second field has the id of the first. -/
def repeatedIds : List FieldDefinition :=
  [{ id := "f1", name := "title", type := .text }, { id := "f1", name := "body", type := .text }]

/-- The collection that the repeated id is given to, after the update. -/
def repeatedRecord : CollectionRecord where
  id := "posts0000000001"
  name := "posts"
  type := "base"
  system := false
  schema := repeatedIds
  indexes := []
  rules := {}
  options := []

/-- An update that gives two fields one id renames the column of the first to the second. -/
theorem repeated_id_disagrees : ¬∀ (lower : Text → Text) (pg : Postgres) (s : Registry)
    (ops : List Op), Backed s → (∀ op ∈ ops, ∃ g, (∃ data, op = .create g data) ∨
      ∃ i data, op = .update g i data) → Agrees (run lower pg s ops) := by
  intro h
  have hmodel := h Text.lower anyPostgres ⟨[], ⟨[], []⟩⟩
    [.create ⟨"posts0000000001", fun _ => []⟩ { name := "posts", schema := repeatedIds.take 1 },
      .update noGenerated "posts" { schema := some repeatedIds }] backed_empty
    (fun op hop => by
      rcases List.mem_pair.1 hop with rfl | rfl
      · exact ⟨_, .inl ⟨_, rfl⟩⟩
      · exact ⟨_, .inr ⟨_, _, rfl⟩⟩)
    repeatedRecord (by decide) (by decide) (by decide)
  obtain ⟨model, rows, hmodel, hlive, hp⟩ := hmodel
  have hfive : (buildCollectionTableSpec repeatedRecord.name repeatedRecord.type
      repeatedRecord.schema).map (·.columns.length) = some 5 := by decide
  have hfour : (liveColumns (run Text.lower anyPostgres ⟨[], ⟨[], []⟩⟩
      [.create ⟨"posts0000000001", fun _ => []⟩ { name := "posts", schema := repeatedIds.take 1 },
        .update noGenerated "posts" { schema := some repeatedIds }]).catalog
          repeatedRecord.name).map List.length = some 4 := by decide
  rw [hmodel, Option.map_some, Option.some.injEq] at hfive
  rw [hlive, Option.map_some, Option.some.injEq] at hfour
  have hlen := hp.length_eq
  rw [List.length_map] at hlen
  omega

/-- Creating a collection and renaming one of its fields. -/
theorem renamed_field_agrees : Agrees (run Text.lower anyPostgres ⟨[], ⟨[], []⟩⟩
    [.create ⟨"posts0000000001", fun _ => []⟩ { name := "posts", schema := repeatedIds.take 1 },
      .update noGenerated "posts" { schema := some (repeatedIds.drop 1) }]) := by
  refine run_agrees backed_empty ⟨⟨by decide, .inr (by decide)⟩, fun r hr hsys => ?_, trivial⟩
  have hrec : r = { repeatedRecord with schema := repeatedIds.take 1 } := by
    refine Except.ok.inj (hr.symm.trans ?_)
    decide
  subst hrec
  exact ⟨⟨by decide, .inr (by decide)⟩, fun _ _ => .nil⟩

end Runs

end Canonical

end PPBase
