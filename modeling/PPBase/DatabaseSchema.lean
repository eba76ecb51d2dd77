import PPBase.CopyRoundTrip

/-!
# The schema of an archive

A `Snapshot` has the fields of a `DatabaseSchema`; `Snapshot.error` is the first error of its
`__post_init__` and `DatabaseSchema.make` the constructor. `fromArchive` also asks for a segment
of every table, as a restore does. An index has the columns of its keys.

`checkLayout_eq_ok` and `segmentsError_eq_none` : what a layout must satisfy, and what the
segments must satisfy beside the tables. `restorable_iff` : what the writer has finished is
accepted if and only if no payload is over 200 times as long as its stream, all payloads are at
most 64 GiB, and the tables and columns are those of the schema.
-/

namespace PPBase

namespace CopyFormat

/-- `SCHEMA_CONTRACT_VERSION` -/
def schemaContractVersion : ℕ := 1

/-- `SYSTEM_SCHEMA_VERSION` -/
def systemSchemaVersion : ℕ := 1

/-- `ViewSpec` -/
structure ViewSpec where
  name : Text
  dependsOn : List Text

/-- `IndexSpec` -/
structure IndexSpec where
  name : Text
  table : Text
  keys : List Text
  included : List Text

/-- The fields of a `DatabaseSchema`, with the files of the migrations. -/
structure Snapshot where
  tables : List TableSpec
  views : List ViewSpec
  indexes : List IndexSpec
  migrations : List Text
  segments : List CopySegment
  dataCopySize : ℕ
  contractVersion : ℕ := schemaContractVersion
  systemSchemaVersion : ℕ := CopyFormat.systemSchemaVersion

/-- An error, unless the test holds. -/
def failUnless (test : Prop) [Decidable test] (e : Text) : Option Text :=
    if test then none else some e

theorem failUnless_eq_none {test : Prop} [Decidable test] {e : Text} :
    failUnless test e = none ↔ test := by
  by_cases h : test
  · rw [failUnless, if_pos h]
    exact iff_of_true rfl h
  · rw [failUnless, if_neg h]
    exact iff_of_false (Option.some_ne_none e) h

namespace Snapshot

def tableNames (d : Snapshot) : List Text := d.tables.map TableSpec.name

def viewNames (d : Snapshot) : List Text := d.views.map ViewSpec.name

/-- `table_by_name` -/
def tableByName? (d : Snapshot) (name : Text) : Option TableSpec :=
  d.tables.find? fun t => t.name = name

/-- The first dependency of a view that is no relation. -/
def viewError (d : Snapshot) (v : ViewSpec) : Option Text :=
  v.dependsOn.findSome? fun dep =>
    failUnless (dep ∈ d.tableNames ++ d.viewNames)
      (("view " : Text) ++ quoted v.name ++ (" depends on unknown relation " : Text) ++ quoted dep)

/-- An index has a table, and its columns are columns of the table. -/
def indexError (d : Snapshot) (i : IndexSpec) : Option Text :=
  match d.tableByName? i.table with
  | none =>
    some (("index " : Text) ++ quoted i.name ++ (" targets unknown table " : Text) ++
      quoted i.table)
  | some t =>
    (i.keys.findSome? fun c => failUnless (c ∈ t.columnNames)
      (("index " : Text) ++ quoted i.name ++ (" references unknown column " : Text) ++
        quoted c)).or <|
    i.included.findSome? fun c => failUnless (c ∈ t.columnNames)
      (("index " : Text) ++ quoted i.name ++ (" includes unknown column " : Text) ++ quoted c)

/-- The checks before those of the segments. -/
def staticError (d : Snapshot) : Option Text :=
  (failUnless (d.contractVersion = schemaContractVersion)
    (("unsupported schema contract version: " : Text) ++ number d.contractVersion)).or <|
  (failUnless (d.systemSchemaVersion = CopyFormat.systemSchemaVersion)
    (("unsupported system schema version: " : Text) ++ number d.systemSchemaVersion)).or <|
  (failUnless d.tableNames.Nodup "duplicate table names in schema").or <|
  (failUnless d.viewNames.Nodup "duplicate view names in schema").or <|
  (d.views.findSome? d.viewError).or <|
  (failUnless (d.indexes.map IndexSpec.name).Nodup "duplicate index names in schema").or <|
  (d.indexes.findSome? d.indexError).or <|
  failUnless d.migrations.Nodup "duplicate migration files in schema"

/-- Each segment belongs to a table with its columns, which no other segment belongs to. -/
def segmentsError (d : Snapshot) : List Text → List CopySegment → Option Text
  | _, [] => none
  | seen, s :: rest =>
    match d.tableByName? s.table with
    | none => some (("segment targets unknown table " : Text) ++ quoted s.table)
    | some t =>
      if s.table ∈ seen then some (("multiple segments target table " : Text) ++ quoted s.table)
      else if s.columns ≠ t.columnNames then
        some (("segment for " : Text) ++ quoted s.table ++
          (" does not match the table's column order" : Text))
      else segmentsError d (s.table :: seen) rest

/-- The first error of `__post_init__`. -/
def error (d : Snapshot) : Option Text :=
  d.staticError.or <|
    match validateSegmentLayout d.segments d.dataCopySize defaultMaxTotal defaultMaxRatio with
    | .error e => some e
    | .ok _ => d.segmentsError [] d.segments

end Snapshot

/-- `DatabaseSchema` -/
structure DatabaseSchema extends Snapshot where
  valid : toSnapshot.error = none

namespace DatabaseSchema

/-- `DatabaseSchema(...)` -/
def make (d : Snapshot) : Except Text DatabaseSchema :=
  match h : d.error with
  | some e => .error e
  | none => .ok ⟨d, h⟩

/-- `assert_every_table_exported` -/
def assertEveryTableExported (d : DatabaseSchema) : Except Text Unit :=
  let segmentTables := d.segments.map CopySegment.table
  let missing := d.tableNames.filter (· ∉ segmentTables)
  if missing ≠ [] then
    .error (("restorable archive is incomplete: tables without a COPY segment: " : Text) ++
      (", " : Text).intercalate (missing.mergeSort fun a b => decide (a ≤ b)))
  else if ∀ t ∈ segmentTables, t ∈ d.tableNames then .ok ()
  else .error "every table must have exactly one COPY segment"

/-- `from_archive_dict`, of the fields that were read. -/
def fromArchive (d : Snapshot) : Except Text DatabaseSchema := do
  let schema ← make d
  schema.assertEveryTableExported
  return schema

theorem make_eq_ok {d : Snapshot} {schema : DatabaseSchema} :
    make d = .ok schema ↔ schema.toSnapshot = d := by
  unfold make
  split
  · next e he =>
    refine iff_of_false (fun h => by cases h) fun h => ?_
    rw [← h, schema.valid] at he
    cases he
  · next he =>
    constructor
    · intro h
      rw [← Except.ok.inj h]
    · rintro rfl
      rfl

end DatabaseSchema

/-! ## What is accepted -/

theorem le_of_tiles {first last : ℕ} {segments : List CopySegment} (h : Tiles first segments last) :
    first ≤ last := by
  induction segments generalizing first with
  | nil => exact h.le
  | cons s rest ih =>
    obtain ⟨rfl, h⟩ := h
    exact (Nat.le_add_right _ _).trans (ih h)

theorem checkLayout_eq_ok {totalSize maxTotal maxRatio cursor total : ℕ}
    {segments : List CopySegment} (htotal : total ≤ maxTotal) :
    checkLayout totalSize maxTotal maxRatio cursor total segments = .ok () ↔
      Tiles cursor segments totalSize ∧
      (∀ s ∈ segments, s.uncompressedSize ≤ s.compressedSize * maxRatio) ∧
      total + (segments.map CopySegment.uncompressedSize).sum ≤ maxTotal := by
  induction segments generalizing cursor total with
  | nil =>
    unfold checkLayout
    split_ifs with h
    · exact iff_of_false (fun h => by cases h) fun hall => h hall.1
    · exact iff_of_true rfl ⟨not_not.1 h, by simp, by simpa using htotal⟩
  | cons s rest ih =>
    rw [List.forall_mem_cons, List.map_cons, List.sum_cons, ← Nat.add_assoc, ← checkRatio_eq_ok]
    unfold checkLayout
    split_ifs with hoffset hend hbudget
    · exact iff_of_false (fun h => by cases h) fun hall => hoffset hall.1.1
    · refine iff_of_false (fun h => by cases h) fun hall => ?_
      exact absurd (le_of_tiles hall.1.2) (not_le.2 hend)
    · refine iff_of_false (fun h => ?_) fun hall => by omega
      obtain ⟨_, _, h⟩ := Failing.bind_eq_ok.1 h
      cases h
    · rw [Failing.bind_eq_ok]
      constructor
      · rintro ⟨⟨⟩, hratio, h⟩
        obtain ⟨htiles, hrest, hsum⟩ := (ih (not_lt.1 hbudget)).1 h
        exact ⟨⟨not_not.1 hoffset, htiles⟩, ⟨hratio, hrest⟩, hsum⟩
      · rintro ⟨⟨_, htiles⟩, ⟨hratio, hrest⟩, hsum⟩
        exact ⟨(), hratio, (ih (not_lt.1 hbudget)).2 ⟨htiles, hrest, hsum⟩⟩

/-- `validate_segment_layout` returns the segments themselves. -/
theorem validateSegmentLayout_eq_ok {segments segments' : List CopySegment}
    {totalSize maxTotal maxRatio : ℕ} :
    validateSegmentLayout segments totalSize maxTotal maxRatio = .ok segments' ↔
      segments' = segments ∧ Tiles 0 segments totalSize ∧
      (∀ s ∈ segments, s.uncompressedSize ≤ s.compressedSize * maxRatio) ∧
      (segments.map CopySegment.uncompressedSize).sum ≤ maxTotal := by
  have hcheck : checkLayout totalSize maxTotal maxRatio 0 0 segments = .ok () ↔ _ :=
    checkLayout_eq_ok (Nat.zero_le _)
  rw [Nat.zero_add] at hcheck
  unfold validateSegmentLayout
  rw [Failing.bind_eq_ok, ← hcheck]
  constructor
  · rintro ⟨⟨⟩, h, heq⟩
    exact ⟨(Except.ok.inj heq).symm, h⟩
  · rintro ⟨rfl, h⟩
    exact ⟨(), h, rfl⟩

namespace Snapshot

variable {d : Snapshot}

theorem tableByName?_eq_some {name : Text} {t : TableSpec} (hd : d.tableNames.Nodup) :
    d.tableByName? name = some t ↔ t ∈ d.tables ∧ t.name = name := by
  unfold tableByName?
  constructor
  · intro h
    exact ⟨List.mem_of_find?_eq_some h, by simpa using List.find?_some h⟩
  · rintro ⟨ht, rfl⟩
    obtain ⟨t', hfind⟩ : ∃ t', d.tables.find? (fun u => u.name = t.name) = some t' := by
      rw [← Option.isSome_iff_exists, List.find?_isSome]
      exact ⟨t, ht, by simp⟩
    have hname : t'.name = t.name := by simpa using List.find?_some hfind
    rw [hfind, List.inj_on_of_nodup_map hd (List.mem_of_find?_eq_some hfind) ht hname]

/-- What the segments are accepted for, after segments of the tables `seen`. -/
theorem segmentsError_eq_none {seen : List Text} {segments : List CopySegment}
    (hd : d.tableNames.Nodup) :
    d.segmentsError seen segments = none ↔
      (∀ s ∈ segments, ∃ t ∈ d.tables, (t.name, t.columnNames) = (s.table, s.columns)) ∧
      (segments.map CopySegment.table).Nodup ∧ ∀ s ∈ segments, s.table ∉ seen := by
  induction segments generalizing seen with
  | nil => exact iff_of_true rfl ⟨by simp, .nil, by simp⟩
  | cons s rest ih =>
    unfold segmentsError
    rw [List.forall_mem_cons, List.forall_mem_cons, List.map_cons, List.nodup_cons]
    cases ht : d.tableByName? s.table with
    | none =>
      refine iff_of_false (fun h => by cases h) fun hall => ?_
      obtain ⟨t, ht', heq⟩ := hall.1.1
      rw [(tableByName?_eq_some hd).2 ⟨ht', congrArg Prod.fst heq⟩] at ht
      cases ht
    | some t =>
      dsimp only
      split_ifs with hseen hcols
      · exact iff_of_false (fun h => by cases h) fun hall => hall.2.2.1 hseen
      · refine iff_of_false (fun h => by cases h) fun hall => ?_
        obtain ⟨t', ht', heq⟩ := hall.1.1
        rw [(tableByName?_eq_some hd).2 ⟨ht', congrArg Prod.fst heq⟩] at ht
        cases ht
        exact hcols (congrArg Prod.snd heq).symm
      · rw [ih]
        obtain ⟨ht', hname⟩ := (tableByName?_eq_some hd).1 ht
        have hhead : ∃ t ∈ d.tables, (t.name, t.columnNames) = (s.table, s.columns) :=
          ⟨t, ht', by rw [hname, not_not.1 hcols]⟩
        constructor
        · rintro ⟨hrest, hnd, hnew⟩
          refine ⟨⟨hhead, hrest⟩, ⟨fun hmem => ?_, hnd⟩, hseen, fun s' hs' hmem => ?_⟩
          · obtain ⟨s', hs', heq⟩ := List.mem_map.1 hmem
            exact hnew s' hs' (heq ▸ List.mem_cons_self)
          · exact hnew s' hs' (List.mem_cons_of_mem _ hmem)
        · rintro ⟨⟨_, hrest⟩, ⟨hnot, hnd⟩, _, hnew⟩
          refine ⟨hrest, hnd, fun s' hs' hmem => ?_⟩
          rcases List.mem_cons.1 hmem with heq | hmem
          · exact hnot (heq ▸ List.mem_map_of_mem hs')
          · exact hnew s' hs' hmem

end Snapshot

/-- The segments are those of all tables, one each. -/
theorem perm_tables_iff {d : Snapshot} (hd : d.tableNames.Nodup) {segments : List CopySegment} :
    (segments.map fun s => (s.table, s.columns)).Perm
        (d.tables.map fun t => (t.name, t.columnNames)) ↔
      d.segmentsError [] segments = none ∧
      ∀ n ∈ d.tableNames, n ∈ segments.map CopySegment.table := by
  have htables : ∀ l : List CopySegment, (l.map fun s => (s.table, s.columns)).map Prod.fst =
      l.map CopySegment.table := fun l => List.map_map
  have hnames : (d.tables.map fun t => (t.name, t.columnNames)).map Prod.fst = d.tableNames :=
    List.map_map
  rw [Snapshot.segmentsError_eq_none hd]
  constructor
  · intro hp
    have hp' := hp.map Prod.fst
    rw [htables, hnames] at hp'
    refine ⟨⟨fun s hs => ?_, hp'.nodup_iff.2 hd, fun _ _ => List.not_mem_nil⟩, fun n hn =>
      hp'.mem_iff.2 hn⟩
    obtain ⟨t, ht, heq⟩ := List.mem_map.1 (hp.mem_iff.1 (List.mem_map_of_mem hs))
    exact ⟨t, ht, heq⟩
  · rintro ⟨⟨hin, hnd, -⟩, hall⟩
    rw [List.perm_ext_iff_of_nodup (.of_map Prod.fst (htables segments ▸ hnd))
      (.of_map Prod.fst (hnames ▸ hd))]
    intro p
    constructor
    · intro hp
      obtain ⟨s, hs, rfl⟩ := List.mem_map.1 hp
      obtain ⟨t, ht, heq⟩ := hin s hs
      exact List.mem_map.2 ⟨t, ht, heq⟩
    · intro hp
      obtain ⟨t, ht, rfl⟩ := List.mem_map.1 hp
      obtain ⟨s, hs, hname⟩ := List.mem_map.1 (hall t.name (List.mem_map_of_mem ht))
      obtain ⟨t', ht', heq⟩ := hin s hs
      -- A name has one table, so that the segment has the columns of `t`.
      have hsame : t' = t :=
        List.inj_on_of_nodup_map hd ht' ht ((congrArg Prod.fst heq).trans hname)
      exact List.mem_map.2 ⟨s, hs, by rw [← heq, hsame]⟩

namespace DatabaseSchema

theorem assertEveryTableExported_eq_ok {schema : DatabaseSchema} :
    schema.assertEveryTableExported = .ok () ↔
      (∀ n ∈ schema.tableNames, n ∈ schema.segments.map CopySegment.table) ∧
      ∀ n ∈ schema.segments.map CopySegment.table, n ∈ schema.tableNames := by
  unfold assertEveryTableExported
  dsimp only
  split_ifs with hmissing hforeign
  · refine iff_of_false (fun h => by cases h) fun hall => hmissing ?_
    rw [List.filter_eq_nil_iff]
    exact fun n hn => by simpa using hall.1 n hn
  · refine iff_of_true rfl ⟨fun n hn => ?_, hforeign⟩
    have hnot := List.filter_eq_nil_iff.1 (not_not.1 hmissing) n hn
    simpa using hnot
  · exact iff_of_false (fun h => by cases h) fun hall => hforeign hall.2

/-- The archive of a schema with what a writer has written. -/
def archive (schema : DatabaseSchema) (segments : List CopySegment) (w : SegmentWriter) :
    Snapshot :=
  { schema.toSnapshot with segments, dataCopySize := w.written }

theorem nodup_tableNames (schema : DatabaseSchema) : schema.tableNames.Nodup := by
  have h := (Option.or_eq_none_iff.1 schema.valid).1
  unfold Snapshot.staticError at h
  rw [Option.or_eq_none_iff, Option.or_eq_none_iff, Option.or_eq_none_iff] at h
  exact failUnless_eq_none.1 h.2.2.1

theorem error_archive {schema : DatabaseSchema} {segments : List CopySegment} {w : SegmentWriter} :
    (schema.archive segments w).error = none ↔
      validateSegmentLayout segments w.written defaultMaxTotal defaultMaxRatio = .ok segments ∧
      (schema.archive segments w).segmentsError [] segments = none := by
  have hstatic : (schema.archive segments w).staticError = none :=
    (Option.or_eq_none_iff.1 schema.valid).1
  have hlayout : validateSegmentLayout (schema.archive segments w).segments
      (schema.archive segments w).dataCopySize defaultMaxTotal defaultMaxRatio =
      validateSegmentLayout segments w.written defaultMaxTotal defaultMaxRatio := rfl
  unfold Snapshot.error
  rw [hstatic, Option.none_or, hlayout]
  cases h : validateSegmentLayout segments w.written defaultMaxTotal defaultMaxRatio with
  | error e => exact iff_of_false (fun h => by cases h) fun h => by cases h.1
  | ok segments' =>
    obtain ⟨rfl, -⟩ := validateSegmentLayout_eq_ok.1 h
    exact ⟨fun h => ⟨rfl, h⟩, fun h => h.2⟩

theorem fromArchive_archive {schema : DatabaseSchema} {segments : List CopySegment}
    {w : SegmentWriter} :
    (∃ d, fromArchive (schema.archive segments w) = .ok d) ↔
      validateSegmentLayout segments w.written defaultMaxTotal defaultMaxRatio = .ok segments ∧
      (segments.map fun s => (s.table, s.columns)).Perm
        (schema.tables.map fun t => (t.name, t.columnNames)) := by
  have hd : (schema.archive segments w).tableNames.Nodup := schema.nodup_tableNames
  have hperm : (segments.map fun s => (s.table, s.columns)).Perm
      (schema.tables.map fun t => (t.name, t.columnNames)) ↔ _ ∧ _ := perm_tables_iff hd
  constructor
  · rintro ⟨d, h⟩
    obtain ⟨d', hmake, h⟩ := Failing.bind_eq_ok.1 h
    obtain ⟨_, hassert, -⟩ := Failing.bind_eq_ok.1 h
    have hd' := make_eq_ok.1 hmake
    have hvalid := d'.valid
    rw [hd', error_archive] at hvalid
    have hall := (assertEveryTableExported_eq_ok.1 hassert).1
    rw [hd'] at hall
    exact ⟨hvalid.1, hperm.2 ⟨hvalid.2, hall⟩⟩
  · rintro ⟨hlayout, hp⟩
    obtain ⟨hsegments, hall⟩ := hperm.1 hp
    have hvalid := error_archive.2 ⟨hlayout, hsegments⟩
    have hforeign : ∀ n ∈ segments.map CopySegment.table, n ∈ schema.tableNames := by
      have hp' := hp.map Prod.fst
      rw [List.map_map, List.map_map] at hp'
      exact fun n hn => hp'.mem_iff.1 hn
    refine ⟨⟨_, hvalid⟩, ?_⟩
    unfold fromArchive
    rw [make_eq_ok.2 (rfl : (⟨_, hvalid⟩ : DatabaseSchema).toSnapshot = _), Failing.ok_bind,
      assertEveryTableExported_eq_ok.2 ⟨hall, hforeign⟩]
    rfl

end DatabaseSchema

/-! ## What the writer has finished -/

namespace Written

variable {Z : StreamCodec UInt8} {sha256 : Bytes → Text} {inputs : List SegmentInput}
  {segments : List CopySegment} {bytes : Bytes} {offset : ℕ}

theorem sizes (h : Written Z sha256 offset inputs segments bytes) :
    (segments.map fun s => (s.uncompressedSize, s.compressedSize)) =
      inputs.map fun i => (i.payload.length, (i.stream Z).length) := by
  induction h with
  | nil => rfl
  | cons h _ ih => rw [List.map_cons, List.map_cons, ih, h.uncompressedSize, h.compressedSize]

theorem tables (h : Written Z sha256 offset inputs segments bytes) :
    (segments.map fun s => (s.table, s.columns)) = inputs.map fun i => (i.table, i.columns) := by
  induction h with
  | nil => rfl
  | cons h _ ih => rw [List.map_cons, List.map_cons, ih, h.table, h.columns]

end Written

/-- No payload is over 200 times as long as its stream, and all are at most 64 GiB. -/
structure WithinLimits (Z : StreamCodec UInt8) (inputs : List SegmentInput) : Prop where
  ratio : ∀ i ∈ inputs, i.chunks.flatten.length ≤ (i.stream Z).length * defaultMaxRatio
  total : (inputs.map fun i => i.chunks.flatten.length).sum ≤ defaultMaxTotal

theorem validate_written {Z : StreamCodec UInt8} {sha256 : Bytes → Text}
    {inputs : List SegmentInput} {segments : List CopySegment} {bytes : Bytes}
    (h : Written Z sha256 0 inputs segments bytes) :
    validateSegmentLayout segments bytes.length defaultMaxTotal defaultMaxRatio = .ok segments ↔
      WithinLimits Z inputs := by
  have htiles := h.tiles
  rw [Nat.zero_add] at htiles
  have hsizes := h.sizes
  have hsum : (segments.map CopySegment.uncompressedSize).sum =
      (inputs.map fun i => i.chunks.flatten.length).sum := by
    have hfst := congrArg (fun l => (l.map Prod.fst).sum) hsizes
    simp only [List.map_map] at hfst
    exact hfst
  have hratio : (∀ s ∈ segments, s.uncompressedSize ≤ s.compressedSize * defaultMaxRatio) ↔
      ∀ i ∈ inputs, i.chunks.flatten.length ≤ (i.stream Z).length * defaultMaxRatio := by
    have hall := congrArg (fun l => ∀ p ∈ l, p.1 ≤ p.2 * defaultMaxRatio) hsizes
    simp only [List.forall_mem_map, eq_iff_iff] at hall
    exact hall
  rw [validateSegmentLayout_eq_ok, hsum, hratio]
  exact ⟨fun h => ⟨h.2.2.1, h.2.2.2⟩, fun hw => ⟨rfl, htiles, hw.ratio, hw.total⟩⟩

/-- The layout of what was written is accepted exactly if it is within the limits, and the archive
of a schema exactly if besides the segments are those of its tables. -/
theorem restorable_iff {Z : StreamCodec UInt8} {sha256 : Bytes → Text}
    {answers : List (Option ℕ)} {inputs : List SegmentInput} {segments : List CopySegment}
    {w : SegmentWriter}
    (h : writeSegments Z sha256 { sink := ⟨[], answers⟩ } inputs = .ok (segments, w))
    (schema : DatabaseSchema) :
    (validateSegmentLayout segments w.sink.contents.length defaultMaxTotal defaultMaxRatio =
      .ok segments ↔ WithinLimits Z inputs) ∧
    ((∃ d, DatabaseSchema.fromArchive (schema.archive segments w) = .ok d) ↔
      WithinLimits Z inputs ∧ (inputs.map fun i => (i.table, i.columns)).Perm
        (schema.tables.map fun t => (t.name, t.columnNames))) := by
  obtain ⟨bytes, hgrown, hwritten⟩ := written_of_writeSegments h
  have hcontents : w.sink.contents = bytes := hgrown.contents
  have hsize : w.written = bytes.length := hgrown.written.trans (Nat.zero_add _)
  rw [DatabaseSchema.fromArchive_archive, hcontents, hsize, validate_written hwritten,
    hwritten.tables]
  exact ⟨Iff.rfl, Iff.rfl⟩

theorem isIdentifier_posts : SchemaContract.isIdentifier "posts" = true := by decide

open SchemaContract in
/-- Two tables, of which the second has two columns. -/
def twoTables : DatabaseSchema where
  tables :=
    [{ name := "posts"
       kind := "base"
       columns := [⟨"id", "text", false, none, isIdentifier_id, isColumnType_text, allowed_none⟩]
       primaryKey := ["id"]
       uniqueConstraints := []
       name_ok := isIdentifier_posts
       kind_ok := by decide
       columns_ne_nil := by decide
       nodup_names := by decide
       primaryKey_ok := by decide
       unique_ok := by decide },
     { name := "users"
       kind := "auth"
       columns :=
         [⟨"id", "text", false, none, isIdentifier_id, isColumnType_text, allowed_none⟩,
          ⟨"name", "text", true, none, by decide, isColumnType_text, allowed_none⟩]
       primaryKey := ["id"]
       uniqueConstraints := []
       name_ok := by decide
       kind_ok := by decide
       columns_ne_nil := by decide
       nodup_names := by decide
       primaryKey_ok := by decide
       unique_ok := by decide }]
  views := []
  indexes := []
  migrations := []
  segments := []
  dataCopySize := 0
  valid := by decide

theorem twoInputs_restorable : ∃ segments w,
    writeSegments heldBack digest { sink := ⟨[], [some 3, none]⟩ } twoInputs = .ok (segments, w) ∧
    ∃ d, DatabaseSchema.fromArchive (twoTables.archive segments w) = .ok d := by
  obtain ⟨s₁, s₂, w, h, -⟩ := twoInputs_written
  have hlimits : WithinLimits heldBack twoInputs := ⟨by decide +kernel, by decide +kernel⟩
  exact ⟨_, w, h, (restorable_iff h twoTables).2.2 ⟨hlimits, .refl _⟩⟩

/-- The writer finishes a row of one letter, and the schema of the backup is refused. -/
theorem longRow_unrestorable : ∃ s w,
    writeSegments heldBack digest { sink := ⟨[], []⟩ } [longTable] = .ok ([s], w) ∧
    (∀ segments, validateSegmentLayout [s] w.sink.contents.length defaultMaxTotal
      defaultMaxRatio ≠ .ok segments) ∧
    ∀ (schema : DatabaseSchema) (d : DatabaseSchema),
      DatabaseSchema.fromArchive (schema.archive [s] w) ≠ .ok d := by
  obtain ⟨s, w, hwritten, hratio⟩ := longTable_written
  have hrefused : ∀ size segments,
      validateSegmentLayout [s] size defaultMaxTotal defaultMaxRatio ≠ .ok segments := by
    intro size segments h
    have hle := (validateSegmentLayout_eq_ok.1 h).2.2.1 s List.mem_cons_self
    exact absurd hle (not_le.2 hratio)
  refine ⟨s, w, hwritten, hrefused _, fun schema d h => ?_⟩
  exact hrefused _ _ (DatabaseSchema.fromArchive_archive.1 ⟨d, h⟩).1

end CopyFormat

end PPBase
