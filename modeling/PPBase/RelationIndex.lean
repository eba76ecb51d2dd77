import PPBase.Schema

/-!
# The relation index

`_build_relation_index_from_collections` : for each table the types of its fields and the
tables its relation fields lead to, and for each target the back-relations
`{table}_via_{field}` that lead to it. The filter parser reads it one path segment at a
time.
-/

namespace PPBase

namespace Field

/-- `_normalize_field` : flat option keys stand below the nested ones. -/
def normalizedOptions (f : Field) : FieldOptions where
  collectionId := f.options.collectionId.or f.flat.collectionId
  maxSelect := f.options.maxSelect.or f.flat.maxSelect

/-- `int(opts.get("maxSelect", 1) or 1)` -/
def maxSelect (f : Field) : ℕ :=
  match f.normalizedOptions.maxSelect with
  | none | some 0 => 1
  | some n => n

end Field

inductive RelationKind
  | forward | back
  deriving DecidableEq, Repr

/-- Where a path segment leads. `field` is the relation field of the table it leaves
(`forward`) or of the table it leads to (`back`). -/
structure RelationInfo where
  kind : RelationKind
  field : Text
  table : Text
  maxSelect : ℕ
  deriving DecidableEq

structure CollectionMeta where
  fields : Dict Text FieldType
  relations : Dict Text RelationInfo

/-- The flat index. -/
structure RelationIndex where
  collections : Dict Text CollectionMeta := []
  backRelations : Dict Text (Dict Text RelationInfo) := []

/-- `_collection_field_metadata` -/
def collectionFieldMetadata (c : Collection) : Dict Text FieldType :=
  c.schema.foldl (fun d f => if f.name = [] then d else d.set f.name f.type)
    [("id", .text), ("created", .date), ("updated", .date)]

/-- `by_id.get(ref) or by_name.get(ref)`, where a later entry wins. -/
def relationTarget? (collections : List Collection) (ref : Text) : Option Collection :=
  (collections.reverse.find? (·.id = ref)).or (collections.reverse.find? (·.name = ref))

/-- `_relation_targets` : the relation fields with their target and `maxSelect`. A missing
option is looked up as `str(None)`. -/
def relationTargets (collections : List Collection) (c : Collection) :
    List (Text × Collection × ℕ) :=
  c.schema.filterMap fun f =>
    if f.type = .relation ∧ f.name ≠ [] then
      (relationTarget? collections (f.normalizedOptions.collectionId.getD "None")).map
        fun t => (f.name, t, f.maxSelect)
    else none

/-- `{table}_via_{field}` -/
def viaKey (table field : Text) : Text := table ++ ("_via_" : Text) ++ field

def forwardRelations (collections : List Collection) (c : Collection) : Dict Text RelationInfo :=
  (relationTargets collections c).foldl
    (fun d e => d.set e.1 ⟨.forward, e.1, e.2.1.name, e.2.2⟩) []

/-- The back-relations one collection adds. -/
def addBackRelations (collections : List Collection)
    (d : Dict Text (Dict Text RelationInfo)) (c : Collection) : Dict Text (Dict Text RelationInfo) :=
  (relationTargets collections c).foldl
    (fun d e => d.set e.2.1.name
      (((d.get? e.2.1.name).getD []).set (viaKey c.name e.1) ⟨.back, e.1, c.name, e.2.2⟩)) d

/-- `_build_relation_index_from_collections` -/
def buildRelationIndex (collections : List Collection) : RelationIndex where
  collections := collections.foldl
    (fun d c => d.set c.name ⟨collectionFieldMetadata c, forwardRelations collections c⟩) []
  backRelations := collections.foldl (addBackRelations collections) []

namespace RelationIndex

/-- `_flat_fields`, at one field. -/
def fieldType? (idx : RelationIndex) (table field : Text) : Option FieldType :=
  (idx.collections.get? table).bind fun m => m.fields.get? field

/-- `_flat_relation_info` -/
def relationInfo? (idx : RelationIndex) (table segment : Text) : Option RelationInfo :=
  ((idx.collections.get? table).bind fun m => m.relations.get? segment).or
    ((idx.backRelations.get? table).bind fun d => d.get? segment)

end RelationIndex

/-- The index of a collection is its own, if no other collection has its name. -/
theorem fieldType?_buildRelationIndex {cs : List Collection} {c : Collection} (hc : c ∈ cs)
    (hnd : (cs.map Collection.name).Nodup) (field : Text) :
    (buildRelationIndex cs).fieldType? c.name field = (collectionFieldMetadata c).get? field := by
  have hget := Dict.get?_foldl_set (fun c : Collection => c.name)
    (fun c => (⟨collectionFieldMetadata c, forwardRelations cs c⟩ : CollectionMeta)) [] hnd hc
  simp only [RelationIndex.fieldType?, buildRelationIndex, hget, Option.bind_some]

end PPBase
