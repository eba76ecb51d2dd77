import PPBase.Cleanup
import PPBase.Files
import PPBase.Url

/-!
# The files of records

Which stored files the rows refer to (`references`), what creating and updating a record writes
to the storage and hands over for removal, and `delete_record` with its cascade. Files that are
handed over are removed when the transaction ends.
-/

namespace PPBase

namespace Storage

open RecordStore Files

/-- What the functions use of the libraries. -/
structure Codec extends Url.Codec where
  /-- `str.upper` -/
  upper : Text → Text
  /-- `json.loads`, if it gives a list. -/
  loadsList : Text → Option (List Value)

/-! ## Names -/

/-- `unicodedata.category(char) in {"Cc", "Cs"}` -/
def isControl (ch : Char) : Bool := ch.toNat < 0x20 || (0x7f ≤ ch.toNat && ch.toNat < 0xa0)

/-- `_validate_single_component`, on a string without limits. -/
def isComponent (s : Text) : Bool :=
  s ≠ [] && Text.strip s = s && s ≠ "." && s ≠ ".." && '/' ∉ s && '\\' ∉ s && !s.any isControl

/-- `validate_record_id` -/
def validateRecordId : Value → Option Text
  | .text s => if isComponent s ∧ s.length ≤ 15 then some s else none
  | _ => none

/-- `_WINDOWS_DRIVE_PREFIX` -/
def hasDrivePrefix : Text → Bool
  | c :: ':' :: _ => c.isAlpha
  | _ => false

/-- `validate_file_reference` -/
def isFileReference (s : Text) : Bool :=
  isComponent s && !hasDrivePrefix s && (s.map Char.utf8Size).sum ≤ 255

/-- `is_remote_file_reference` -/
def isRemote (K : Codec) (s : Text) : Bool :=
  match Url.urlsplit K.toCodec s with
  | none => false
  | some url => (url.scheme = "http" || url.scheme = "https") && url.netloc ≠ []

/-! ## References -/

/-- `_raw_file_values` -/
def rawFileValues (K : Codec) : Value → List Value
  | .list vs => vs
  | .text s =>
    if Text.strip s = [] then []
    else if (Text.strip s).head? = some '[' then (K.loadsList (Text.strip s)).getD [.text s]
    else [.text s]
  | v => if v.truthy then [v] else []

/-- `canonical_local_file_references_for_row` : the names. -/
def rowReferences (K : Codec) (rt : Runtime) (c : Collection) (row : Row) : List Text :=
  if c.type = .view then []
  else
    (c.schema.filter fun f => f.type = .file && f.name ≠ []).flatMap fun f =>
      ((rawFileValues K (getKey row f.name)).map (Macros.idText rt)).filter fun name =>
        name ≠ [] && !isRemote K name

/-- `read_canonical_local_file_references` -/
def references (K : Codec) (rt : Runtime) (db : Db) (l : Location) : Bool :=
  db.collections.any fun c => c.id = l.collectionId &&
    (db.rows c.name).any fun row =>
      row.get? "id" = some (.text l.recordId) && l.filename ∈ rowReferences K rt c row

/-! ## What a write does to the storage -/

/-- `_raw_file_list` -/
def rawFileList (rt : Runtime) : Value → List Text
  | .list vs => (vs.filter Value.truthy).map (Macros.idText rt)
  | v => if v.truthy then [Macros.idText rt v] else []

/-- `_deletable_file_references`. One name that is not valid keeps all of them. -/
def deletable (K : Codec) (names : List Text) : List Text :=
  let stored := names.filter fun name => !isRemote K name
  if stored.all isFileReference then stored else []

/-- The files `save_files` writes for the uploads. -/
def savedFiles (w : Writer) (c : Collection) (id : Text) (files : Dict Text (List Upload)) :
    List (Location × List UInt8) :=
  files.flatMap fun e =>
    match fileField? c e.1 with
    | none => []
    | some f =>
      if uploadsPass w f e.2 then
        (w.saveFiles e.1 e.2).zipWith (fun name u => (⟨c.id, id, name⟩, u.content)) e.2
      else []

/-- What `create_record` has written when it returns or raises. -/
def createWrites (w : Writer) (rt : Runtime) (c : Collection) (data : Row)
    (files : Dict Text (List Upload)) : List (Location × List UInt8) :=
  match createdId w data with
  | .error _ => []
  | .ok id =>
    match (if c.type = .auth then authColumns w rt c data (newColumns w id) else .ok (newColumns w id) :
      Except WriteError Draft) with
    | .error _ => []
    | .ok _ => savedFiles w c id files

/-- The uploads by the fields their keys name. -/
def byField (files : Dict Text (List Upload)) : Dict Text (List Upload) :=
  files.map fun e => ((parseModifierKey e.1).1, e.2)

/-- What `update_record` has written when it returns or raises. -/
def updateWrites (w : Writer) (rt : Runtime) (db : Db) (c : Collection) (id : Text) (data : Row)
    (files : Dict Text (List Upload)) : List (Location × List UInt8) :=
  if (w.recordId? (.text id)).isNone then []
  else
    match db.rowById c.name id with
    | none => []
    | some row =>
      match (do
        let d : Draft := ⟨[("updated", .time w.now)], []⟩
        let _ ← (if c.type = .auth then authUpdates w rt c data d else .ok d : Except WriteError Draft)
        ((updateTakenKeys c data).foldl Dict.del data).foldlM (applyKey rt c) (initialState c row) :
          Except WriteError Row) with
      | .error _ => []
      | .ok _ => savedFiles w c id (byField files)

/-- `files_to_delete` : the old names of each changed file field that are not new ones. -/
def replacedFiles (w : Writer) (rt : Runtime) (c : Collection) (row state : Row) : List Text :=
  state.flatMap fun e =>
    match c.fieldMap.get? e.1 with
    | none => []
    | some f =>
      if f.type ≠ .file ∨ sameValue e.2 (getKey row e.1) = true then []
      else
        match w.checkField f e.2 with
        | .error _ => []
        | .ok v => (rawFileList rt (getKey row e.1)).filter fun name => name ∉ rawFileList rt v

/-- What a successful `update_record` hands over for removal. -/
def updateRemoves (K : Codec) (w : Writer) (rt : Runtime) (db : Db) (c : Collection) (id : Text)
    (data : Row) (files : Dict Text (List Upload)) : List Location :=
  match db.rowById c.name id with
  | none => []
  | some row =>
    match updateDraft w rt c row data files,
      fieldState w rt c row ((updateTakenKeys c data).foldl Dict.del data) files with
    | .ok d, .ok state =>
      if d.columns.length ≤ 1 then []
      else (deletable K (replacedFiles w rt c row state)).map fun name => ⟨c.id, id, name⟩
    | _, _ => []

/-! ## Deletion -/

/-- The relation fields that delete their records with those of the collection. -/
def cascadeFields (collections : List Collection) (c : Collection) : List (Collection × Field) :=
  collections.flatMap fun d =>
    (d.schema.filter fun f => f.type = .relation && f.options.collectionId = some c.id &&
      f.options.cascadeDelete = some true && f.name ≠ []).map fun f => (d, f)

/-- `:rid = ANY(field)`, or `field = :rid` -/
def relatesTo (f : Field) (id : Text) (row : Row) : Bool :=
  if 1 < f.options.maxSelect.getD 1 then
    match row.get? f.name with
    | some (.list vs) => .text id ∈ vs
    | _ => false
  else row.get? f.name = some (.text id)

/-- `related_ids` -/
def relatedIds (db : Db) (d : Collection) (f : Field) (id : Text) : List Text :=
  ((db.rows d.name).filter (relatesTo f id)).filterMap fun row =>
    match row.get? "id" with
    | some (.text i) => some i
    | _ => none

/-- `files_to_delete` of `delete_record`. -/
def ownedFiles (rt : Runtime) (c : Collection) (row : Row) : List Text :=
  (c.schema.filter fun f => f.type = .file).flatMap fun f => rawFileList rt (getKey row f.name)

/-- `delete_record` with `_cascade_delete`. The first argument is how deep Python lets it recurse.
None if there is no such record. -/
def deleteRecord (K : Codec) (rt : Runtime) (collections : List Collection) :
    ℕ → Db → Collection → Text → Except WriteError (Option (Db × List Location))
  | 0, _, _, _ => .error .exception
  | depth + 1, db, c, id =>
    if (validateRecordId (.text id)).isNone then .error .exception
    else
      match db.rowById c.name id with
      | none => .ok none
      | some row => do
        let (db', removed) ← (cascadeFields collections c).foldlM (fun s e =>
          (relatedIds s.1 e.1 e.2 id).foldlM (fun s related => do
            match ← deleteRecord K rt collections depth s.1 e.1 related with
            | none => return s
            | some (db', removed) => return (db', s.2 ++ removed)) s) (db, [])
        let own := (deletable K (ownedFiles rt c row)).map fun name => (⟨c.id, id, name⟩ : Location)
        return some (db'.deleteRow c.name id, removed ++ own)

end Storage

end PPBase
