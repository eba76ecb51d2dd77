import PPBase.BackupManifest

/-!
# The store of backup sets

A `FileTree` has files by their paths, of which none lies below another. A set is published with its
manifest and the tree of its resources; `inspectSet` compares the tree with the manifest, and a
`BackupSetBuilder` writes the resources of an imported set into a tree of its own.

The store is not changed by others meanwhile, and its system calls do not fail.
-/

namespace PPBase

namespace Backup

open Storage (isControl)

open CopyFormat (isSha256)

/-! ## Trees -/

/-- The path is a directory of the other. -/
def isDirectoryOf (path file : Text) : Bool := (Text.afterPrefix? (path ++ ['/']) file).isSome

/-- Files of one tree cannot have both paths. -/
def conflict (p q : Text) : Bool := p = q || isDirectoryOf p q || isDirectoryOf q p

/-- The files of a directory, by their paths below it. -/
structure FileTree where
  files : Dict Text (List UInt8)
  apart : files.Pairwise fun f g => conflict f.1 g.1 = false

namespace FileTree

def empty : FileTree := ⟨[], List.Pairwise.nil⟩

/-- A new file, if nothing is in its way. -/
def create (t : FileTree) (path : Text) (content : List UInt8) : Option FileTree :=
  if h : ∀ f ∈ t.files, conflict f.1 path = false then
    some ⟨t.files ++ [(path, content)], List.pairwise_append.2
      ⟨t.apart, List.pairwise_singleton _ _, fun f hf g hg => by
        rw [List.mem_singleton.1 hg]
        exact h f hf⟩⟩
  else none

end FileTree

/-! ## Errors -/

/-- `BackupError`, with its kinds. -/
inductive BackupError
  | manifest (e : ManifestError)
  | integrity (message : String)
  | notFound
  | alreadyExists
  | state (message : String)
  | unsafeSource

/-! ## Scanning -/

/-- `hashlib.sha256`, in hexadecimal. -/
structure Digest where
  hexdigest : List UInt8 → Text
  isSha256_hexdigest : ∀ b, isSha256 (hexdigest b) = true

variable (u : Charset) (sha256 : Digest)

/-- `_validate_source_component` accepts the name. -/
def isSourceComponent (name : Text) : Bool :=
  name ≠ [] && name ≠ ("." : Text) && name ≠ (".." : Text) && u.nfc (.ofText name) = .ofText name &&
    '/' ∉ name && '\\' ∉ name && !name.any isControl

/-- What a file of a tree is in a manifest. -/
def describe (file : Text × List UInt8) : Except BackupError (BackupResource u) :=
  if (Text.split '/' file.1).all (isSourceComponent u) then
    match BackupResource.make u (.str file.1) (.int file.2.length)
      (.str (sha256.hexdigest file.2)) with
    | .error e => .error (.manifest e)
    | .ok r => .ok r
  else .error .unsafeSource

/-- `_scan_resource_tree` -/
def scanResourceTree (t : FileTree) : Except BackupError (List (BackupResource u)) :=
  match t.files.mapM (describe u sha256) with
  | .error e => .error e
  | .ok found =>
    let resources := found.insertionSort fun r s => r.path ≤ s.path
    let paths := resources.map BackupResource.path
    if schemaJsonResource ∈ paths ∧ dataCopyResource ∈ paths then .ok resources
    else .error (.state "backup set is missing its database resources")

/-! ## Sets -/

/-- A published set. -/
structure BackupSet where
  isSealed : Bool
  manifestBytes : List UInt8
  tree : FileTree

/-- `LocalBackupStore` : its sets by their identifiers. -/
abbrev LocalBackupStore := Dict Text BackupSet

/-- `_MAX_MANIFEST_BYTES` -/
def maxManifestBytes : ℕ := 16 * 1024 * 1024

/-- `_inspect_set_path`, with the resources verified. -/
def inspectSetPath (backupId : Text) (s : BackupSet) : Except BackupError (BackupManifest u) :=
  if maxManifestBytes < s.manifestBytes.length then
    .error (.integrity "backup metadata file is too large")
  else
    match BackupManifest.fromBytes u s.manifestBytes with
    | .error e => .error (.manifest e)
    | .ok manifest =>
      if manifest.backupId ≠ backupId then
        .error (.integrity "manifest backup_id does not match its directory")
      else
        match scanResourceTree u sha256 s.tree with
        | .error e => .error e
        | .ok resources =>
          if resources.map (fun r => (r.path, r.size, r.sha256)) ≠
              manifest.resources.map fun r => (r.path, r.size, r.sha256) then
            .error (.integrity "backup resource checksum validation failed")
          else .ok manifest

/-- `inspect_set` -/
def inspectSet (store : LocalBackupStore) (backupId : Text) :
    Except BackupError (BackupManifest u × BackupSet) :=
  if !isBackupId backupId then .error (.manifest BackupManifest.invalidBackupId)
  else
    match store.get? backupId with
    | none => .error .notFound
    | some s =>
      if !s.isSealed then .error .notFound
      else
        match inspectSetPath u sha256 backupId s with
        | .error e => .error e
        | .ok manifest => .ok (manifest, s)

/-! ## Importing -/

/-- `BackupSetBuilder`, of a set that is not published. -/
structure BackupSetBuilder where
  backupId : Text
  tree : FileTree

/-- `begin_set` -/
def beginSet (store : LocalBackupStore) (backupId : Text) : Except BackupError BackupSetBuilder :=
  if !isBackupId backupId then .error (.manifest BackupManifest.invalidBackupId)
  else if store.has backupId then .error .alreadyExists
  else .ok { backupId, tree := FileTree.empty }

/-- `write_imported_resource` -/
def writeImportedResource (builder : BackupSetBuilder) (resource : BackupResource u)
    (content : List UInt8) : Except BackupError BackupSetBuilder :=
  let parts := posixParts resource.path
  if parts.head? ≠ some ("resources" : Text) ∨ parts.length < 2 then
    .error (.integrity "imported resource path is outside resources/")
  else if ¬parts.all (isSourceComponent u) then .error .unsafeSource
  else
    match builder.tree.create resource.path content with
    | none => .error (.state "imported backup resource could not be written safely")
    | some tree =>
      if resource.size < content.length then
        .error (.integrity "imported resource exceeds its declared size")
      else if content.length ≠ resource.size ∨ sha256.hexdigest content ≠ resource.sha256 then
        .error (.integrity "imported resource differs from backup.json")
      else .ok { builder with tree }

end Backup

end PPBase
