import PPBase.BackupStore
import PPBase.ZipPrevalidation
import PPBase.ZipWriter

/-!
# Downloading and uploading a backup

`materializeBackupZip` writes the manifest and the resources of a set into an archive, and
`prepareBackupZipImport` writes what an archive has into a new set: it checks the members
(`validateArchiveInfos`), reads the manifest (`importManifest`), and verifies the resources as they
are written (`importResource`). What `zlib` and `zipfile` do with the bytes of members are
parameters.
-/

namespace PPBase

namespace Backup

open PackedBytes ZipFile

open Storage (isControl)

/-- An exception of the transport. -/
inductive TransportFailure
  | transport (e : BackupTransportError)
  | backup (e : BackupError)
  | struct

/-- `MANIFEST_FILENAME` -/
def manifestFilename : Text := "backup.json"

/-- `SEALED_FILENAME` -/
def sealedFilename : Text := "SEALED"

variable (u : Charset) (sha256 : Digest)

/-! ## Downloads -/

/-- The error of an archive that could not be written. -/
def zipCreationFailed : TransportFailure :=
  .transport ⟨"backup_zip_creation_failed", "The backup could not be materialized as a ZIP."⟩

/-- An error for a set that changes meanwhile. -/
def changedMeanwhile (message : String) : TransportFailure := .backup (.integrity message)

variable {u} in
/-- A resource of a set after the members before it. -/
def writeResource (z : Zlib) (tree : FileTree) (a : Archive) (resource : BackupResource u) :
    Except TransportFailure Archive :=
  match tree.files.get? resource.path with
  | none => .error (changedMeanwhile "backup resource changed during ZIP materialization")
  | some content =>
    if resource.size < content.length then
      .error (changedMeanwhile "backup resource grew during ZIP materialization")
    else
      match a.write z resource.path true content with
      | none => .error zipCreationFailed
      | some a =>
        if content.length ≠ resource.size ∨ sha256.hexdigest content ≠ resource.sha256 then
          .error (changedMeanwhile "backup resource changed during ZIP materialization")
        else .ok a

variable {u} in
/-- The members of a set in the order of its manifest, the manifest first. -/
def writeMembers (z : Zlib) (s : BackupSet) (manifest : BackupManifest u) :
    Except TransportFailure Archive :=
  match Archive.empty.write z manifestFilename false s.manifestBytes with
  | none => .error zipCreationFailed
  | some a => manifest.resources.foldlM (writeResource sha256 z s.tree) a

/-- `materialize_backup_zip` : the bytes of the file. The set stays as it is until it is inspected
the second time. -/
def materializeBackupZip (z : Zlib) (store : LocalBackupStore) (backupId : Text) :
    Except TransportFailure (List UInt8) :=
  match inspectSet u sha256 store backupId with
  | .error e => .error (.backup e)
  | .ok (manifest, s) =>
    match manifest.toBytes with
    | .error e => .error (.backup (.manifest (.canonical e)))
    | .ok bytes =>
      if s.manifestBytes ≠ bytes then
        .error (changedMeanwhile "backup envelope changed before ZIP materialization")
      else
        match writeMembers sha256 z s manifest with
        | .error e => .error e
        | .ok a =>
          match a.close with
          | none => .error .struct
          | some b => .ok b

/-! ## Members of an upload -/

/-- `_validate_archive_name` accepts the name. -/
def isArchiveName (value : Text) : Bool :=
  value ≠ [] && u.nfc (.ofText value) = .ofText value && '\\' ∉ value && !value.any isControl &&
    value.head? ≠ some '/' && !(Text.split '/' value).any isDots &&
    Text.join '/' (posixParts value) = value

/-- `stat.S_IFMT((info.external_attr >> 16) & 0xFFFF)` -/
def fileType (info : ZipInfo) : ℕ := (info.externalAttr >>> 16) &&& 0xFFFF &&& 0o170000

/-- `name.startswith("resources/")` -/
def isBelowResources (name : Text) : Bool := (Text.afterPrefix? "resources/" name).isSome

/-- The error of one member after others, if any. Sizes are natural numbers, and the quotient of two
sizes is not rounded. -/
def archiveInfoError (limits : BackupTransportLimits) (members : Dict Text ZipInfo)
    (info : ZipInfo) : Option BackupTransportError :=
  if Char.ofNat 0 ∈ info.origFilename then
    some ⟨"backup_zip_unsafe_path", "The ZIP contains a NUL byte in a member path."⟩
  else if info.filename.getLast? = some '/' then
    some ⟨"backup_zip_special_entry", "ZIP directory entries are not accepted."⟩
  else if !isArchiveName u info.filename then
    some ⟨"backup_zip_unsafe_path", "The ZIP contains an unsafe member path."⟩
  else if members.has info.filename then
    some ⟨"backup_zip_duplicate_entry", "The ZIP contains duplicate member names."⟩
  else if info.flagBits &&& 1 ≠ 0 then
    some ⟨"backup_zip_encrypted", "Encrypted ZIP members are not accepted."⟩
  else if info.compressType ≠ 0 ∧ info.compressType ≠ 8 then
    some ⟨"backup_zip_compression_unsupported", "The ZIP uses an unsupported compression method."⟩
  else if fileType info ≠ 0 ∧ fileType info ≠ 0o100000 then
    some ⟨"backup_zip_special_entry", "The ZIP contains a symlink or special filesystem entry."⟩
  else if limits.maxResourceBytes < info.fileSize ∧ isBelowResources info.filename then
    some ⟨"backup_zip_resource_too_large", "A backup resource exceeds the configured size limit."⟩
  else if limits.maxCompressionRatio * max info.compressSize 1 < info.fileSize then
    some ⟨"backup_zip_ratio_exceeded", "A ZIP member exceeds the configured compression ratio."⟩
  else none

/-- The members that have been checked, with their sizes. -/
structure CheckedMembers where
  members : Dict Text ZipInfo
  totalUncompressed : ℕ
  totalCompressed : ℕ

/-- One more member. -/
def checkMember (limits : BackupTransportLimits) (c : CheckedMembers) (info : ZipInfo) :
    Except BackupTransportError CheckedMembers :=
  match archiveInfoError u limits c.members info with
  | some e => .error e
  | none =>
    if limits.maxUncompressedBytes < c.totalUncompressed + info.fileSize then
      .error ⟨"backup_zip_uncompressed_too_large",
        "The ZIP exceeds the configured uncompressed size limit."⟩
    else
      .ok {
        members := c.members ++ [(info.filename, info)]
        totalUncompressed := c.totalUncompressed + info.fileSize
        totalCompressed := c.totalCompressed + info.compressSize }

/-- `_validate_archive_infos` -/
def validateArchiveInfos (infos : List ZipInfo) (limits : BackupTransportLimits) :
    Except BackupTransportError (Dict Text ZipInfo) :=
  if infos = [] then .error (invalidZip "The uploaded ZIP is empty.")
  else if limits.maxEntries < infos.length then
    .error ⟨"backup_zip_too_many_entries", "The uploaded ZIP contains too many entries."⟩
  else
    match infos.foldlM (checkMember u limits) ⟨[], 0, 0⟩ with
    | .error e => .error e
    | .ok c =>
      if limits.maxCompressionRatio * max c.totalCompressed 1 < c.totalUncompressed then
        .error ⟨"backup_zip_ratio_exceeded",
          "The ZIP exceeds the configured aggregate compression ratio."⟩
      else .ok c.members

/-! ## Uploads -/

/-- What `zipfile` reads of an archive. -/
structure ZipReader where
  /-- a member, from its entry in the central directory -/
  decode : List UInt8 → Except BadZipFile ZipInfo
  /-- `archive.open(info).read()` -/
  read : List UInt8 → ZipInfo → Except BadZipFile (List UInt8)

/-- `PreparedBackupImport` -/
structure PreparedBackupImport where
  builder : BackupSetBuilder
  prepared : List (BackupResource u)
  manifestBytes : List UInt8

/-- A SQLite database among members that have no manifest. -/
def isPocketBaseBackup (infos : List ZipInfo) : Bool :=
  let rawNames := infos.map ZipInfo.origFilename
  manifestFilename ∉ rawNames && rawNames.any fun name =>
    name = ("data.db" : Text) || decide (("/data.db" : Text) <:+ name)

/-- `_read_zip_member`, of a member that is the manifest. -/
def readZipMember (r : ZipReader) (b : List UInt8) (info : ZipInfo) :
    Except BackupTransportError (List UInt8) :=
  let tooLarge : BackupTransportError :=
    ⟨"backup_zip_metadata_too_large", "A ZIP metadata member exceeds its size limit."⟩
  if maxManifestBytes < info.fileSize then .error tooLarge
  else
    match r.read b info with
    | .error _ => .error (invalidZip "A ZIP metadata member could not be verified.")
    | .ok payload =>
      if maxManifestBytes < payload.length then .error tooLarge
      else if payload.length ≠ info.fileSize then
        .error (invalidZip "A ZIP metadata member has an inconsistent size.")
      else .ok payload

/-- The manifest of an archive, with its bytes. -/
def importManifest (r : ZipReader) (b : List UInt8) (members : Dict Text ZipInfo) :
    Except BackupTransportError (List UInt8 × BackupManifest u) :=
  match members.get? manifestFilename with
  | none => .error ⟨"backup_zip_envelope_missing", "The ZIP is missing backup.json."⟩
  | some info =>
    match readZipMember r b info with
    | .error e => .error e
    | .ok bytes =>
      match BackupManifest.fromBytes u bytes with
      | .error e =>
        .error ⟨if e.isUnsupported then "backup_format_unsupported" else "backup_manifest_invalid",
          "The ZIP manifest is invalid or unsupported."⟩
      | .ok manifest => .ok (bytes, manifest)

variable {u} in
/-- The members that a manifest describes. -/
def expectedNames (manifest : BackupManifest u) : List Text :=
  manifestFilename :: manifest.resources.map BackupResource.path

variable {u} in
/-- The error of members that are not those of the manifest, if any. -/
def membersError (manifest : BackupManifest u) (members : Dict Text ZipInfo) :
    Option BackupTransportError :=
  if ¬((∀ name ∈ members.keys, name ∈ expectedNames manifest) ∧
      ∀ name ∈ expectedNames manifest, name ∈ members.keys) ∨ sealedFilename ∈ members.keys then
    some ⟨"backup_zip_members_invalid", "The ZIP members do not exactly match backup.json."⟩
  else if ∃ resource ∈ manifest.resources,
      (members.get? resource.path).map ZipInfo.fileSize ≠ some resource.size then
    some ⟨"backup_resource_size_mismatch", "A ZIP resource size differs from backup.json."⟩
  else none

/-- What becomes of an error of the store. -/
def importFailure : BackupError → TransportFailure
  | .integrity _ =>
    .transport ⟨"backup_integrity_failed", "The uploaded ZIP failed resource verification."⟩
  | e => .backup e

variable {u} in
/-- A resource of an archive, written into the set. -/
def importResource (r : ZipReader) (b : List UInt8) (members : Dict Text ZipInfo)
    (builder : BackupSetBuilder) (resource : BackupResource u) :
    Except TransportFailure BackupSetBuilder :=
  match (members.get? resource.path).map (r.read b) with
  | some (.ok content) =>
    match writeImportedResource u sha256 builder resource content with
    | .error e => .error (importFailure e)
    | .ok builder => .ok builder
  | _ =>
    .error (.transport ⟨"backup_resource_invalid", "A ZIP resource could not be verified."⟩)

/-- The set of an archive whose members have been checked. -/
def importMembers (r : ZipReader) (store : LocalBackupStore) (b : List UInt8)
    (members : Dict Text ZipInfo) : Except TransportFailure (PreparedBackupImport u) :=
  match importManifest u r b members with
  | .error e => .error (.transport e)
  | .ok (manifestBytes, manifest) =>
    match membersError manifest members with
    | some e => .error (.transport e)
    | none =>
      match beginSet store manifest.backupId with
      | .error e => .error (importFailure e)
      | .ok builder =>
        match manifest.resources.foldlM (importResource sha256 r b members) builder with
        | .error e => .error e
        | .ok builder =>
          match scanResourceTree u sha256 builder.tree with
          | .error e => .error (importFailure e)
          | .ok prepared => .ok { builder, prepared, manifestBytes }

/-- `prepare_backup_zip_import` -/
def prepareBackupZipImport (r : ZipReader) (store : LocalBackupStore) (b : List UInt8)
    (limits : BackupTransportLimits) : Except TransportFailure (PreparedBackupImport u) :=
  if b = [] then .error (.transport (invalidZip "The uploaded ZIP is empty."))
  else if limits.maxUploadBytes < b.length then
    .error (.transport ⟨"backup_upload_too_large",
      "The uploaded ZIP exceeds the configured size limit."⟩)
  else
    match prevalidateZipDirectory b limits with
    | .error e => .error (.transport e)
    | .ok _ =>
      match contents r.decode b with
      | .error _ =>
        .error (.transport (invalidZip "The uploaded file is not a valid ZIP archive."))
      | .ok c =>
        if isPocketBaseBackup c.infos then
          .error (.transport ⟨"pocketbase_backup_unsupported",
            "This is a PocketBase SQLite backup, not a native PPBase backup."⟩)
        else
          match validateArchiveInfos u c.infos limits with
          | .error e => .error (.transport e)
          | .ok members => importMembers u sha256 r store b members

end Backup

end PPBase
