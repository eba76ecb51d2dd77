import Mathlib.Data.List.Infix
import PPBase.CanonicalJson
import PPBase.Storage

/-!
# The manifest of a backup

A `BackupManifest` lists the resources of a backup set with their sizes and checksums.
`BackupManifest.make` is its constructor, which asks for unique sorted paths below `resources/`,
for the resources of the database and for metadata without secrets; `fromBytes` reads it from
canonical JSON, and `toBytes` writes it.

Errors are the texts of the exceptions.
-/

namespace PPBase

namespace Backup

open Storage (isControl)

open CopyFormat (isSha256)

/-- What the standard library knows of Unicode. -/
structure Charset where
  /-- `unicodedata.normalize("NFC", value)` -/
  nfc : PyText → PyText
  casefold : Text → Text
  isAlnum : Char → Bool
  nfc_nfc : ∀ s, nfc (nfc s) = nfc s
  nfc_ascii : ∀ t : Text, (∀ c ∈ t, c.toNat < 128) → nfc (.ofText t) = .ofText t

variable (u : Charset)

/-! ## Paths -/

/-- The parts of a relative `PurePosixPath(value)`. -/
def posixParts (value : Text) : List Text :=
  (Text.split '/' value).filter fun part => part ≠ [] && part ≠ ("." : Text)

/-- A part that is no directory of its own. -/
def isDots (part : Text) : Bool := part = [] || part = ("." : Text) || part = (".." : Text)

/-- The error of `_validate_resource_path`, if any. -/
def resourcePathError (value : Text) : Option Text :=
  if u.nfc (.ofText value) ≠ .ofText value then some "resource path must be NFC-normalized"
  else if '\\' ∈ value ∨ value.any isControl then some "resource path contains unsafe characters"
  else if value.head? = some '/' ∨ (posixParts value).head? ≠ some ("resources" : Text) ∨
      (posixParts value).any isDots ∨ Text.join '/' (posixParts value) ≠ value then
    some "resource path must stay below resources/"
  else none

/-- `SCHEMA_JSON_RESOURCE` -/
def schemaJsonResource : Text := "resources/database/schema.json"

/-- `DATA_COPY_RESOURCE` -/
def dataCopyResource : Text := "resources/database/data.copy"

/-- `JWT_SECRET_RESOURCE_PATH` -/
def jwtSecretResourcePath : Text := "resources/secrets/jwt_secret"

/-- A manifest may list the path. -/
def isSupported (path : Text) : Bool :=
  path = schemaJsonResource || path = dataCopyResource || path = jwtSecretResourcePath ||
    (Text.afterPrefix? "resources/files/" path).isSome

/-! ## Resources -/

/-- `BackupManifestError` -/
inductive ManifestError
  | canonical (e : BackupManifestError)
  | unsupportedFormat (format : JsonValue)
  | unsupportedVersion (formatVersion : JsonValue)
  | invalid (message : Text)

/-- `"unsupported backup format" in str(exc)` -/
def ManifestError.isUnsupported : ManifestError → Bool
  | canonical e => decide (PyText.ofText "unsupported backup format" <:+: e.message)
  | unsupportedFormat _ => true
  | unsupportedVersion _ => true
  | invalid message => Text.contains "unsupported backup format" message

/-- `BackupResource` -/
structure BackupResource where
  path : Text
  size : ℕ
  sha256 : Text
  path_ok : resourcePathError u path = none
  sha256_ok : isSha256 sha256 = true

/-- `BackupResource(...)` -/
def BackupResource.make (path size sha256 : JsonValue) : Except ManifestError (BackupResource u) :=
  match path with
  | .str path =>
    match hp : resourcePathError u path with
    | some e => .error (.invalid e)
    | none =>
      match size with
      | .int (.ofNat size) =>
        match sha256 with
        | .str sha256 =>
          if hs : isSha256 sha256 = true then .ok ⟨path, size, sha256, hp, hs⟩
          else
            .error (.invalid "resource sha256 must be 64 lowercase hexadecimal characters")
        | _ => .error (.invalid "resource sha256 must be 64 lowercase hexadecimal characters")
      | _ => .error (.invalid "resource size must be a non-negative integer")
  | _ => .error (.invalid "resource path must be a string")

/-- `set(value) == {...}` -/
def hasKeys (expected : List Text) (ms : Dict Text JsonValue) : Bool :=
  (Dict.keys ms).all (· ∈ expected) && expected.all (· ∈ Dict.keys ms)

/-- `value[key]` of a key that is there. -/
def member (ms : Dict Text JsonValue) (key : Text) : JsonValue := (Dict.get? ms key).getD .null

/-- `BackupResource.from_dict` -/
def BackupResource.fromDict : JsonValue → Except ManifestError (BackupResource u)
  | .obj ms =>
    if hasKeys ["path", "sha256", "size"] ms then
      make u (member ms "path") (member ms "size") (member ms "sha256")
    else .error (.invalid "resource has unknown or missing fields")
  | _ => .error (.invalid "resource has unknown or missing fields")

variable {u} in
/-- `to_dict` -/
def BackupResource.toDict (r : BackupResource u) : JsonValue :=
  .obj [("path", .str r.path), ("sha256", .str r.sha256), ("size", .int r.size)]

/-! ## Checks of a manifest -/

/-- `_BACKUP_ID_PATTERN` -/
def isBackupId : Text → Bool
  | [] => false
  | c :: s =>
    (c.isAlpha || c.isDigit) && decide (s.length ≤ 127) &&
      s.all fun c => c.isAlpha || c.isDigit || c = '.' || c = '_' || c = '-'

/-- The number of two or more digits. -/
def digits? (s : Text) : Option ℕ :=
  if s ≠ [] ∧ s.all Char.isDigit then some (Nat.ofDigitChars 10 s 0) else none

/-- The days of a month. -/
def daysIn (year month : ℕ) : ℕ :=
  if month = 2 then if year % 4 = 0 ∧ (year % 100 ≠ 0 ∨ year % 400 = 0) then 29 else 28
  else if month = 4 ∨ month = 6 ∨ month = 9 ∨ month = 11 then 30
  else 31

/-- The form `YYYY-MM-DDTHH:MM:SS.ffffffZ` of a time, where `strftime` writes years from 1000 on
with four digits. -/
def isTimestamp (s : Text) : Bool :=
  let part (i n : ℕ) := digits? ((s.drop i).take n)
  match part 0 4, part 5 2, part 8 2, part 11 2, part 14 2, part 17 2, part 20 6 with
  | some year, some month, some day, some hour, some minute, some second, some _ =>
    decide (s.length = 27) &&
      [(4, '-'), (7, '-'), (10, 'T'), (13, ':'), (16, ':'), (19, '.'), (26, 'Z')].all
        (fun (i, c) => s[i]? = some c) &&
      decide (1000 ≤ year ∧ 1 ≤ month ∧ month ≤ 12 ∧ 1 ≤ day ∧ day ≤ daysIn year month ∧
        hour < 24 ∧ minute < 60 ∧ second < 60)
  | _, _, _, _, _, _, _ => false

/-- `_SENSITIVE_METADATA_KEY_FRAGMENTS` -/
def sensitiveMetadataKeyFragments : List Text :=
  ["accesskey", "credential", "databaseurl", "dsn", "jwtsecret", "passfile", "passwd", "password",
    "pgpass", "privatekey", "secret", "tokenkey"]

/-- A description of where the secret is, which is not the secret. -/
def isSecretMode : JsonValue → Bool
  | .obj [(k, .str mode)] =>
    k = ("mode" : Text) &&
      (mode = ("external_required" : Text) || mode = ("included_resource" : Text))
  | _ => false

mutual

/-- `_reject_sensitive_metadata` refuses the value. -/
def isSensitive : JsonValue → Bool
  | .obj ms => isSensitiveMembers ms
  | .arr xs => isSensitiveItems xs
  | _ => false

def isSensitiveItems : List JsonValue → Bool
  | [] => false
  | x :: xs => isSensitive x || isSensitiveItems xs

def isSensitiveMembers : List (Text × JsonValue) → Bool
  | [] => false
  | (key, child) :: ms =>
    let folded := (u.casefold key).filter u.isAlnum
    (!(folded = ("jwtsecret" : Text) && isSecretMode child) &&
      (sensitiveMetadataKeyFragments.any (Text.contains · folded) || isSensitive child)) ||
    isSensitiveMembers ms

end

/-- `BACKUP_FORMAT` -/
def backupFormat : Text := "ppbase-backup-set"

/-- `BACKUP_FORMAT_VERSION` -/
def backupFormatVersion : ℤ := 2

variable {u} in
/-- The error of the resources, if any. -/
def resourcesError (resources : List (BackupResource u)) : Option Text :=
  let paths := resources.map BackupResource.path
  if ¬(paths.Pairwise (· ≤ ·) ∧ paths.Nodup) then
    some "manifest resources must have unique paths in ascending order"
  else if schemaJsonResource ∉ paths ∨ dataCopyResource ∉ paths then
    some "manifest is missing resources/database/schema.json or resources/database/data.copy"
  else
    (paths.find? fun path => !isSupported path).map fun path =>
      ("unsupported backup resource: " : Text) ++ path

/-! ## The manifest -/

/-- `BackupManifest` -/
structure BackupManifest where
  backupId : Text
  createdAt : Text
  resources : List (BackupResource u)
  metadata : Dict Text JsonValue
  backupId_ok : isBackupId backupId = true
  createdAt_ok : isTimestamp createdAt = true
  resources_ok : resourcesError resources = none
  metadata_ok : isSensitiveMembers u metadata = false

namespace BackupManifest

/-- The error of `validate_backup_id`. -/
def invalidBackupId : ManifestError := .invalid <|
  ("backup_id must be 1-128 ASCII letters, digits, '.', '_' or '-' " : Text) ++
    ("and must start with a letter or digit" : Text)

/-- `BackupManifest(...)` -/
def make (backupId createdAt format formatVersion metadata : JsonValue)
    (resources : List (BackupResource u)) : Except ManifestError (BackupManifest u) :=
  match backupId with
  | .str backupId =>
    if hid : isBackupId backupId = true then
      match createdAt with
      | .str createdAt =>
        if htime : isTimestamp createdAt = true then
          if format.same (.str backupFormat) then
            if formatVersion.same (.int backupFormatVersion) then
              match hresources : resourcesError resources with
              | some e => .error (.invalid e)
              | none =>
                match normalizeJson u.nfc "$.metadata" (metadata.raw : Json PyText Empty) with
                | .error e => .error (.canonical e)
                | .ok (.obj ms) =>
                  if hms : isSensitiveMembers u ms = false then
                    .ok ⟨backupId, createdAt, resources, ms, hid, htime, hresources, hms⟩
                  else .error (.invalid "sensitive field is forbidden in manifest metadata")
                | .ok _ => .error (.invalid "manifest metadata must be an object")
            else .error (.unsupportedVersion formatVersion)
          else .error (.unsupportedFormat format)
        else .error (.invalid "created_at is not canonical")
      | _ => .error (.invalid "created_at must be a string")
    else .error invalidBackupId
  | _ => .error invalidBackupId

variable {u} in
/-- `to_dict` -/
def toDict (m : BackupManifest u) : JsonValue :=
  .obj [("backup_id", .str m.backupId), ("created_at", .str m.createdAt),
    ("format", .str backupFormat), ("format_version", .int backupFormatVersion),
    ("metadata", .obj m.metadata), ("resources", .arr (m.resources.map BackupResource.toDict))]

variable {u} in
/-- `to_bytes` -/
def toBytes (m : BackupManifest u) : Except BackupManifestError (List UInt8) :=
  canonicalJsonBytes u.nfc (m.toDict.raw : Json PyText Empty)

/-- `from_bytes` -/
def fromBytes (payload : List UInt8) : Except ManifestError (BackupManifest u) :=
  match parseCanonicalJson u.nfc payload with
  | .error e => .error (.canonical e)
  | .ok (.obj ms) =>
    if hasKeys ["backup_id", "created_at", "format", "format_version", "metadata", "resources"] ms
    then
      match member ms "resources" with
      | .arr raw =>
        match raw.mapM (BackupResource.fromDict u) with
        | .error e => .error e
        | .ok resources =>
          make u (member ms "backup_id") (member ms "created_at") (member ms "format")
            (member ms "format_version") (member ms "metadata") resources
      | _ => .error (.invalid "manifest resources must be an array")
    else .error (.invalid "manifest has unknown or missing fields")
  | .ok _ => .error (.invalid "manifest root must be a JSON object")

end BackupManifest

end Backup

end PPBase
