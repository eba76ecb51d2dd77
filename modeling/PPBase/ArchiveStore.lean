import PPBase.Calls
import PPBase.Dict
import PPBase.Text

/-!
# The archive store

Backup archives are files of one directory, each with a sidecar file of its attributes. An
archive is written to a temporary file first, which is then linked to its name, and so is the
sidecar (`publishCalls`); what was linked is undone when something fails later (`cleanup`). Every
system call may fail, and the process may crash before any of them.

What the store is for is a map from keys to contents (`MapStep`).

The normal forms of texts, the categories of characters and the bytes of a sidecar are
parameters.
-/

namespace PPBase

namespace ArchiveStore

abbrev Bytes := List UInt8

/-- The regular files of the directory. -/
abbrev Disk := Dict Text Bytes

/-- What Python knows about the characters of a key. -/
structure Unicode where
  /-- `unicodedata.normalize("NFC", value)` -/
  nfc : Text → Text
  /-- The categories whose names start with "C". -/
  isOther : Char → Bool
  casefold : Text → Text

inductive OsError
  | fileNotFound
  | fileExists
  /-- Any other failure of a system call. -/
  | io
  deriving DecidableEq

inductive StoreError
  | value (message : Text)
  | notFound (message : Text)
  | alreadyExists (message : Text)
  | state (message : Text)
  | transport (code message : Text)
  | os (e : OsError)
  deriving DecidableEq

def attrsSuffix : Text := ".attrs"

def zipMagic : List Bytes :=
  [[0x50, 0x4b, 0x03, 0x04], [0x50, 0x4b, 0x05, 0x06], [0x50, 0x4b, 0x07, 0x08]]

def byteLength (s : Text) : ℕ := (s.map Char.utf8Size).sum

variable (u : Unicode)

/-- What is wrong with a key. -/
def keyError (value : Text) (requireZipSuffix : Bool) : Option Text :=
  if value = [] ∨ value ≠ value.strip then some "backup key must be a non-empty basename"
  else if value ≠ u.nfc value then some "backup key must use NFC Unicode normalization"
  else if value = ("." : Text) ∨ value = (".." : Text) ∨ '/' ∈ value ∨ '\\' ∈ value then
    some "backup key must not contain path components"
  else if attrsSuffix <:+ value then some "the .attrs suffix is reserved"
  else if value.any u.isOther then some "backup key must not contain control characters"
  else if requireZipSuffix = true ∧ ¬(".zip" : Text) <:+ u.casefold value then
    some "backup key must end in .zip"
  else if 255 < byteLength value then some "backup key is too long"
  else none

/-- `validate_backup_key(value, require_zip_suffix=...)` -/
def validateBackupKey (value : Text) (requireZipSuffix : Bool) : Except Text Text :=
  match keyError u value requireZipSuffix with
  | some message => .error message
  | none => .ok value

structure BackupArchiveInfo where
  key : Text
  size : ℕ
  deriving DecidableEq

/-! ## Files -/

/-- A name of the directory is at most 255 bytes long. -/
def nameTooLong (name : Text) : Bool := 255 < byteLength name

/-- `os.open(name, O_WRONLY | O_CREAT | O_EXCL)` -/
def create (name : Text) (d : Disk) : Except OsError Disk :=
  if nameTooLong name then .error .io
  else if d.has name then .error .fileExists
  else .ok (d.set name [])

/-- A byte more at the end of an open file. -/
def append (name : Text) (b : UInt8) (d : Disk) : Disk := d.set name ((d.get? name).getD [] ++ [b])

def link (source target : Text) (d : Disk) : Except OsError Disk :=
  if nameTooLong target then .error .io
  else
    match d.get? source with
    | none => .error .fileNotFound
    | some content => if d.has target then .error .fileExists else .ok (d.set target content)

def unlink (name : Text) (d : Disk) : Except OsError Disk :=
  if nameTooLong name then .error .io
  else if d.has name then .ok (d.del name) else .error .fileNotFound

/-! ## Listing -/

/-- `os.scandir` finds the file, and it is the archive of a key. -/
def isListed (name : Text) : Bool :=
  !(name.head? = some '.' || attrsSuffix <:+ name) && (keyError u name false).isNone

/-- `list()` -/
def list (d : Disk) : List BackupArchiveInfo :=
  (d.filter fun e => isListed u e.1).map fun e => { key := e.1, size := e.2.length }

/-- What the keys of the list stand for. -/
def archives (d : Disk) (key : Text) : Option Bytes :=
  if key ∈ (list u d).map BackupArchiveInfo.key then d.get? key else none

/-! ## Publishing -/

/-- The system calls of the store, each with its place in the program. -/
inductive Place
  | inspect
  | openTemporary
  | read (chunk : ℕ)
  | write (offset : ℕ)
  | fsyncTemporary
  | closeTemporary
  | openAttrs
  | writeAttrs (offset : ℕ)
  | fsyncAttrs
  | closeAttrs
  | linkKey
  | unlinkTemporary
  | linkAttrs
  | unlinkAttrsTemporary
  | fsyncRoot
  | inspectPublished
  /-- The calls of the `finally` block. -/
  | closeTemporaryAgain
  | closeAttrsAgain
  | removeTemporary
  | removeAttrsTemporary
  | removeKey
  | removeAttrs
  /-- The calls of `delete`. -/
  | unlinkKey
  | unlinkAttrs
  | fsyncDeleted
  deriving DecidableEq

/-- The local variables of `publish`, and the directory. -/
structure Frame where
  disk : Disk
  descriptor : Bool := false
  attrsDescriptor : Bool := false
  linked : Bool := false
  attrsPublished : Bool := false
  published : Bool := false
  info : Option BackupArchiveInfo := none

/-- How an operation ends. -/
inductive Outcome
  | returned (info : Option BackupArchiveInfo)
  | raised (e : StoreError)
  | crashed
  deriving DecidableEq

abbrev Step := SysCall Place Frame StoreError

def onDisk (act : Disk → Except OsError Disk) (f : Frame) : Except StoreError Frame :=
  match act f.disk with
  | .ok d => .ok { f with disk := d }
  | .error e => .error (.os e)

/-- A call that raises an `OSError` when it fails. -/
def sys (place : Place) (act : Frame → Except StoreError Frame) : Step :=
  { place := some place, failure := .os .io, act := act }

/-- A check or an assignment. -/
def compute (act : Frame → Except StoreError Frame) : Step :=
  { place := none, failure := .os .io, act := act }

def temporaryName (token : Text) : Text := (".upload-" : Text) ++ token ++ (".tmp" : Text)

def attrsTemporaryName (token : Text) : Text :=
  (".upload-" : Text) ++ token ++ (".attrs.tmp" : Text)

def attrsName (key : Text) : Text := key ++ attrsSuffix

/-- `_write_all(descriptor, payload)`, where the system takes the bytes one by one. -/
def writeAll (name : Text) (place : ℕ → Place) : ℕ → Bytes → List Step
  | _, [] => []
  | n, b :: bs =>
    sys (place n) (fun f => .ok { f with disk := append name b f.disk }) ::
      writeAll name place (n + 1) bs

def checkSize (maxSize : Option ℕ) (size : ℕ) (f : Frame) : Except StoreError Frame :=
  match maxSize with
  | none => .ok f
  | some limit =>
    if limit < size then
      .error (.transport "backup_upload_too_large"
        "The uploaded backup exceeds the configured size limit.")
    else .ok f

/-- The loop over `source.read(..)`, which ends at an empty chunk. -/
def copyCalls (name : Text) (maxSize : Option ℕ) : ℕ → ℕ → List Bytes → List Step
  | i, _, [] => [sys (.read i) .ok]
  | i, size, chunk :: chunks =>
    if chunk = [] then [sys (.read i) .ok]
    else
      sys (.read i) .ok :: compute (checkSize maxSize (size + chunk.length)) ::
        (writeAll name .write size chunk ++
          copyCalls name maxSize (i + 1) (size + chunk.length) chunks)

/-- The bytes that the loop reads. -/
def payload (source : List Bytes) : Bytes := (source.takeWhile (· ≠ [])).flatten

def checkContent (sniffZip : Bool) (content : Bytes) (f : Frame) : Except StoreError Frame :=
  if content.length = 0 then
    .error (.transport "backup_upload_empty" "The uploaded backup ZIP is empty.")
  else if sniffZip = true ∧ ¬∃ magic ∈ zipMagic, magic <+: content.take 4 then
    .error (.transport "backup_upload_invalid_mime"
      "The uploaded file is not detected as application/zip.")
  else .ok f

/-- `os.link(..)`, and what the program sets after it. -/
def linkAs (source target : Text) (present : Text) (set : Frame → Frame) (f : Frame) :
    Except StoreError Frame :=
  match link source target f.disk with
  | .ok d => .ok (set { f with disk := d })
  | .error .fileExists => .error (.alreadyExists present)
  | .error e => .error (.os e)

/-- What is published. -/
structure Upload where
  source : List Bytes
  key : Text
  requireZipSuffix : Bool
  sniffZip : Bool
  maxSize : Option ℕ
  /-- The random part of the temporary names. -/
  token : Text

variable (attrsPayload : Text → Bytes → Bytes)

/-- The temporary files are written. -/
def prepareCalls (x : Upload) : List Step :=
  [sys .openTemporary fun f =>
      (onDisk (create (temporaryName x.token)) f).map fun f => { f with descriptor := true }] ++
  copyCalls (temporaryName x.token) x.maxSize 0 0 x.source ++
  [compute (checkContent x.sniffZip (payload x.source)),
    sys .fsyncTemporary .ok,
    sys .closeTemporary fun f => .ok { f with descriptor := false },
    sys .openAttrs fun f =>
      (onDisk (create (attrsTemporaryName x.token)) f).map fun f =>
        { f with attrsDescriptor := true }] ++
  writeAll (attrsTemporaryName x.token) .writeAttrs 0 (attrsPayload x.key (payload x.source)) ++
  [sys .fsyncAttrs .ok, sys .closeAttrs fun f => .ok { f with attrsDescriptor := false }]

/-- They get their names. -/
def linkCalls (x : Upload) : List Step :=
  [sys .linkKey (linkAs (temporaryName x.token) x.key (("backup already exists: " : Text) ++ x.key)
      fun f => { f with linked := true }),
    sys .unlinkTemporary (onDisk (unlink (temporaryName x.token))),
    sys .linkAttrs (linkAs (attrsTemporaryName x.token) (attrsName x.key)
      (("backup metadata already exists: " : Text) ++ x.key)
      fun f => { f with attrsPublished := true }),
    sys .unlinkAttrsTemporary (onDisk (unlink (attrsTemporaryName x.token))),
    sys .fsyncRoot .ok]

/-- `_regular_info(key)`, where only regular files are. -/
def regularInfo (key : Text) (f : Frame) : Except StoreError Frame :=
  match f.disk.get? key with
  | none => .error (.notFound (("backup not found: " : Text) ++ key))
  | some content => .ok { f with info := some { key := key, size := content.length } }

def inspect (place : Place) (key : Text) : Step :=
  { place := some place, failure := .state "backup could not be inspected safely",
    act := regularInfo key }

def finishCalls (x : Upload) : List Step :=
  [compute fun f => .ok { f with published := true }, inspect .inspectPublished x.key]

def publishCalls (x : Upload) : List Step :=
  prepareCalls attrsPayload x ++ linkCalls x ++ finishCalls x

/-- `try: os.unlink(name) except OSError: pass` -/
def remove (place : Place) (name : Text) : Step :=
  { place := some place, failure := .os .io, act := onDisk (unlink name), suppressed := true }

/-- The `finally` block closes what is open and removes the temporary files. -/
def cleanupTemporaries (x : Upload) (f : Frame) : List Step :=
  (if f.descriptor then [sys .closeTemporaryAgain .ok] else []) ++
  (if f.attrsDescriptor then [sys .closeAttrsAgain .ok] else []) ++
  [remove .removeTemporary (temporaryName x.token),
    remove .removeAttrsTemporary (attrsTemporaryName x.token)]

/-- It undoes what was linked, unless all was published. -/
def cleanupNames (x : Upload) (f : Frame) : List Step :=
  (if !f.published && f.linked then [remove .removeKey x.key] else []) ++
  if !f.published && f.attrsPublished then [remove .removeAttrs (attrsName x.key)] else []

def cleanup (x : Upload) (f : Frame) : List Step := cleanupTemporaries x f ++ cleanupNames x f

/-- An `OSError` of the `try` block is raised as another error. -/
def translate (message : Text) : StoreError → StoreError
  | .os _ => .state message
  | e => e

/-- The `finally` block after the calls of the `try` block. An error of its own wins. -/
def finallyDo (plan : Place → CallFault) (x : Upload) : Stop StoreError × Frame → Outcome × Disk
  | (.crashed, f) => (.crashed, f.disk)
  | (.done, f) =>
    match runCalls plan (cleanup x f) f with
    | (.done, f') => (.returned f'.info, f'.disk)
    | (.raised e, f') => (.raised e, f'.disk)
    | (.crashed, f') => (.crashed, f'.disk)
  | (.raised e, f) =>
    match runCalls plan (cleanup x f) f with
    | (.done, f') => (.raised (translate "backup ZIP could not be stored safely" e), f'.disk)
    | (.raised e', f') => (.raised e', f'.disk)
    | (.crashed, f') => (.crashed, f'.disk)

/-- `publish(source, key, ..)` -/
def publish (plan : Place → CallFault) (x : Upload) (d : Disk) : Outcome × Disk :=
  match validateBackupKey u x.key x.requireZipSuffix with
  | .error message => (.raised (.value message), d)
  | .ok _ =>
    match runCalls plan [inspect .inspect x.key] { disk := d } with
    | (.done, _) =>
      (.raised (.alreadyExists (("backup already exists: " : Text) ++ x.key)), d)
    | (.raised (.notFound _), _) =>
      finallyDo plan x (runCalls plan (publishCalls attrsPayload x) { disk := d })
    | (.raised e, _) => (.raised e, d)
    | (.crashed, _) => (.crashed, d)

/-! ## Deleting -/

/-- `try: os.unlink(key + ".attrs") except FileNotFoundError: pass` -/
def unlinkSidecar (key : Text) (f : Frame) : Except StoreError Frame :=
  match onDisk (unlink (attrsName key)) f with
  | .error (.os .fileNotFound) => .ok f
  | r => r

def deleteCalls (key : Text) : List Step :=
  [sys .unlinkKey (onDisk (unlink key)), sys .unlinkAttrs (unlinkSidecar key),
    sys .fsyncDeleted .ok]

/-- The errors of `delete`. -/
def translateDelete (key : Text) : StoreError → StoreError
  | .os .fileNotFound => .notFound (("backup not found: " : Text) ++ key)
  | .os _ => .state "backup could not be deleted safely"
  | e => e

/-- `delete(key)` -/
def delete (plan : Place → CallFault) (key : Text) (d : Disk) : Outcome × Disk :=
  match validateBackupKey u key false with
  | .error message => (.raised (.value message), d)
  | .ok _ =>
    match runCalls plan [inspect .inspect key] { disk := d } with
    | (.done, f) =>
      match runCalls plan (deleteCalls key) f with
      | (.done, f') => (.returned none, f'.disk)
      | (.raised e, f') => (.raised (translateDelete key e), f'.disk)
      | (.crashed, f') => (.crashed, f'.disk)
    | (.raised e, _) => (.raised e, d)
    | (.crashed, _) => (.crashed, d)

end ArchiveStore

end PPBase
