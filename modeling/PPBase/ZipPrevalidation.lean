import PPBase.ZipFile

/-!
# Checking the directory of an uploaded archive

`prevalidateZipDirectory` finds the end record of an upload (`findEndRecord`), the central directory
it stands for, in a ZIP64 record or by itself (`locateDirectory`), and walks over the entries
(`walkDirectory`), before `zipfile` reads any of them. The source returns nothing; here the
directory is returned that has been checked.
-/

namespace PPBase

namespace Backup

open PackedBytes ZipFile

/-- `BackupTransportLimits` -/
structure BackupTransportLimits where
  maxUploadBytes : ℕ
  maxUncompressedBytes : ℕ
  maxResourceBytes : ℕ
  maxEntries : ℕ
  maxCentralDirectoryBytes : ℕ
  maxCompressionRatio : ℕ
  chunkSize : ℕ
  positive : ∀ n ∈ [maxUploadBytes, maxUncompressedBytes, maxResourceBytes, maxEntries,
    maxCentralDirectoryBytes, maxCompressionRatio, chunkSize], 0 < n

/-- `BackupTransportError` -/
structure BackupTransportError where
  code : String
  message : String

/-- An error with the code of an invalid archive. -/
def invalidZip (message : String) : BackupTransportError := ⟨"backup_zip_invalid", message⟩

/-- `_read_archive_range` -/
def readArchiveRange (b : List UInt8) (offset size : ℕ) :
    Except BackupTransportError (List UInt8) :=
  if (slice b offset size).length = size then .ok (slice b offset size)
  else .error (invalidZip "The uploaded ZIP has a truncated directory record.")

/-! ## The end record -/

/-- The length of the longest end record. -/
def maximumTail : ℕ := 65535 + eocdSize

theorem rfind_lt {pattern b : List UInt8} {stop i : ℕ} (hne : pattern ≠ [])
    (h : rfind pattern b stop = some i) : i < stop := by
  have hpos := List.length_pos_iff.2 hne
  rw [rfind] at h
  split_ifs at h
  have := (rfindFrom_eq_some_iff.1 h).1
  omega

/-- The search for an end record whose comment reaches to the end, from `searchEnd` backwards. -/
def searchEndRecord (tail : List UInt8) (searchEnd : ℕ) : Option ℕ :=
  match h : rfind eocdSignature tail searchEnd with
  | none => none
  | some index =>
    if index + eocdSize ≤ tail.length ∧
        index + eocdSize + field tail (index + 20) 2 = tail.length then some index
    else
      have := rfind_lt (by decide) h
      searchEndRecord tail index
termination_by searchEnd

/-- Where the end record is. -/
def findEndRecord (b : List UInt8) : Except BackupTransportError ℕ :=
  let tailSize := min b.length maximumTail
  let tailOffset := b.length - tailSize
  match readArchiveRange b tailOffset tailSize with
  | .error e => .error e
  | .ok tail =>
    match searchEndRecord tail tail.length with
    | none => .error (invalidZip "The uploaded file has no valid ZIP end record.")
    | some index => .ok (tailOffset + index)

/-! ## The directory -/

/-- Where a central directory is and what is said of it. -/
structure ZipDirectory where
  entries : ℕ
  size : ℕ
  offset : ℕ
  stop : ℕ
  deriving DecidableEq

/-- The ZIP64 locator before an end record. -/
def zip64Locator? (b : List UInt8) (eocd : ℕ) : Option ℕ :=
  if zip64LocatorSize ≤ eocd ∧ slice b (eocd - zip64LocatorSize) 4 = zip64LocatorSignature then
    some (eocd - zip64LocatorSize)
  else none

/-- The directory of a ZIP64 record, which may not contradict the end record. -/
def zip64Directory (b : List UInt8) (eocd locator : ℕ) :
    Except BackupTransportError ZipDirectory :=
  let zip64Offset := field b (locator + 8) 8
  if field b (locator + 4) 4 ≠ 0 ∨ field b (locator + 16) 4 ≠ 1 then
    .error (invalidZip "Multi-disk ZIP64 archives are not accepted.")
  else
    match readArchiveRange b zip64Offset zip64EocdSize with
    | .error e => .error e
    | .ok record =>
      if slice record 0 4 ≠ zip64EocdSignature then
        .error (invalidZip "The uploaded ZIP64 end record is invalid.")
      else if field record 4 8 < zip64EocdSize - 12 ∨
        zip64Offset + 12 + field record 4 8 ≠ locator ∨
          field record 16 4 ≠ 0 ∨ field record 20 4 ≠ 0 ∨ field record 24 8 ≠ field record 32 8 then
        .error (invalidZip "The uploaded ZIP64 directory layout is invalid.")
      else if [(field b (eocd + 8) 2, field record 24 8, 0xFFFF),
          (field b (eocd + 10) 2, field record 32 8, 0xFFFF),
          (field b (eocd + 12) 4, field record 40 8, 0xFFFFFFFF),
          (field b (eocd + 16) 4, field record 48 8, 0xFFFFFFFF)].any
            fun (legacy, actual, sentinel) => legacy ≠ sentinel && legacy ≠ actual then
        .error (invalidZip "The ZIP and ZIP64 directory records disagree.")
      else
        .ok {
          entries := field record 32 8
          size := field record 40 8
          offset := field record 48 8
          stop := zip64Offset }

/-- The directory an end record stands for. -/
def locateDirectory (b : List UInt8) (eocd : ℕ) : Except BackupTransportError ZipDirectory :=
  if field b (eocd + 4) 2 ≠ 0 ∨ field b (eocd + 6) 2 ≠ 0 then
    .error (invalidZip "Multi-disk ZIP archives are not accepted.")
  else
    match zip64Locator? b eocd with
    | some locator => zip64Directory b eocd locator
    | none =>
      if field b (eocd + 8) 2 = 0xFFFF ∨ field b (eocd + 10) 2 = 0xFFFF ∨
          field b (eocd + 12) 4 = 0xFFFFFFFF ∨ field b (eocd + 16) 4 = 0xFFFFFFFF then
        .error (invalidZip "The uploaded ZIP has no valid ZIP64 locator.")
      else if field b (eocd + 8) 2 ≠ field b (eocd + 10) 2 then
        .error (invalidZip "Multi-disk ZIP archives are not accepted.")
      else
        .ok {
          entries := field b (eocd + 10) 2
          size := field b (eocd + 12) 4
          offset := field b (eocd + 16) 4
          stop := eocd }

/-- The number of entries from `cursor` to the end of the directory, `actualEntries` before them. -/
def walkDirectory (b : List UInt8) (maxEntries stop cursor actualEntries : ℕ) :
    Except BackupTransportError (ℕ × ℕ) :=
  if cursor < stop then
    if maxEntries ≤ actualEntries then
      .error ⟨"backup_zip_too_many_entries", "The uploaded ZIP contains too many entries."⟩
    else if (slice b cursor centralDirectorySize).length ≠ centralDirectorySize then
      .error (invalidZip "The uploaded ZIP central directory is truncated.")
    else if slice b cursor 4 ≠ centralDirectorySignature then
      .error (invalidZip "The uploaded ZIP central directory has an invalid entry.")
    else if stop < cursor + entrySize b cursor then
      .error (invalidZip "The uploaded ZIP central directory entry exceeds its bounds.")
    else walkDirectory b maxEntries stop (cursor + entrySize b cursor) (actualEntries + 1)
  else .ok (cursor, actualEntries)
termination_by stop - cursor
decreasing_by
  have := centralDirectorySize_le_entrySize b cursor
  unfold centralDirectorySize at this
  omega

/-- `_prevalidate_zip_directory` -/
def prevalidateZipDirectory (b : List UInt8) (limits : BackupTransportLimits) :
    Except BackupTransportError ZipDirectory :=
  match findEndRecord b with
  | .error e => .error e
  | .ok eocd =>
    match locateDirectory b eocd with
    | .error e => .error e
    | .ok d =>
      if limits.maxEntries < d.entries then
        .error ⟨"backup_zip_too_many_entries", "The uploaded ZIP contains too many entries."⟩
      else if limits.maxCentralDirectoryBytes < d.size then
        .error ⟨"backup_zip_central_directory_too_large",
          "The uploaded ZIP central directory exceeds its size limit."⟩
      else if d.size < d.entries * centralDirectorySize then
        .error (invalidZip "The uploaded ZIP central directory is inconsistent.")
      else if d.offset + d.size ≠ d.stop then
        .error (invalidZip "The uploaded ZIP contains an unsupported directory layout.")
      else
        match walkDirectory b limits.maxEntries d.stop d.offset 0 with
        | .error e => .error e
        | .ok (cursor, actualEntries) =>
          if cursor ≠ d.stop ∨ actualEntries ≠ d.entries then
            .error (invalidZip "The uploaded ZIP central directory count is inconsistent.")
          else .ok d

end Backup

end PPBase
