import PPBase.PackedBytes

/-!
# Reading a ZIP archive

How Python's `zipfile` finds the central directory of an archive. The end record is the last 22
bytes, where they are one without a comment, and the last signature in the last 65558 bytes
otherwise, whatever the length of its comment (`endRecData`); the record that the ZIP64 locator
before it stands for is the one directly before the locator (`endRecData64`). The directory ends at
the first of the records found, and its entries are read until its size is reached (`contents`).
What an entry says is decoded by a parameter.
-/

namespace PPBase

namespace ZipFile

open PackedBytes

/-! ## Records -/

/-- `stringEndArchive` -/
def eocdSignature : List UInt8 := [0x50, 0x4B, 0x05, 0x06]

/-- `stringEndArchive64` -/
def zip64EocdSignature : List UInt8 := [0x50, 0x4B, 0x06, 0x06]

/-- `stringEndArchive64Locator` -/
def zip64LocatorSignature : List UInt8 := [0x50, 0x4B, 0x06, 0x07]

/-- `stringCentralDir` -/
def centralDirectorySignature : List UInt8 := [0x50, 0x4B, 0x01, 0x02]

/-- `sizeEndCentDir` -/
def eocdSize : ℕ := 22

/-- `sizeEndCentDir64` -/
def zip64EocdSize : ℕ := 56

/-- `sizeEndCentDir64Locator` -/
def zip64LocatorSize : ℕ := 20

/-- `sizeCentralDir` -/
def centralDirectorySize : ℕ := 46

/-- `BadZipFile`, with its text. -/
structure BadZipFile where
  message : String

/-- What of an end record the rest depends on. -/
structure EndRecord where
  location : ℕ
  zip64 : Bool
  size : ℕ

/-- The end of the central directory. -/
def EndRecord.stop (r : EndRecord) : ℕ :=
  if r.zip64 then r.location - (zip64EocdSize + zip64LocatorSize) else r.location

/-- `_EndRecData64` : the end record at a place, or the ZIP64 record before it. -/
def endRecData64 (b : List UInt8) (location : ℕ) : Except BadZipFile EndRecord :=
  let endrec : EndRecord := { location, zip64 := false, size := field b (location + 12) 4 }
  if location < zip64LocatorSize then .ok endrec
  else if slice b (location - zip64LocatorSize) 4 ≠ zip64LocatorSignature then .ok endrec
  else if field b (location - zip64LocatorSize + 4) 4 ≠ 0 ∨
      1 < field b (location - zip64LocatorSize + 16) 4 then
    .error ⟨"zipfiles that span multiple disks are not supported"⟩
  else if location < zip64LocatorSize + zip64EocdSize then .error ⟨"File is not a zip file"⟩
  else if slice b (location - zip64LocatorSize - zip64EocdSize) 4 ≠ zip64EocdSignature then
    .ok endrec
  else
    let record := location - zip64LocatorSize - zip64EocdSize
    .ok { location, zip64 := true, size := field b (record + 40) 8 }

/-- The last 22 bytes are an end record without a comment. -/
def endsPlainly (b : List UInt8) : Bool :=
  slice b (b.length - eocdSize) 4 = eocdSignature && slice b (b.length - 2) 2 = [0, 0]

/-- `_EndRecData` -/
def endRecData (b : List UInt8) : Except BadZipFile EndRecord :=
  let maxCommentStart := b.length - (1 <<< 16) - eocdSize
  if b.length < eocdSize then .error ⟨"File is not a zip file"⟩
  else if endsPlainly b then endRecData64 b (b.length - eocdSize)
  else
    match rfind eocdSignature (b.drop maxCommentStart) (b.length - maxCommentStart) with
    | none => .error ⟨"File is not a zip file"⟩
    | some start =>
      if b.length < maxCommentStart + start + eocdSize then .error ⟨"File is not a zip file"⟩
      else endRecData64 b (maxCommentStart + start)

/-! ## The central directory -/

/-- The length of the entry at a place, of which the header has those of its variable parts. -/
def entrySize (b : List UInt8) (i : ℕ) : ℕ :=
  centralDirectorySize + (field b (i + 28) 2 + field b (i + 30) 2 + field b (i + 32) 2)

theorem centralDirectorySize_le_entrySize (b : List UInt8) (i : ℕ) :
    centralDirectorySize ≤ entrySize b i := Nat.le_add_right _ _

section Contents

variable {α : Type} (decode : List UInt8 → Except BadZipFile α)

/-- The entries of a directory of `size` bytes, from `total` on. -/
def readEntries (data : List UInt8) (size total : ℕ) : Except BadZipFile (List α) :=
  if total < size then
    if (slice data total centralDirectorySize).length ≠ centralDirectorySize then
      .error ⟨"Truncated central directory"⟩
    else if slice data total 4 ≠ centralDirectorySignature then
      .error ⟨"Bad magic number for central directory"⟩
    else
      match decode (slice data total (entrySize data total)) with
      | .error e => .error e
      | .ok info =>
        match readEntries data size (total + entrySize data total) with
        | .error e => .error e
        | .ok infos => .ok (info :: infos)
  else .ok []
termination_by size - total
decreasing_by
  have := centralDirectorySize_le_entrySize data total
  unfold centralDirectorySize at this
  omega

/-- The central directory that has been read. -/
structure Contents (α : Type) where
  start : ℕ
  size : ℕ
  infos : List α

/-- `_RealGetContents` -/
def contents (b : List UInt8) : Except BadZipFile (Contents α) :=
  match endRecData b with
  | .error e => .error e
  | .ok endrec =>
    if endrec.stop < endrec.size then .error ⟨"Bad offset for central directory"⟩
    else
      let start := endrec.stop - endrec.size
      match readEntries decode (slice b start endrec.size) endrec.size 0 with
      | .error e => .error e
      | .ok infos => .ok { start, size := endrec.size, infos }

end Contents

end ZipFile

end PPBase
