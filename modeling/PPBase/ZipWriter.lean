import PPBase.Text
import PPBase.ZipFile

/-!
# Writing a ZIP archive

What Python's `zipfile` writes: members with their headers (`Archive.write`), and when the archive
is closed (`Archive.close`) the entries of the central directory, a ZIP64 record with its locator
where the count, the offset or the size asks for one, and the end record.
-/

namespace PPBase

namespace ZipFile

open PackedBytes

/-- `ZIP64_LIMIT` -/
def zip64Limit : ℕ := (1 <<< 31) - 1

/-- `ZIP_FILECOUNT_LIMIT` -/
def zipFilecountLimit : ℕ := (1 <<< 16) - 1

/-- What an archive keeps of a member. -/
structure ZipInfo where
  filename : Text
  origFilename : Text
  version : ℕ := 20
  flagBits : ℕ := 0
  compressType : ℕ
  dosTime : ℕ
  dosDate : ℕ
  crc : ℕ
  compressSize : ℕ
  fileSize : ℕ
  externalAttr : ℕ
  headerOffset : ℕ
  deriving DecidableEq

namespace ZipInfo

/-- The numbers that need more than their fields. -/
def extra (x : ZipInfo) : List ℕ :=
  (if zip64Limit < x.fileSize ∨ zip64Limit < x.compressSize then [x.fileSize, x.compressSize]
    else []) ++
  if zip64Limit < x.headerOffset then [x.headerOffset] else []

/-- `struct.pack('<HH' + 'Q' * len(extra), 1, 8 * len(extra), *extra)` -/
def extraData (x : ZipInfo) : List UInt8 :=
  if x.extra = [] then [] else le 2 1 ++ le 2 (8 * x.extra.length) ++ x.extra.flatMap (le 8)

/-- The version with `ZIP64_VERSION` for an extra field. -/
def neededVersion (x : ZipInfo) : ℕ := if x.extra = [] then x.version else max 45 x.version

/-- `_encodeFilenameFlags` -/
def encodedFlags (x : ZipInfo) : ℕ :=
  if x.filename.all fun c => c.toNat < 128 then x.flagBits else x.flagBits ||| 0x800

/-- `struct.pack(structCentralDir, ...)` -/
def centralHeader (x : ZipInfo) : List UInt8 :=
  let large := decide (zip64Limit < x.fileSize ∨ zip64Limit < x.compressSize)
  centralDirectorySignature ++
    (le 1 x.neededVersion ++ le 1 3 ++ le 1 x.neededVersion ++ le 1 0 ++ le 2 x.encodedFlags ++
      le 2 x.compressType ++ le 2 x.dosTime ++ le 2 x.dosDate ++ le 4 x.crc ++
      le 4 (if large then 0xFFFFFFFF else x.compressSize) ++
      le 4 (if large then 0xFFFFFFFF else x.fileSize)) ++
    (le 2 (Text.encodeUtf8 x.filename).length ++ le 2 x.extraData.length ++ le 2 0) ++
    (le 2 0 ++ le 2 0 ++ le 4 x.externalAttr ++
      le 4 (if zip64Limit < x.headerOffset then 0xFFFFFFFF else x.headerOffset))

/-- The entry of a member in the central directory. -/
def entry (x : ZipInfo) : List UInt8 :=
  x.centralHeader ++ Text.encodeUtf8 x.filename ++ x.extraData

/-- A member as its entry describes it. -/
def stored (x : ZipInfo) : ZipInfo :=
  { x with version := x.neededVersion, flagBits := x.encodedFlags }

/-- `FileHeader(zip64)` of a member whose sizes are known. -/
def fileHeader (x : ZipInfo) (zip64 : Bool) : List UInt8 :=
  let extra := if zip64 then le 2 1 ++ le 2 16 ++ le 8 x.fileSize ++ le 8 x.compressSize else []
  [0x50, 0x4B, 0x03, 0x04] ++ le 1 x.version ++ le 1 0 ++ le 2 x.encodedFlags ++
    le 2 x.compressType ++ le 2 x.dosTime ++ le 2 x.dosDate ++ le 4 x.crc ++
    le 4 (if zip64 then 0xFFFFFFFF else x.compressSize) ++
    le 4 (if zip64 then 0xFFFFFFFF else x.fileSize) ++
    le 2 (Text.encodeUtf8 x.filename).length ++ le 2 extra.length ++
    Text.encodeUtf8 x.filename ++ extra

end ZipInfo

/-- The central directory. -/
def directory (infos : List ZipInfo) : List UInt8 := infos.flatMap ZipInfo.entry

/-- An end record has no room for a number. -/
def requiresZip64 (count offset size : ℕ) : Bool :=
  zipFilecountLimit < count || zip64Limit < offset || zip64Limit < size

/-- `struct.pack(structEndArchive64, ...)` -/
def zip64EndRecord (count offset size : ℕ) : List UInt8 :=
  zip64EocdSignature ++ le 8 44 ++ le 2 45 ++ le 2 45 ++ le 4 0 ++ le 4 0 ++ le 8 count ++
    le 8 count ++ le 8 size ++ le 8 offset

/-- `struct.pack(structEndArchive64Locator, ...)` -/
def zip64Locator (offset : ℕ) : List UInt8 :=
  zip64LocatorSignature ++ le 4 0 ++ le 8 offset ++ le 4 1

/-- `struct.pack(structEndArchive, ...)` -/
def endRecord (count offset size comment : ℕ) : List UInt8 :=
  eocdSignature ++ le 2 0 ++ le 2 0 ++ le 2 count ++ le 2 count ++ le 4 size ++ le 4 offset ++
    le 2 comment

/-- The records after a central directory. -/
def endRecords (count offset size : ℕ) : List UInt8 :=
  if requiresZip64 count offset size then
    zip64EndRecord count offset size ++ zip64Locator (offset + size) ++
      endRecord (min count 0xFFFF) (min offset 0xFFFFFFFF) (min size 0xFFFFFFFF) 0
  else endRecord count offset size 0

/-! ## Archives -/

/-- What `zlib` computes. -/
structure Zlib where
  /-- `zlib.compressobj(1, zlib.DEFLATED, -15)` on the whole of a member -/
  deflate : List UInt8 → List UInt8
  crc32 : List UInt8 → ℕ

/-- An archive that is being written. -/
structure Archive where
  members : List UInt8
  infos : List ZipInfo

namespace Archive

def empty : Archive := ⟨[], []⟩

/-- A deflated member that starts at an offset. -/
def info (z : Zlib) (name : Text) (zip64 : Bool) (content : List UInt8) (headerOffset : ℕ) :
    ZipInfo where
  filename := name
  origFilename := name
  version := if zip64 then 45 else 20
  compressType := 8
  dosTime := 0
  dosDate := 33
  crc := z.crc32 content
  compressSize := (z.deflate content).length
  fileSize := content.length
  externalAttr := 0o100600 <<< 16
  headerOffset

/-- A member after the others, unless its sizes do not fit into its header. -/
def write (z : Zlib) (a : Archive) (name : Text) (zip64 : Bool) (content : List UInt8) :
    Option Archive :=
  let x := info z name zip64 content a.members.length
  if !zip64 && (zip64Limit < x.fileSize || zip64Limit < x.compressSize) then none
  else some ⟨a.members ++ x.fileHeader zip64 ++ z.deflate content, a.infos ++ [x]⟩

/-- `_write_end_record`, unless `struct.pack` has no room for a name or a number. -/
def close (a : Archive) : Option (List UInt8) :=
  let size := (directory a.infos).length
  if (a.infos.all fun x => (Text.encodeUtf8 x.filename).length < 2 ^ 16 && x.fileSize < 2 ^ 64) &&
      a.members.length + size < 2 ^ 64 then
    some (a.members ++ directory a.infos ++ endRecords a.infos.length a.members.length size)
  else none

end Archive

end ZipFile

end PPBase
