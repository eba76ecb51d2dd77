import PPBase.Failing
import PPBase.SchemaContract

/-!
# The COPY container

`data.copy` is one compressed segment after the other. `SegmentWriter` compresses the chunks of
a segment as they come and returns a `CopySegment` that says where it lies. `SegmentReader`
reads a segment back and checks its sizes and hashes, and `validateSegmentLayout` checks that
the segments tile the file.

zlib is a `StreamCodec` and SHA-256 a function on the bytes that were hashed. A sink answers a
call of `write` with the number of bytes it took, or with `None`. `readChunks` may ask the
decompressor `fuel` times for the output of one chunk.
-/

universe u

namespace PPBase

/-! ## Streaming compression

A `StreamCodec` takes its input in pieces, as zlib's objects do. A call of the decompressor may
bound its output; what it has not read of its input is its unconsumed tail. A codec is `Lawful` if
its decompressor gives back what was compressed, whatever the pieces : `Inflates d z x` says that a
decompressor which has still to read `z` has still to return `x`.
-/

/-- A compressor and a decompressor of streams of `β`. A call that is `none` has failed. -/
structure StreamCodec (β : Type u) where
  Compressor : Type u
  compressobj : Compressor
  compress : Compressor → List β → List β × Compressor
  finish : Compressor → List β
  Decompressor : Type u
  decompressobj : Decompressor
  /-- The last argument bounds the output. -/
  decompress : Decompressor → List β → ℕ → Option (List β × Decompressor)
  unconsumedTail : Decompressor → List β
  flush : Decompressor → Option (List β × Decompressor)
  eof : Decompressor → Bool
  unusedData : Decompressor → List β

namespace StreamCodec

variable {β : Type u} (Z : StreamCodec β)

/-- The rest of a stream, from the pieces that are still to be compressed. -/
def compressAll : Z.Compressor → List (List β) → List β
  | c, [] => Z.finish c
  | c, x :: xs => (Z.compress c x).1 ++ compressAll (Z.compress c x).2 xs

/-- The decompressor gives back what was compressed. -/
structure Lawful (Inflates : Z.Decompressor → List β → List β → Prop) : Prop where
  start : ∀ xs : List (List β), (∀ x ∈ xs, x ≠ []) →
    Inflates Z.decompressobj (Z.compressAll Z.compressobj xs) xs.flatten
  /-- The output is a part of what is to come. Input is left only when the output is full. -/
  step : ∀ (d : Z.Decompressor) (data z x : List β) (max : ℕ), data ≠ [] → 0 < max →
    Inflates d (data ++ z) x → ∃ out x' d', Z.decompress d data max = some (out, d') ∧
      x = out ++ x' ∧ out.length ≤ max ∧ (Z.unconsumedTail d' ≠ [] → out.length = max) ∧
      Inflates d' (Z.unconsumedTail d' ++ z) x'
  finish : ∀ (d : Z.Decompressor) (x : List β), Inflates d [] x →
    ∃ d', Z.flush d = some (x, d') ∧ Z.eof d' = true ∧ Z.unusedData d' = []

variable {Z} {Inflates : Z.Decompressor → List β → List β → Prop}

/-- A call with room for more than the whole output reads its input to the end. -/
theorem Lawful.whole (h : Z.Lawful Inflates) {d : Z.Decompressor} {data z x : List β} {max : ℕ}
    (hdata : data ≠ []) (hmax : x.length < max) (hi : Inflates d (data ++ z) x) :
    ∃ out x' d', Z.decompress d data max = some (out, d') ∧ x = out ++ x' ∧
      Z.unconsumedTail d' = [] ∧ Inflates d' z x' := by
  obtain ⟨out, x', d', hcall, hx, -, hfull, hi'⟩ :=
    h.step d data z x max hdata (Nat.zero_lt_of_lt hmax) hi
  have htail : Z.unconsumedTail d' = [] := by
    by_contra hne
    have hlen : x.length = out.length + x'.length := by rw [hx, List.length_append]
    have := hfull hne
    omega
  rw [htail, List.nil_append] at hi'
  exact ⟨out, x', d', hcall, hx, htail, hi'⟩

end StreamCodec

namespace CopyFormat

open SchemaManager SchemaContract

abbrev Bytes := List UInt8

/-- `_CHUNK_SIZE` -/
def chunkSize : ℕ := 1 <<< 20

/-- `_DEFAULT_MAX_RATIO` -/
def defaultMaxRatio : ℕ := 200

/-- `_DEFAULT_MAX_TOTAL` -/
def defaultMaxTotal : ℕ := 64 * (1 <<< 30)

def number (n : ℕ) : Text := (toString n).toList

/-- `repr` of an identifier. -/
def quoted (s : Text) : Text := '\'' :: s ++ ['\'']

/-- The error of `_validate_identifier`, if any. -/
def identifierError (label value : Text) : Option Text :=
  if !isName value then some (label ++ (" is not a valid unquoted identifier" : Text))
  else if 63 < (value.map Char.utf8Size).sum then some (label ++ (" exceeds 63 bytes" : Text))
  else none

/-- `_SHA256_PATTERN` -/
def isSha256 (s : Text) : Bool :=
  s.length = 64 && s.all fun c => c.isDigit || ('a' ≤ c && c ≤ 'f')

/-- The error of `_validate_sha256`, if any. -/
def sha256Error (label value : Text) : Option Text :=
  if isSha256 value then none
  else some (label ++ (" must be 64 lowercase hex characters" : Text))

/-! ## Segments -/

/-- `CopySegment` -/
structure CopySegment where
  table : Text
  columns : List Text
  offset : ℕ
  compressedSize : ℕ
  compressedSha256 : Text
  uncompressedSize : ℕ
  uncompressedSha256 : Text
  rowCount : ℕ
  table_ok : isIdentifier table = true
  columns_ne_nil : columns ≠ []
  columns_ok : ∀ c ∈ columns, isIdentifier c = true
  columns_nodup : columns.Nodup
  compressed_ok : isSha256 compressedSha256 = true
  uncompressed_ok : isSha256 uncompressedSha256 = true

namespace CopySegment

/-- `end_offset` -/
def endOffset (s : CopySegment) : ℕ := s.offset + s.compressedSize

/-- The first column that is no identifier or was there before. -/
def columnsError : List Text → List Text → Option Text
  | _, [] => none
  | seen, c :: cs =>
    match identifierError "segment column" c with
    | some e => some e
    | none =>
      if c ∈ seen then some (("duplicate segment column: " : Text) ++ c)
      else columnsError (c :: seen) cs

/-- The first error of `__post_init__`. -/
def error (table : Text) (columns : List Text) (rowCount : ℤ)
    (compressedSha256 uncompressedSha256 : Text) : Option Text :=
  (identifierError "segment table" table).or <|
    (if columns = [] then some ("segment must list at least one column" : Text) else none).or <|
    (columnsError [] columns).or <|
    (if rowCount < 0 then some ("row_count must be a non-negative integer" : Text) else none).or <|
    (sha256Error "compressed_sha256" compressedSha256).or <|
    sha256Error "uncompressed_sha256" uncompressedSha256

theorem identifierError_eq_none {label value : Text} (h : identifierError label value = none) :
    isIdentifier value = true := by
  unfold identifierError at h
  split_ifs at h with hname hlen
  rw [Bool.not_eq_true', Bool.not_eq_false] at hname
  simp only [isIdentifier, hname, Bool.true_and, decide_eq_true_eq]
  omega

theorem columnsError_eq_none {seen columns : List Text} (h : columnsError seen columns = none) :
    (∀ c ∈ columns, isIdentifier c = true) ∧ columns.Nodup ∧ ∀ c ∈ columns, c ∉ seen := by
  induction columns generalizing seen with
  | nil => exact ⟨nofun, .nil, nofun⟩
  | cons c cs ih =>
    unfold columnsError at h
    cases he : identifierError "segment column" c with
    | some e =>
      rw [he] at h
      cases h
    | none =>
      rw [he] at h
      split_ifs at h with hseen
      obtain ⟨hid, hnd, hnew⟩ := ih h
      refine ⟨fun d hd => ?_, List.nodup_cons.2 ⟨fun hc => hnew c hc List.mem_cons_self, hnd⟩,
        fun d hd => ?_⟩
      · rcases List.mem_cons.1 hd with rfl | hd
        · exact identifierError_eq_none he
        · exact hid d hd
      · rcases List.mem_cons.1 hd with rfl | hd
        · exact hseen
        · exact fun hs => hnew d hd (List.mem_cons_of_mem _ hs)

theorem sha256Error_eq_none {label value : Text} (h : sha256Error label value = none) :
    isSha256 value = true := by
  unfold sha256Error at h
  split_ifs at h with hs
  exact hs

/-- What a segment without an error satisfies. -/
structure Valid (table : Text) (columns : List Text) (rowCount : ℤ)
    (compressedSha256 uncompressedSha256 : Text) : Prop where
  table_ok : isIdentifier table = true
  columns_ne_nil : columns ≠ []
  columns_ok : ∀ c ∈ columns, isIdentifier c = true
  columns_nodup : columns.Nodup
  rowCount_nonneg : 0 ≤ rowCount
  compressed_ok : isSha256 compressedSha256 = true
  uncompressed_ok : isSha256 uncompressedSha256 = true

theorem valid_of_error_eq_none {table : Text} {columns : List Text} {rowCount : ℤ}
    {compressedSha256 uncompressedSha256 : Text}
    (h : error table columns rowCount compressedSha256 uncompressedSha256 = none) :
    Valid table columns rowCount compressedSha256 uncompressedSha256 := by
  unfold error at h
  rw [Option.or_eq_none_iff, Option.or_eq_none_iff, Option.or_eq_none_iff,
    Option.or_eq_none_iff, Option.or_eq_none_iff] at h
  obtain ⟨htable, hnil, hcols, hrows, hcomp, hraw⟩ := h
  obtain ⟨hid, hnd, -⟩ := columnsError_eq_none hcols
  refine ⟨identifierError_eq_none htable, fun hc => ?_, hid, hnd, not_lt.1 fun hr => ?_,
    sha256Error_eq_none hcomp, sha256Error_eq_none hraw⟩
  · rw [if_pos hc] at hnil
    cases hnil
  · rw [if_pos hr] at hrows
    cases hrows

/-- `CopySegment(...)` with its `__post_init__`. -/
def make (table : Text) (columns : List Text) (offset compressedSize : ℕ)
    (compressedSha256 : Text) (uncompressedSize : ℕ) (uncompressedSha256 : Text) (rowCount : ℤ) :
    Except Text CopySegment :=
  match h : error table columns rowCount compressedSha256 uncompressedSha256 with
  | some e => .error e
  | none =>
    have hv := valid_of_error_eq_none h
    .ok ⟨table, columns, offset, compressedSize, compressedSha256, uncompressedSize,
      uncompressedSha256, rowCount.toNat, hv.table_ok, hv.columns_ne_nil, hv.columns_ok,
      hv.columns_nodup, hv.compressed_ok, hv.uncompressed_ok⟩

end CopySegment

/-! ## Writing -/

/-- A sink with what it holds and its answers to the next calls of `write`. Without further
answers it takes everything. -/
structure Sink where
  contents : Bytes
  answers : List (Option ℕ)

/-- The loop of `_emit` over short writes. -/
def writeAll (contents : Bytes) : List (Option ℕ) → Bytes → Except Text Sink
  | answers, [] => .ok ⟨contents, answers⟩
  | [], data => .ok ⟨contents ++ data, []⟩
  | none :: answers, data => .ok ⟨contents ++ data, answers⟩
  | some n :: answers, data =>
    if n = 0 then .error "segment sink accepted no bytes"
    else writeAll (contents ++ data.take n) answers (data.drop n)

/-- `SegmentWriter` -/
structure SegmentWriter where
  sink : Sink
  written : ℕ := 0
  closed : Bool := false
  isOpen : Bool := false

/-- `_emit` -/
def SegmentWriter.emit (w : SegmentWriter) (data : Bytes) : Except Text SegmentWriter :=
  if data = [] then .ok w
  else do
    let sink ← writeAll w.sink.contents w.sink.answers data
    return { w with sink, written := w.written + data.length }

section Writer

variable (Z : StreamCodec UInt8) (sha256 : Bytes → Text)

/-- `_OpenSegment`, with the bytes that the two hash objects have seen. -/
structure OpenSegment where
  table : Text
  columns : List Text
  offset : ℕ
  compressor : Z.Compressor
  rawHash : Bytes := []
  compHash : Bytes := []
  uncompressedSize : ℕ := 0
  compressedSize : ℕ := 0
  done : Bool := false

/-- `begin_segment` -/
def beginSegment (w : SegmentWriter) (table : Text) (columns : List Text) :
    Except Text (OpenSegment Z × SegmentWriter) :=
  if w.closed then .error "SegmentWriter is closed"
  else if w.isOpen then .error "a segment is already open"
  else
    match identifierError "segment table" table with
    | some e => .error e
    | none =>
      .ok ({ table, columns, offset := w.written, compressor := Z.compressobj },
        { w with isOpen := true })

variable {Z}

/-- Compressed bytes are hashed, counted and written. -/
def OpenSegment.put (s : OpenSegment Z) (w : SegmentWriter) (data : Bytes) :
    Except Text (OpenSegment Z × SegmentWriter) :=
  if data = [] then .ok (s, w)
  else do
    let w ← w.emit data
    return ({ s with
      compHash := s.compHash ++ data, compressedSize := s.compressedSize + data.length }, w)

/-- `feed` -/
def OpenSegment.feed (s : OpenSegment Z) (w : SegmentWriter) (data : Bytes) :
    Except Text (OpenSegment Z × SegmentWriter) :=
  if s.done then .error "segment is already finished"
  else if data = [] then .ok (s, w)
  else
    let compressed := Z.compress s.compressor data
    { s with
      rawHash := s.rawHash ++ data
      uncompressedSize := s.uncompressedSize + data.length
      compressor := compressed.2 }.put w compressed.1

/-- `finish` -/
def OpenSegment.finish (s : OpenSegment Z) (w : SegmentWriter) (rowCount : ℤ) :
    Except Text (CopySegment × SegmentWriter) :=
  if s.done then .error "segment is already finished"
  else do
    let (s, w) ← { s with done := true }.put w (Z.finish s.compressor)
    let segment ← CopySegment.make s.table s.columns s.offset s.compressedSize (sha256 s.compHash)
      s.uncompressedSize (sha256 s.rawHash) rowCount
    return (segment, { w with isOpen := false })

/-- A segment to be written. -/
structure SegmentInput where
  table : Text
  columns : List Text
  chunks : List Bytes
  rowCount : ℤ

variable (Z)

/-- `write_segment` -/
def writeSegment (w : SegmentWriter) (input : SegmentInput) :
    Except Text (CopySegment × SegmentWriter) := do
  let (s, w) ← beginSegment Z w input.table input.columns
  let (s, w) ← input.chunks.foldlM (fun p chunk => p.1.feed p.2 chunk) (s, w)
  s.finish sha256 w input.rowCount

/-- Segments one after the other. -/
def writeSegments (w : SegmentWriter) : List SegmentInput →
    Except Text (List CopySegment × SegmentWriter)
  | [] => .ok ([], w)
  | input :: inputs => do
    let (segment, w) ← writeSegment Z sha256 w input
    let (segments, w) ← writeSegments w inputs
    return (segment :: segments, w)

end Writer

/-! ## Reading -/

/-- `_check_ratio` -/
def checkRatio (s : CopySegment) (maxRatio : ℕ) : Except Text Unit :=
  if s.compressedSize = 0 then
    if s.uncompressedSize ≠ 0 then
      .error (("empty compressed segment for " : Text) ++ quoted s.table ++ (" claims data" : Text))
    else .ok ()
  else if s.compressedSize * maxRatio < s.uncompressedSize then
    .error (("segment for " : Text) ++ quoted s.table ++ (" exceeds the " : Text) ++
      number maxRatio ++ ("x decompression ratio cap" : Text))
  else .ok ()

/-- `SegmentReader` -/
structure SegmentReader where
  file : Bytes
  totalSize : ℕ
  maxRatio : ℕ := defaultMaxRatio

section Reader

variable (Z : StreamCodec UInt8) (sha256 : Bytes → Text)

/-- Where `iter_uncompressed` stands, with the bytes that the two hash objects have seen. -/
structure Reading where
  decompressor : Z.Decompressor
  produced : ℕ := 0
  compHash : Bytes := []
  rawHash : Bytes := []
  yielded : List Bytes := []

variable {Z}

/-- Some plain bytes are hashed and yielded. -/
def Reading.yields (r : Reading Z) (plain : Bytes) : Reading Z :=
  if plain = [] then r
  else { r with rawHash := r.rawHash ++ plain, yielded := r.yielded ++ [plain] }

/-- The loop over the input that is pending. -/
def inflate (s : CopySegment) : ℕ → Reading Z → Bytes → Except Text (Reading Z)
  | 0, _, _ => .error "out of fuel"
  | fuel + 1, r, pending =>
    match Z.decompress r.decompressor pending (s.uncompressedSize - r.produced + 1) with
    | none => .error "segment is not valid zlib data"
    | some (plain, d) =>
      if s.uncompressedSize < r.produced + plain.length then
        .error "segment inflates past its recorded size"
      else
        let r := { r with decompressor := d, produced := r.produced + plain.length }.yields plain
        if Z.unconsumedTail d = [] then .ok r else inflate s fuel r (Z.unconsumedTail d)

/-- The loop over the compressed chunks, from the place in the file that was sought. -/
def readChunks (s : CopySegment) (fuel : ℕ) (rest : Bytes) (remaining : ℕ) (r : Reading Z) :
    Except Text (Reading Z) :=
  if _h : remaining = 0 then .ok r
  else
    let want := min chunkSize remaining
    let chunk := rest.take want
    if chunk.length ≠ want then .error "data.copy ended inside a segment"
    else do
      let r ← inflate s fuel { r with compHash := r.compHash ++ chunk } chunk
      readChunks s fuel (rest.drop want) (remaining - want) r
termination_by remaining
decreasing_by
  have : 0 < chunkSize := by decide
  omega

variable (Z)

/-- `iter_uncompressed`, with the chunks it yields. -/
def SegmentReader.iterUncompressed (reader : SegmentReader) (fuel : ℕ) (s : CopySegment) :
    Except Text (List Bytes) :=
  if reader.totalSize < s.endOffset then .error "segment runs past the pinned data.copy size"
  else do
    checkRatio s reader.maxRatio
    let r ← readChunks s fuel (reader.file.drop s.offset) s.compressedSize
      { decompressor := Z.decompressobj }
    match Z.flush r.decompressor with
    | none => .error "segment is not valid zlib data"
    | some (tail, d) =>
      if r.produced + tail.length ≠ s.uncompressedSize then
        .error "segment decompressed size mismatch"
      else if !Z.eof d then .error "segment has trailing compressed bytes"
      else if Z.unusedData d ≠ [] then .error "segment has unused bytes after the zlib stream"
      else if sha256 r.compHash ≠ s.compressedSha256 then .error "segment compressed hash mismatch"
      else if sha256 (r.yields tail).rawHash ≠ s.uncompressedSha256 then
        .error "segment decompressed hash mismatch"
      else .ok (r.yields tail).yielded

end Reader

/-! ## The layout of the file -/

/-- The loop of `validate_segment_layout`. -/
def checkLayout (totalSize maxTotal maxRatio : ℕ) : ℕ → ℕ → List CopySegment → Except Text Unit
  | cursor, _, [] =>
    if cursor ≠ totalSize then
      .error (("segments cover " : Text) ++ number cursor ++ (" bytes but data.copy is " : Text) ++
        number totalSize ++ (" bytes" : Text))
    else .ok ()
  | cursor, total, s :: rest =>
    if s.offset ≠ cursor then
      .error (("segment for " : Text) ++ quoted s.table ++
        (" is not contiguous: expected offset " : Text) ++ number cursor ++ (", found " : Text) ++
        number s.offset)
    else if totalSize < s.endOffset then
      .error (("segment for " : Text) ++ quoted s.table ++ (" runs past data.copy size" : Text))
    else do
      checkRatio s maxRatio
      if maxTotal < total + s.uncompressedSize then
        .error "archive exceeds the decompressed-byte budget"
      else checkLayout totalSize maxTotal maxRatio s.endOffset (total + s.uncompressedSize) rest

/-- `validate_segment_layout` -/
def validateSegmentLayout (segments : List CopySegment) (totalSize maxTotal maxRatio : ℕ) :
    Except Text (List CopySegment) := do
  checkLayout totalSize maxTotal maxRatio 0 0 segments
  return segments

end CopyFormat

end PPBase
