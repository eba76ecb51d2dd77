import PPBase.CopyFormat

/-!
# Reading back what was written

`Describes` is what the metadata of a segment say of its input. `written_of_writeSegments` : the
file holds the streams of the inputs one after the other, as their metadata say. From there
`iterUncompressed_eq` follows the reader through a stream.

`copy_round_trip` : the segments tile the file, and each reads back as the chunks it was written
from, if its payload is at most 200 times as long as its stream; else the reader refuses it, as it
does what zlib makes of `longTable`.
-/

namespace PPBase

namespace CopyFormat

variable {Z : StreamCodec UInt8} {sha256 : Bytes → Text}

/-! ## The writer -/

/-- The chunks that are compressed. -/
def SegmentInput.pieces (input : SegmentInput) : List Bytes := input.chunks.filter (· ≠ [])

def SegmentInput.payload (input : SegmentInput) : Bytes := input.chunks.flatten

variable (Z) in
/-- The compressed stream of a segment. -/
def SegmentInput.stream (input : SegmentInput) : Bytes := Z.compressAll Z.compressobj input.pieces

theorem flatten_pieces (input : SegmentInput) : input.pieces.flatten = input.payload := by
  unfold SegmentInput.pieces SegmentInput.payload
  induction input.chunks with
  | nil => rfl
  | cons x xs ih =>
    by_cases hx : x = []
    · rw [List.filter_cons_of_neg (by simpa using hx), ih, hx]
      rfl
    · rw [List.filter_cons_of_pos (by simpa using hx), List.flatten_cons, List.flatten_cons, ih]

theorem contents_writeAll {contents data : Bytes} {answers : List (Option ℕ)} {sink : Sink}
    (h : writeAll contents answers data = .ok sink) : sink.contents = contents ++ data := by
  induction answers generalizing contents data with
  | nil =>
    cases data with
    | nil =>
      rw [List.append_nil, ← Except.ok.inj h]
    | cons b bs => rw [← Except.ok.inj h]
  | cons a answers ih =>
    cases data with
    | nil =>
      rw [List.append_nil]
      cases a <;> rw [← Except.ok.inj h]
    | cons b bs =>
      cases a with
      | none => rw [← Except.ok.inj h]
      | some n =>
        simp only [writeAll] at h
        split_ifs at h
        rw [ih h, List.append_assoc, List.take_append_drop]

/-- The writer has put the bytes into the sink. -/
structure Grown (w w' : SegmentWriter) (data : Bytes) : Prop where
  contents : w'.sink.contents = w.sink.contents ++ data
  written : w'.written = w.written + data.length

theorem Grown.refl (w : SegmentWriter) : Grown w w [] := ⟨by simp, by simp⟩

variable {w w' : SegmentWriter} {input : SegmentInput} {s : CopySegment}

theorem Grown.trans {w'' : SegmentWriter} {x y : Bytes} (h : Grown w w' x) (h' : Grown w' w'' y) :
    Grown w w'' (x ++ y) :=
  ⟨by rw [h'.contents, h.contents, List.append_assoc],
    by rw [h'.written, h.written, List.length_append, Nat.add_assoc]⟩

theorem SegmentWriter.grown_emit {data : Bytes} (h : w.emit data = .ok w') : Grown w w' data := by
  unfold emit at h
  split_ifs at h with hdata
  · obtain rfl := Except.ok.inj h
    exact hdata ▸ .refl w
  · obtain ⟨sink, hsink, h⟩ := Failing.bind_eq_ok.1 h
    obtain rfl := Except.ok.inj h
    exact ⟨contents_writeAll hsink, rfl⟩

namespace OpenSegment

/-- The segment has been given the pieces `fed`, of which the writer `w` knew nothing, and has
put what the compressor returned into `w'`. -/
structure Fed (input : SegmentInput) (w : SegmentWriter) (fed : List Bytes) (s : OpenSegment Z)
    (w' : SegmentWriter) : Prop where
  grown : Grown w w' s.compHash
  table : s.table = input.table
  columns : s.columns = input.columns
  offset : s.offset = w.written
  raw : s.rawHash = fed.flatten
  rawSize : s.uncompressedSize = fed.flatten.length
  compSize : s.compressedSize = s.compHash.length
  rest : ∀ xs, Z.compressAll Z.compressobj (fed ++ xs) = s.compHash ++ Z.compressAll s.compressor xs

variable {input : SegmentInput} {w w' w'' : SegmentWriter} {fed : List Bytes} {s s' : OpenSegment Z}

theorem put_spec {data : Bytes} (h : s.put w data = .ok (s', w')) :
    s' = { s with
      compHash := s.compHash ++ data, compressedSize := s.compressedSize + data.length } ∧
      Grown w w' data := by
  unfold put at h
  split_ifs at h with hdata
  · obtain ⟨rfl, rfl⟩ := Prod.mk.inj (Except.ok.inj h)
    subst hdata
    exact ⟨by simp, .refl w⟩
  · obtain ⟨w₁, hw, h⟩ := Failing.bind_eq_ok.1 h
    obtain ⟨rfl, rfl⟩ := Prod.mk.inj (Except.ok.inj h)
    exact ⟨rfl, SegmentWriter.grown_emit hw⟩

theorem Fed.feed {chunk : Bytes} (hf : Fed input w fed s w')
    (h : s.feed w' chunk = .ok (s', w'')) :
    Fed input w (fed ++ if chunk = [] then [] else [chunk]) s' w'' := by
  unfold OpenSegment.feed at h
  split_ifs at h with hdone hchunk
  · obtain ⟨rfl, rfl⟩ := Prod.mk.inj (Except.ok.inj h)
    rwa [if_pos hchunk, List.append_nil]
  · obtain ⟨rfl, hgrown⟩ := put_spec h
    rw [if_neg hchunk]
    refine ⟨hf.grown.trans hgrown, hf.table, hf.columns, hf.offset, ?_, ?_, ?_, fun xs => ?_⟩
    · simp [hf.raw]
    · simp [hf.rawSize]
    · simp [hf.compSize]
    · rw [List.append_assoc, hf.rest]
      simp [StreamCodec.compressAll]

theorem Fed.feedAll {chunks : List Bytes} (hf : Fed input w fed s w')
    (h : chunks.foldlM (fun p chunk => p.1.feed p.2 chunk) (s, w') = .ok (s', w'')) :
    Fed input w (fed ++ chunks.filter (· ≠ [])) s' w'' := by
  induction chunks generalizing s w' fed with
  | nil =>
    obtain ⟨rfl, rfl⟩ := Prod.mk.inj (Except.ok.inj h)
    rwa [List.filter_nil, List.append_nil]
  | cons chunk chunks ih =>
    rw [List.foldlM_cons] at h
    obtain ⟨⟨s₁, w₁⟩, hfeed, h⟩ := Failing.bind_eq_ok.1 h
    have hrest := ih (hf.feed hfeed) h
    by_cases hchunk : chunk = []
    · rw [List.filter_cons_of_neg (by simpa using hchunk)]
      rwa [if_pos hchunk, List.append_nil] at hrest
    · rw [List.filter_cons_of_pos (by simpa using hchunk)]
      rwa [if_neg hchunk, List.append_assoc, List.singleton_append] at hrest

end OpenSegment

theorem fed_begin {s : OpenSegment Z} (h : beginSegment Z w input.table input.columns = .ok (s, w')) :
    OpenSegment.Fed input w [] s w' := by
  unfold beginSegment at h
  split_ifs at h
  split at h
  · cases h
  · obtain ⟨rfl, rfl⟩ := Prod.mk.inj (Except.ok.inj h)
    exact ⟨⟨by simp, by simp⟩, rfl, rfl, rfl, rfl, rfl, rfl, fun _ => rfl⟩

variable (Z sha256) in
/-- The metadata of a segment that was written from the input at the offset. -/
structure Describes (input : SegmentInput) (offset : ℕ) (s : CopySegment) : Prop where
  table : s.table = input.table
  columns : s.columns = input.columns
  offset : s.offset = offset
  compressedSize : s.compressedSize = (input.stream Z).length
  compressedSha256 : s.compressedSha256 = sha256 (input.stream Z)
  uncompressedSize : s.uncompressedSize = input.payload.length
  uncompressedSha256 : s.uncompressedSha256 = sha256 input.payload

theorem make_spec {table : Text} {columns : List Text} {offset compressedSize : ℕ}
    {compressedSha256 : Text} {uncompressedSize : ℕ} {uncompressedSha256 : Text} {rowCount : ℤ}
    (h : CopySegment.make table columns offset compressedSize compressedSha256 uncompressedSize uncompressedSha256 rowCount = .ok s) :
    s.table = table ∧ s.columns = columns ∧ s.offset = offset ∧
      s.compressedSize = compressedSize ∧ s.compressedSha256 = compressedSha256 ∧
      s.uncompressedSize = uncompressedSize ∧ s.uncompressedSha256 = uncompressedSha256 := by
  unfold CopySegment.make at h
  split at h
  · cases h
  · obtain rfl := Except.ok.inj h
    exact ⟨rfl, rfl, rfl, rfl, rfl, rfl, rfl⟩

theorem OpenSegment.Fed.stream_eq {s : OpenSegment Z} (h : Fed input w input.pieces s w') :
    input.stream Z = s.compHash ++ Z.finish s.compressor := by
  have hrest := h.rest []
  rwa [List.append_nil] at hrest

theorem OpenSegment.Fed.rawHash_eq {s : OpenSegment Z} (h : Fed input w input.pieces s w') :
    s.rawHash = input.payload :=
  h.raw.trans (flatten_pieces input)

theorem writeSegment_spec (h : writeSegment Z sha256 w input = .ok (s, w')) :
    Describes Z sha256 input w.written s ∧ Grown w w' (input.stream Z) := by
  obtain ⟨⟨s₀, w₀⟩, hbegin, h⟩ := Failing.bind_eq_ok.1 h
  obtain ⟨⟨s₁, w₁⟩, hfeed, h⟩ := Failing.bind_eq_ok.1 h
  have hfed : OpenSegment.Fed input w input.pieces s₁ w₁ := (fed_begin hbegin).feedAll hfeed
  unfold OpenSegment.finish at h
  dsimp only at h
  split_ifs at h
  obtain ⟨⟨s₂, w₂⟩, hput, h⟩ := Failing.bind_eq_ok.1 h
  obtain ⟨segment, hmake, h⟩ := Failing.bind_eq_ok.1 h
  obtain ⟨rfl, rfl⟩ := Prod.mk.inj (Except.ok.inj h)
  obtain ⟨rfl, hgrown⟩ := OpenSegment.put_spec hput
  obtain ⟨htable, hcolumns, hoffset, hcomp, hcompSha, hraw, hrawSha⟩ := make_spec hmake
  have hstream := hfed.stream_eq
  have hpayload := hfed.rawHash_eq
  refine ⟨⟨htable.trans hfed.table, hcolumns.trans hfed.columns, hoffset.trans hfed.offset, ?_,
    ?_, ?_, ?_⟩, ?_⟩
  · rw [hcomp, hstream, List.length_append, hfed.compSize]
  · rw [hcompSha, hstream]
  · rw [hraw, ← hpayload, hfed.rawSize, hfed.raw]
  · rw [hrawSha, ← hpayload]
  · rw [hstream]
    exact ⟨(hfed.grown.trans hgrown).contents, (hfed.grown.trans hgrown).written⟩

variable (Z sha256) in
/-- The bytes from the offset on are the streams of the inputs, as the segments say. -/
inductive Written : ℕ → List SegmentInput → List CopySegment → Bytes → Prop
  | nil (offset : ℕ) : Written offset [] [] []
  | cons {offset : ℕ} {input : SegmentInput} {inputs : List SegmentInput} {s : CopySegment}
      {segments : List CopySegment} {rest : Bytes} (h : Describes Z sha256 input offset s)
      (hrest : Written (offset + (input.stream Z).length) inputs segments rest) :
      Written offset (input :: inputs) (s :: segments) (input.stream Z ++ rest)

theorem written_of_writeSegments {inputs : List SegmentInput} {segments : List CopySegment}
    (h : writeSegments Z sha256 w inputs = .ok (segments, w')) :
    ∃ bytes, Grown w w' bytes ∧ Written Z sha256 w.written inputs segments bytes := by
  induction inputs generalizing w segments with
  | nil =>
    obtain ⟨rfl, rfl⟩ := Prod.mk.inj (Except.ok.inj h)
    exact ⟨[], .refl w, .nil _⟩
  | cons input inputs ih =>
    obtain ⟨⟨s, w₁⟩, hone, h⟩ := Failing.bind_eq_ok.1 h
    obtain ⟨⟨segments', w₂⟩, hmany, h⟩ := Failing.bind_eq_ok.1 h
    obtain ⟨rfl, rfl⟩ := Prod.mk.inj (Except.ok.inj h)
    obtain ⟨hdesc, hgrown⟩ := writeSegment_spec hone
    obtain ⟨rest, hgrown', hwritten⟩ := ih hmany
    rw [hgrown.written] at hwritten
    exact ⟨_, hgrown.trans hgrown', .cons hdesc hwritten⟩

/-! ## A sink that takes everything -/

theorem writeAll_nil (contents data : Bytes) :
    writeAll contents [] data = .ok ⟨contents ++ data, []⟩ := by
  cases data with
  | nil => rw [writeAll, List.append_nil]
  | cons b bs => rfl

namespace OpenSegment

variable {w : SegmentWriter} {s : OpenSegment Z}

theorem put_total {done : Bool} (hw : w.sink.answers = []) (hs : s.done = done) (data : Bytes) :
    ∃ s' w', s.put w data = .ok (s', w') ∧ w'.sink.answers = [] ∧ s'.done = done := by
  unfold put SegmentWriter.emit
  split_ifs with hdata
  · exact ⟨s, w, rfl, hw, hs⟩
  · rw [hw, writeAll_nil]
    exact ⟨_, _, rfl, rfl, hs⟩

theorem feed_total (hw : w.sink.answers = []) (hs : s.done = false) (data : Bytes) :
    ∃ s' w', s.feed w data = .ok (s', w') ∧ w'.sink.answers = [] ∧ s'.done = false := by
  unfold feed
  rw [hs, if_neg Bool.false_ne_true]
  split_ifs with hdata
  · exact ⟨s, w, rfl, hw, hs⟩
  · exact put_total hw rfl _

theorem feedAll_total (hw : w.sink.answers = []) (hs : s.done = false) (chunks : List Bytes) :
    ∃ s' w', chunks.foldlM (fun p chunk => p.1.feed p.2 chunk) (s, w) = .ok (s', w') ∧
      w'.sink.answers = [] ∧ s'.done = false := by
  induction chunks generalizing s w with
  | nil => exact ⟨s, w, rfl, hw, hs⟩
  | cons chunk chunks ih =>
    obtain ⟨s₁, w₁, hfeed, hw₁, hs₁⟩ := feed_total hw hs chunk
    obtain ⟨s₂, w₂, hrest, hw₂, hs₂⟩ := ih hw₁ hs₁
    refine ⟨s₂, w₂, ?_, hw₂, hs₂⟩
    rw [List.foldlM_cons, hfeed]
    exact hrest

end OpenSegment

theorem make_total {table : Text} {columns : List Text} {compressedSha256 uncompressedSha256 : Text}
    {rowCount : ℤ}
    (h : CopySegment.error table columns rowCount compressedSha256 uncompressedSha256 = none)
    (offset compressedSize uncompressedSize : ℕ) :
    ∃ s, CopySegment.make table columns offset compressedSize compressedSha256 uncompressedSize
      uncompressedSha256 rowCount = .ok s := by
  unfold CopySegment.make
  split
  · next e he =>
    rw [h] at he
    cases he
  · exact ⟨_, rfl⟩

/-- The writer refuses a segment only for its metadata. -/
theorem writeSegment_total (hw : w.sink.answers = []) (hclosed : w.closed = false)
    (hopen : w.isOpen = false)
    (h : CopySegment.error input.table input.columns input.rowCount (sha256 (input.stream Z)) (sha256 input.payload) = none) :
    ∃ s w', writeSegment Z sha256 w input = .ok (s, w') := by
  have htable : identifierError "segment table" input.table = none :=
    (Option.or_eq_none_iff.1 h).1
  have hbegin : ∃ s₀ w₀, beginSegment Z w input.table input.columns = .ok (s₀, w₀) ∧
      w₀.sink.answers = [] ∧ s₀.done = false := by
    unfold beginSegment
    rw [hclosed, hopen, htable]
    exact ⟨_, _, rfl, hw, rfl⟩
  obtain ⟨s₀, w₀, hbegin, hw₀, hs₀⟩ := hbegin
  obtain ⟨s₁, w₁, hfeed, hw₁, hs₁⟩ := OpenSegment.feedAll_total hw₀ hs₀ input.chunks
  have hfed : OpenSegment.Fed input w input.pieces s₁ w₁ := (fed_begin hbegin).feedAll hfeed
  have hdone : { s₁ with done := true }.done = true := rfl
  obtain ⟨s₂, w₂, hput, -, -⟩ := OpenSegment.put_total hw₁ hdone (Z.finish s₁.compressor)
  obtain ⟨rfl, -⟩ := OpenSegment.put_spec hput
  have herror := h
  rw [hfed.stream_eq, ← hfed.rawHash_eq, ← hfed.table, ← hfed.columns] at herror
  obtain ⟨s, hmake⟩ := make_total herror s₁.offset
    (s₁.compressedSize + (Z.finish s₁.compressor).length) s₁.uncompressedSize
  refine ⟨s, { w₂ with isOpen := false }, ?_⟩
  unfold writeSegment
  rw [hbegin, Failing.ok_bind]
  dsimp only
  rw [hfeed, Failing.ok_bind]
  dsimp only [OpenSegment.finish]
  rw [hs₁, if_neg Bool.false_ne_true, hput, Failing.ok_bind]
  dsimp only
  rw [hmake]
  rfl

/-! ## The reader -/

theorem checkRatio_eq_ok {maxRatio : ℕ} :
    checkRatio s maxRatio = .ok () ↔ s.uncompressedSize ≤ s.compressedSize * maxRatio := by
  unfold checkRatio
  split_ifs with hzero hraw hmore
  · simp only [hzero, Nat.zero_mul, false_iff]
    omega
  · simp only [hzero, Nat.zero_mul, true_iff]
    omega
  · simp only [false_iff]
    omega
  · simp only [true_iff]
    omega

namespace Reading

@[simp] theorem yields_decompressor (r : Reading Z) (plain : Bytes) :
    (r.yields plain).decompressor = r.decompressor := by
  unfold yields
  split_ifs <;> rfl

@[simp] theorem yields_produced (r : Reading Z) (plain : Bytes) :
    (r.yields plain).produced = r.produced := by
  unfold yields
  split_ifs <;> rfl

@[simp] theorem yields_compHash (r : Reading Z) (plain : Bytes) :
    (r.yields plain).compHash = r.compHash := by
  unfold yields
  split_ifs <;> rfl

@[simp] theorem yields_rawHash (r : Reading Z) (plain : Bytes) :
    (r.yields plain).rawHash = r.rawHash ++ plain := by
  unfold yields
  split_ifs with h
  · rw [h, List.append_nil]
  · rfl

@[simp] theorem flatten_yields (r : Reading Z) (plain : Bytes) :
    (r.yields plain).yielded.flatten = r.yielded.flatten ++ plain := by
  unfold yields
  split_ifs with h
  · rw [h, List.append_nil]
  · simp

variable {Inflates : Z.Decompressor → Bytes → Bytes → Prop}

variable (Inflates) in
/-- The reader has yielded a part of the payload. It has still to read `z` and to yield `x`. -/
structure Midway (payload z x : Bytes) (r : Reading Z) : Prop where
  inflates : Inflates r.decompressor z x
  payload : payload = r.rawHash ++ x
  produced : r.produced = r.rawHash.length
  yielded : r.yielded.flatten = r.rawHash

variable {payload z x : Bytes} {r : Reading Z} {s : CopySegment}

theorem Midway.inflate (hZ : Z.Lawful Inflates) {chunk : Bytes}
    (hr : Midway Inflates payload (chunk ++ z) x r) (hs : s.uncompressedSize = payload.length)
    (hchunk : chunk ≠ []) (fuel : ℕ) :
    ∃ r' x', CopyFormat.inflate s (fuel + 1) r chunk = .ok r' ∧
      Midway Inflates payload z x' r' ∧ r'.compHash = r.compHash := by
  have hlen : payload.length = r.produced + x.length := by
    rw [hr.payload, List.length_append, hr.produced]
  -- The budget is one byte more than what is to come, so that one call reads the chunk.
  have hbudget : x.length < s.uncompressedSize - r.produced + 1 := by omega
  obtain ⟨plain, x', d, hcall, rfl, htail, hi⟩ := hZ.whole hchunk hbudget hr.inflates
  rw [List.length_append] at hlen
  have hroom : ¬s.uncompressedSize < r.produced + plain.length := by omega
  have hone : CopyFormat.inflate s (fuel + 1) r chunk =
      .ok ({ r with decompressor := d, produced := r.produced + plain.length }.yields plain) := by
    rw [CopyFormat.inflate, hcall]
    dsimp only
    rw [if_neg hroom, if_pos htail]
  refine ⟨_, x', hone, ⟨?_, ?_, ?_, ?_⟩, ?_⟩
  · simpa using hi
  · simp [hr.payload]
  · simp [hr.produced]
  · simp [hr.yielded]
  · simp

theorem Midway.readChunks (hZ : Z.Lawful Inflates) (hs : s.uncompressedSize = payload.length)
    (fuel : ℕ) {rest : Bytes} {remaining : ℕ} (hrest : remaining ≤ rest.length)
    (hr : Midway Inflates payload (rest.take remaining) x r) :
    ∃ r' x', CopyFormat.readChunks s (fuel + 1) rest remaining r = .ok r' ∧
      Midway Inflates payload [] x' r' ∧ r'.compHash = r.compHash ++ rest.take remaining := by
  induction remaining using Nat.strong_induction_on generalizing rest r x with
  | _ remaining ih =>
    unfold CopyFormat.readChunks
    by_cases hzero : remaining = 0
    · subst hzero
      rw [List.take_zero] at hr
      exact ⟨r, x, rfl, hr, by simp⟩
    · rw [dif_neg hzero]
      have hpos : 0 < chunkSize := by decide
      generalize hwant : min chunkSize remaining = want
      have hle : want ≤ remaining := by omega
      have hchunk : (rest.take want).length = want := by
        rw [List.length_take]
        omega
      have hne : rest.take want ≠ [] := by
        rw [← List.length_pos_iff]
        omega
      -- What is to be read is the chunk and the rest of the segment.
      have hsplit : rest.take remaining =
          rest.take want ++ (rest.drop want).take (remaining - want) := by
        rw [← List.take_add, Nat.add_sub_cancel' hle]
      rw [hsplit] at hr ⊢
      have hread : Midway Inflates payload
          (rest.take want ++ (rest.drop want).take (remaining - want)) x
          { r with compHash := r.compHash ++ rest.take want } := ⟨hr.1, hr.2, hr.3, hr.4⟩
      obtain ⟨r₁, x₁, hinflate, hmid, hcomp⟩ := hread.inflate hZ hs hne fuel
      have hdrop : remaining - want ≤ (rest.drop want).length := by
        rw [List.length_drop]
        omega
      obtain ⟨r₂, x₂, hrun, hend, hcomp'⟩ := ih (remaining - want) (by omega) hdrop hmid
      refine ⟨r₂, x₂, ?_, hend, ?_⟩
      · dsimp only
        rw [hchunk, if_neg (not_not_intro rfl), hinflate]
        exact hrun
      · rw [hcomp', hcomp, List.append_assoc]

end Reading

theorem iterUncompressed_eq {Inflates : Z.Decompressor → Bytes → Bytes → Prop}
    (hZ : Z.Lawful Inflates) {pre post : Bytes} {reader : SegmentReader}
    (hfile : reader.file = pre ++ (input.stream Z ++ post))
    (hsize : reader.totalSize = reader.file.length) (hs : Describes Z sha256 input pre.length s)
    (hratio : s.uncompressedSize ≤ s.compressedSize * reader.maxRatio) (fuel : ℕ) :
    ∃ parts, reader.iterUncompressed Z sha256 (fuel + 1) s = .ok parts ∧
      parts.flatten = input.payload := by
  have hend : ¬reader.totalSize < s.endOffset := by
    rw [hsize, hfile, CopySegment.endOffset, hs.offset, hs.compressedSize, List.length_append,
      List.length_append]
    omega
  have hrest : reader.file.drop s.offset = input.stream Z ++ post := by
    rw [hfile, hs.offset, List.drop_left]
  have hstream : (reader.file.drop s.offset).take s.compressedSize = input.stream Z := by
    rw [hrest, hs.compressedSize, List.take_left]
  have hlen : s.compressedSize ≤ (reader.file.drop s.offset).length := by
    rw [hrest, hs.compressedSize, List.length_append]
    omega
  have hpieces : ∀ x ∈ input.pieces, x ≠ [] := fun x hx => by
    simpa using (List.mem_filter.1 hx).2
  have hstart : Reading.Midway Inflates input.payload
      ((reader.file.drop s.offset).take s.compressedSize) input.payload
      ({ decompressor := Z.decompressobj } : Reading Z) := by
    rw [hstream]
    refine ⟨?_, rfl, rfl, rfl⟩
    rw [← flatten_pieces]
    exact hZ.start _ hpieces
  obtain ⟨r, x, hread, hmid, hcomp⟩ :=
    hstart.readChunks hZ hs.uncompressedSize fuel hlen
  obtain ⟨d, hflush, heof, hunused⟩ := hZ.finish _ _ hmid.inflates
  have hcount : r.produced + x.length = s.uncompressedSize := by
    rw [hs.uncompressedSize, hmid.payload, List.length_append, hmid.produced]
  refine ⟨(r.yields x).yielded, ?_, ?_⟩
  · unfold SegmentReader.iterUncompressed
    rw [if_neg hend, checkRatio_eq_ok.2 hratio, Failing.ok_bind, hread, Failing.ok_bind, hflush]
    dsimp only
    rw [if_neg (not_not_intro hcount), heof, hunused, hcomp, hstream, List.nil_append,
      hs.compressedSha256, Reading.yields_rawHash, ← hmid.payload, hs.uncompressedSha256]
    simp
  · rw [Reading.flatten_yields, hmid.yielded, hmid.payload]

theorem iterUncompressed_refuses {reader : SegmentReader}
    (h : s.compressedSize * reader.maxRatio < s.uncompressedSize) (fuel : ℕ) :
    ∃ e, reader.iterUncompressed Z sha256 fuel s = .error e := by
  unfold SegmentReader.iterUncompressed
  split_ifs
  · exact ⟨_, rfl⟩
  · cases hcheck : checkRatio s reader.maxRatio with
    | error e => exact ⟨e, rfl⟩
    | ok u => exact absurd (checkRatio_eq_ok.1 hcheck) (not_le.2 h)

/-! ## The round trip -/

/-- The segments lie one after the other from the first offset to the second. -/
def Tiles : ℕ → List CopySegment → ℕ → Prop
  | first, [], last => first = last
  | first, s :: rest, last => s.offset = first ∧ Tiles s.endOffset rest last

namespace Written

variable {inputs : List SegmentInput} {segments : List CopySegment} {bytes : Bytes} {offset : ℕ}

theorem tiles (h : Written Z sha256 offset inputs segments bytes) :
    Tiles offset segments (offset + bytes.length) := by
  induction h with
  | nil offset => exact rfl
  | cons h _ ih =>
    refine ⟨h.offset, ?_⟩
    rw [CopySegment.endOffset, h.offset, h.compressedSize, List.length_append, ← Nat.add_assoc]
    exact ih

/-- Each segment describes its input, whose stream lies at the offset of the segment. -/
theorem describes {file pre : Bytes} (h : Written Z sha256 offset inputs segments bytes)
    (hpre : pre.length = offset) (hfile : file = pre ++ bytes) :
    List.Forall₂ (fun input s => ∃ pre post, file = pre ++ (input.stream Z ++ post) ∧
      Describes Z sha256 input pre.length s) inputs segments := by
  induction h generalizing pre with
  | nil offset => exact .nil
  | cons h hrest ih =>
    subst hpre
    refine .cons ⟨pre, _, hfile, h⟩ (ih List.length_append ?_)
    rw [hfile, List.append_assoc]

end Written

/-- The reader of a whole file. -/
def readerOf (file : Bytes) : SegmentReader := { file, totalSize := file.length }

/-- The segments tile the file, each for the table and the columns of its input. If it is within the
ratio, the reader yields what the input wrote, and otherwise it refuses the segment. -/
theorem copy_round_trip {Inflates : Z.Decompressor → Bytes → Bytes → Prop} (hZ : Z.Lawful Inflates)
    {answers : List (Option ℕ)} {inputs : List SegmentInput} {segments : List CopySegment}
    (h : writeSegments Z sha256 { sink := ⟨[], answers⟩ } inputs = .ok (segments, w)) :
    Tiles 0 segments w.sink.contents.length ∧
      List.Forall₂ (fun input s => s.table = input.table ∧ s.columns = input.columns ∧
        (input.chunks.flatten.length ≤ s.compressedSize * defaultMaxRatio → ∀ fuel,
          ∃ parts, (readerOf w.sink.contents).iterUncompressed Z sha256 (fuel + 1) s = .ok parts ∧
            parts.flatten = input.chunks.flatten) ∧
        (s.compressedSize * defaultMaxRatio < input.chunks.flatten.length → ∀ fuel,
          ∃ e, (readerOf w.sink.contents).iterUncompressed Z sha256 fuel s = .error e))
        inputs segments := by
  obtain ⟨bytes, hgrown, hwritten⟩ := written_of_writeSegments h
  have hcontents : w.sink.contents = bytes := hgrown.contents
  refine ⟨?_, ?_⟩
  · rw [hcontents, ← Nat.zero_add bytes.length]
    exact hwritten.tiles
  · rw [hcontents]
    have hdescribes := hwritten.describes (List.length_nil : ([] : Bytes).length = 0) rfl
    refine hdescribes.imp ?_
    rintro input s ⟨pre, post, hfile, hs⟩
    refine ⟨hs.table, hs.columns, fun hratio fuel => ?_, fun hratio fuel => ?_⟩
    · rw [← SegmentInput.payload, ← hs.uncompressedSize] at hratio
      exact iterUncompressed_eq hZ hfile rfl hs hratio fuel
    · rw [← SegmentInput.payload, ← hs.uncompressedSize] at hratio
      exact iterUncompressed_refuses hratio fuel

/-! ## A codec that holds its data back -/

/-- A row of two columns. -/
def shortRow : Bytes := [49, 9, 65, 10]

/-- A row of 8000 letters, with the end of its line. -/
def longRow : Bytes := List.replicate 8000 97 ++ [10]

def streamHeader : Bytes := [0x78, 0x9c]

/-- What follows the header, as zlib writes it for no data and for the two rows. -/
def deflated (x : Bytes) : Bytes :=
  if x = [] then [0x03, 0x00, 0x00, 0x00, 0x00, 0x01]
  else if x = shortRow then [0x33, 0xe4, 0x74, 0xe4, 0x02, 0x00, 0x01, 0x6f, 0x00, 0x86]
  else if x = longRow then
    [0xed, 0xc1, 0x31, 0x01, 0x00, 0x00, 0x00, 0xc2, 0xa0, 0xdf, 0x96, 0xeb, 0x5f, 0xc2, 0x22,
      0x40, 0x01, 0x00, 0x00, 0x00, 0x00, 0x00, 0x00, 0x00, 0x3b, 0x03, 0x0b, 0xd7, 0xf0]
  else 0x00 :: x

def inflated : Bytes → Option Bytes
  | 0x78 :: 0x9c :: 0x03 :: _ => some []
  | 0x78 :: 0x9c :: 0x33 :: _ => some shortRow
  | 0x78 :: 0x9c :: 0xed :: _ => some longRow
  | 0x78 :: 0x9c :: 0x00 :: x => some x
  | _ => none

theorem inflated_deflated (x : Bytes) : inflated (streamHeader ++ deflated x) = some x := by
  unfold deflated
  split_ifs with hnil hshort hlong
  · rw [hnil]
    rfl
  · rw [hshort]
    rfl
  · rw [hlong]
    rfl
  · rfl

/-- The header comes with the first data and the rest at the end. -/
def heldBack : StreamCodec UInt8 where
  Compressor := Bytes
  compressobj := []
  compress c x := (if c = [] then streamHeader else [], c ++ x)
  finish c := (if c = [] then streamHeader else []) ++ deflated c
  Decompressor := Bytes
  decompressobj := []
  decompress d data _ := some ([], d ++ data)
  unconsumedTail _ := []
  flush d := (inflated d).map fun x => (x, d)
  eof _ := true
  unusedData _ := []

theorem compressAll_heldBack {c : Bytes} {xs : List Bytes} (hxs : ∀ x ∈ xs, x ≠ []) :
    heldBack.compressAll c xs =
      (if c = [] then streamHeader else []) ++ deflated (c ++ xs.flatten) := by
  induction xs generalizing c with
  | nil =>
    rw [List.flatten_nil, List.append_nil]
    rfl
  | cons x xs ih =>
    have hne : c ++ x ≠ [] := fun h => hxs x List.mem_cons_self (List.append_eq_nil_iff.1 h).2
    have hrest := ih (c := c ++ x) fun y hy => hxs y (List.mem_cons_of_mem _ hy)
    rw [if_neg hne, List.nil_append, List.append_assoc, ← List.flatten_cons] at hrest
    exact congrArg ((if c = [] then streamHeader else []) ++ ·) hrest

theorem stream_heldBack {xs : List Bytes} (hxs : ∀ x ∈ xs, x ≠ []) :
    heldBack.compressAll heldBack.compressobj xs = streamHeader ++ deflated xs.flatten :=
  (compressAll_heldBack hxs).trans (congrArg (· ++ deflated xs.flatten) (if_pos rfl))

/-- What was read and what is to be read inflate to `x`. -/
def InflatesTo (d z x : Bytes) : Prop := inflated (d ++ z) = some x

theorem lawful_heldBack : heldBack.Lawful InflatesTo where
  start xs hxs := by
    rw [stream_heldBack hxs]
    exact inflated_deflated xs.flatten
  step d data z x _ _ _ h :=
    ⟨[], x, List.append d data, rfl, rfl, Nat.zero_le _, fun hne => absurd rfl hne,
      (congrArg inflated (List.append_assoc d data z)).trans h⟩
  finish d x h := by
    have hd : inflated d = some x := (congrArg inflated (List.append_nil d)).symm.trans h
    exact ⟨d, congrArg (Option.map fun x => (x, d)) hd, rfl, rfl⟩

/-- SHA-256, at no data, at the two rows and at their streams. -/
def digest (x : Bytes) : Text :=
  if x = [] then "e3b0c44298fc1c149afbf4c8996fb92427ae41e4649b934ca495991b7852b855"
  else if x = streamHeader ++ deflated [] then
    "aca503def43dc086a5aaa5c3d6f86bcbbc2aa6a80007ddea4a81bce2b376fceb"
  else if x = shortRow then "542e4a48b67cd95d981957e8807571c8b301695dbfa110d5e64f84ab12fc2df0"
  else if x = streamHeader ++ deflated shortRow then
    "9aa5236017c1133bf167f0c571d31825434d58587708d3428b092937c5e5f0ed"
  else if x = longRow then "86c4b5364b668bec526682f02d6ba06b8ab1903613454c6c949b63f5552693bf"
  else "2b224a96f6f284cf2ff13e650c6969796a76f5c7f42730447401d7d5d1f22e2d"

/-- A table without rows, and one with a row that comes in two chunks, between which is an empty
one. -/
def twoInputs : List SegmentInput :=
  [⟨"posts", ["id"], [], 0⟩, ⟨"users", ["id", "name"], [[49, 9], [], [65, 10]], 1⟩]

theorem twoInputs_written : ∃ s₁ s₂ w,
    writeSegments heldBack digest { sink := ⟨[], [some 3, none]⟩ } twoInputs = .ok ([s₁, s₂], w) ∧
      s₂.compressedSize = 12 := by
  have hsizes : (writeSegments heldBack digest { sink := ⟨[], [some 3, none]⟩ }
      twoInputs).toOption.map (fun p => p.1.map CopySegment.compressedSize) = some [8, 12] := by
    decide +kernel
  obtain ⟨⟨segments, w⟩, h, heq⟩ := Option.map_eq_some_iff.1 hsizes
  obtain ⟨s₁, _, rfl, -, hrest⟩ := List.map_eq_cons_iff.1 heq
  obtain ⟨s₂, _, rfl, hsize, hnil⟩ := List.map_eq_cons_iff.1 hrest
  obtain rfl := List.map_eq_nil_iff.1 hnil
  cases hwritten : writeSegments heldBack digest { sink := ⟨[], [some 3, none]⟩ } twoInputs with
  | error e =>
    rw [hwritten] at h
    cases h
  | ok p =>
    rw [hwritten] at h
    obtain rfl := Option.some.inj h
    exact ⟨s₁, s₂, w, rfl, hsize⟩

theorem twoInputs_read_back : ∃ s₁ s₂ w,
    writeSegments heldBack digest { sink := ⟨[], [some 3, none]⟩ } twoInputs =
      .ok ([s₁, s₂], w) ∧
    Tiles 0 [s₁, s₂] w.sink.contents.length ∧
    ∃ parts, (readerOf w.sink.contents).iterUncompressed heldBack digest 1 s₂ = .ok parts ∧
      parts.flatten = shortRow := by
  obtain ⟨s₁, s₂, w, h, hsize⟩ := twoInputs_written
  obtain ⟨htiles, hall⟩ := copy_round_trip lawful_heldBack h
  cases hall with
  | cons _ hrest =>
    cases hrest with
    | cons hsecond _ =>
      exact ⟨s₁, s₂, w, h, htiles, hsecond.2.2.1 (by rw [hsize]; decide) 0⟩

theorem longRow_ne_nil : longRow ≠ [] := List.append_ne_nil_of_right_ne_nil _ (List.cons_ne_nil _ _)

theorem length_deflated_longRow : (deflated longRow).length = 29 := by
  have hshort : longRow ≠ shortRow := fun h => absurd (congrArg List.length h) (by decide +kernel)
  rw [deflated, if_neg longRow_ne_nil, if_neg hshort, if_pos rfl]
  rfl

theorem isSha256_digest (x : Bytes) : isSha256 (digest x) = true := by
  unfold digest
  split_ifs <;> decide +kernel

/-- A table with one row. -/
def longTable : SegmentInput := ⟨"posts", ["body"], [longRow], 1⟩

theorem pieces_longTable : longTable.pieces = [longRow] :=
  List.filter_cons_of_pos (by simpa using longRow_ne_nil)

theorem payload_longTable : longTable.payload.length = 8001 := by
  rw [SegmentInput.payload, show longTable.chunks = [longRow] from rfl, List.flatten_singleton,
    longRow, List.length_append, List.length_replicate]
  rfl

theorem stream_longTable : (longTable.stream heldBack).length = 31 := by
  have hpieces : ∀ x ∈ [longRow], x ≠ [] := fun x hx => by
    rw [List.mem_singleton.1 hx]
    exact longRow_ne_nil
  rw [SegmentInput.stream, pieces_longTable, stream_heldBack hpieces, List.flatten_singleton,
    List.length_append, length_deflated_longRow]
  rfl

/-- zlib writes less than the 200th part of a row of one letter. -/
theorem longTable_written : ∃ s w,
    writeSegments heldBack digest { sink := ⟨[], []⟩ } [longTable] = .ok ([s], w) ∧
    s.compressedSize * defaultMaxRatio < s.uncompressedSize := by
  have hsha : ∀ label x, sha256Error label (digest x) = none := fun label x =>
    if_pos (isSha256_digest x)
  have herror : CopySegment.error longTable.table longTable.columns longTable.rowCount
      (digest (longTable.stream heldBack)) (digest longTable.payload) = none := by
    unfold CopySegment.error
    rw [hsha, hsha]
    decide
  have hone : ∃ s w, writeSegment heldBack digest { sink := ⟨[], []⟩ } longTable = .ok (s, w) :=
    writeSegment_total rfl rfl rfl herror
  obtain ⟨s, w, hone⟩ := hone
  obtain ⟨hs, -⟩ := writeSegment_spec hone
  refine ⟨s, w, ?_, ?_⟩
  · rw [writeSegments, hone]
    rfl
  · rw [hs.compressedSize, hs.uncompressedSize, stream_longTable, payload_longTable]
    decide

theorem longRow_refused : heldBack.Lawful InflatesTo ∧ ∃ s w,
    writeSegments heldBack digest { sink := ⟨[], []⟩ } [longTable] = .ok ([s], w) ∧
    ∀ fuel, ∃ e, (readerOf w.sink.contents).iterUncompressed heldBack digest fuel s =
      .error e := by
  obtain ⟨s, w, hwritten, hratio⟩ := longTable_written
  exact ⟨lawful_heldBack, s, w, hwritten, iterUncompressed_refuses hratio⟩

end CopyFormat

end PPBase
