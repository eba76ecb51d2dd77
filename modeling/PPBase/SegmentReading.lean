import PPBase.DatabaseSchema

/-!
# The bytes of a segment

`validate_segment_layout` accepts exactly the lists of segments that tile the file in order
(`TilesFile`) within the ratio and the budget (`layout_accepted_iff`).

`watchSegment` is `iter_uncompressed` as its caller sees it : what it has yielded when it ends or
raises, and the calls of the decompressor with their budgets. Of zlib it is only assumed that a
call keeps to its budget, and leaves input over only when it has used it up (`StreamCodec.Bounded`).
Then one call reads each chunk, so that the loops end, and a reading that ends without an error has
yielded what was recorded (`watchSegment_guarded`).
-/

namespace PPBase

/-- A bounded call keeps to its bound. Input is left only when the output is full. -/
structure StreamCodec.Bounded {β : Type*} (Z : StreamCodec β) : Prop where
  length_le : ∀ {d d' : Z.Decompressor} {data out : List β} {max : ℕ}, 0 < max →
    Z.decompress d data max = some (out, d') → out.length ≤ max
  full : ∀ {d d' : Z.Decompressor} {data out : List β} {max : ℕ}, 0 < max →
    Z.decompress d data max = some (out, d') → Z.unconsumedTail d' ≠ [] → out.length = max

namespace CopyFormat

/-! ## The layout -/

/-- A byte of the file lies in the segment. -/
def CopySegment.Holds (s : CopySegment) (b : ℕ) : Prop := s.offset ≤ b ∧ b < s.endOffset

/-- The segments lie in the file in order, and each byte of the file lies in exactly one. -/
structure TilesFile (segments : List CopySegment) (size : ℕ) : Prop where
  inOrder : segments.Pairwise fun s t => s.endOffset ≤ t.offset
  inside : ∀ s ∈ segments, s.endOffset ≤ size
  covered : ∀ b < size, ∃! i : Fin segments.length, segments[i].Holds b

/-- Between two places : the segments lie there in order, and cover them. -/
theorem tiles_iff {segments : List CopySegment} {first last : ℕ} (hle : first ≤ last) :
    Tiles first segments last ↔
      (segments.Pairwise fun s t => s.endOffset ≤ t.offset) ∧
      (∀ s ∈ segments, first ≤ s.offset ∧ s.endOffset ≤ last) ∧
      ∀ b, first ≤ b → b < last → ∃ s ∈ segments, s.Holds b := by
  induction segments generalizing first with
  | nil =>
    constructor
    · rintro rfl
      exact ⟨.nil, nofun, fun b hb hlt => by omega⟩
    · rintro ⟨-, -, hcover⟩
      by_contra hne
      obtain ⟨s, hs, -⟩ := hcover first le_rfl (lt_of_le_of_ne hle hne)
      exact absurd hs List.not_mem_nil
  | cons s rest ih =>
    rw [List.pairwise_cons, List.forall_mem_cons]
    constructor
    · rintro ⟨rfl, hrest⟩
      have hlast := le_of_tiles hrest
      obtain ⟨horder, hinside, hcover⟩ := (ih hlast).1 hrest
      have hfirst : s.offset ≤ s.endOffset := Nat.le_add_right _ _
      refine ⟨⟨fun t ht => (hinside t ht).1, horder⟩, ⟨⟨le_rfl, hlast⟩, fun t ht => ?_⟩,
        fun b hb hlt => ?_⟩
      · exact ⟨hfirst.trans (hinside t ht).1, (hinside t ht).2⟩
      · by_cases hbs : b < s.endOffset
        · exact ⟨s, List.mem_cons_self, hb, hbs⟩
        · obtain ⟨t, ht, hholds⟩ := hcover b (not_lt.1 hbs) hlt
          exact ⟨t, List.mem_cons_of_mem _ ht, hholds⟩
    · rintro ⟨⟨hnext, horder⟩, ⟨hs, hinside⟩, hcover⟩
      have hlen : s.endOffset = s.offset + s.compressedSize := rfl
      -- A gap before the first segment would stay uncovered.
      have hoffset : s.offset = first := by
        by_contra hne
        obtain ⟨t, ht, hholds⟩ := hcover first le_rfl (by omega)
        rcases List.mem_cons.1 ht with rfl | ht
        · have := hholds.1
          omega
        · have hbetween := hnext t ht
          have := hholds.1
          omega
      refine ⟨hoffset, (ih hs.2).2 ⟨horder, fun t ht => ⟨hnext t ht, (hinside t ht).2⟩,
        fun b hb hlt => ?_⟩⟩
      obtain ⟨t, ht, hholds⟩ := hcover b (by omega) hlt
      rcases List.mem_cons.1 ht with rfl | ht
      · exact absurd hholds.2 (not_lt.2 hb)
      · exact ⟨t, ht, hholds⟩

theorem tilesFile_iff {segments : List CopySegment} {size : ℕ} :
    TilesFile segments size ↔ Tiles 0 segments size := by
  rw [tiles_iff (Nat.zero_le size)]
  constructor
  · intro h
    refine ⟨h.inOrder, fun s hs => ⟨Nat.zero_le _, h.inside s hs⟩, fun b _ hb => ?_⟩
    obtain ⟨i, hi, -⟩ := h.covered b hb
    exact ⟨_, List.getElem_mem i.isLt, hi⟩
  · rintro ⟨horder, hinside, hcover⟩
    refine ⟨horder, fun s hs => (hinside s hs).2, fun b hb => ?_⟩
    obtain ⟨s, hs, hholds⟩ := hcover b (Nat.zero_le b) hb
    obtain ⟨i, hi, rfl⟩ := List.getElem_of_mem hs
    refine ⟨⟨i, hi⟩, hholds, fun j hj => ?_⟩
    have hpair := List.pairwise_iff_getElem.1 horder
    rcases lt_trichotomy j.val i with hlt | heq | hgt
    · have hend := hpair j.val i j.isLt hi hlt
      have hbelow : b < segments[j.val].endOffset := hj.2
      have habove := hholds.1
      omega
    · exact Fin.ext heq
    · have hend := hpair i j.val hi j.isLt hgt
      have habove : segments[j.val].offset ≤ b := hj.1
      have hbelow := hholds.2
      omega

/-- `validate_segment_layout` accepts what tiles the file within the ratio and the budget. -/
theorem layout_accepted_iff (segments out : List CopySegment) (totalSize maxTotal maxRatio : ℕ) :
    validateSegmentLayout segments totalSize maxTotal maxRatio = .ok out ↔
      out = segments ∧ TilesFile segments totalSize ∧
      (∀ s ∈ segments, s.uncompressedSize ≤ s.compressedSize * maxRatio) ∧
      (segments.map CopySegment.uncompressedSize).sum ≤ maxTotal := by
  rw [validateSegmentLayout_eq_ok, tilesFile_iff]

/-! ## The reader, call by call -/

section

variable (Z : StreamCodec UInt8) (sha256 : Bytes → Text)

/-- How a reading stops before its end. -/
inductive Stop
  | raised (e : Text)
  | outOfFuel

/-- A reading, with its calls of the decompressor : their input and their budget. -/
structure Watched where
  reading : Reading Z
  calls : List (Bytes × ℤ) := []

variable {Z}

/-- The loop over the input that is pending. -/
def watchInflate (s : CopySegment) : ℕ → Watched Z → Bytes → Watched Z × Except Stop Unit
  | 0, w, _ => (w, .error .outOfFuel)
  | fuel + 1, w, pending =>
    let budget : ℤ := s.uncompressedSize - w.reading.produced + 1
    let w := { w with calls := w.calls ++ [(pending, budget)] }
    match Z.decompress w.reading.decompressor pending budget.toNat with
    | none => (w, .error (.raised "segment is not valid zlib data"))
    | some (plain, d) =>
      let r := { w.reading with
        decompressor := d, produced := w.reading.produced + plain.length }
      if s.uncompressedSize < r.produced then
        ({ w with reading := r }, .error (.raised "segment inflates past its recorded size"))
      else
        let w := { w with reading := r.yields plain }
        if Z.unconsumedTail d = [] then (w, .ok ()) else watchInflate s fuel w (Z.unconsumedTail d)

/-- The loop over the compressed chunks. -/
def watchChunks (s : CopySegment) (fuel : ℕ) (rest : Bytes) (remaining : ℕ) (w : Watched Z) :
    Watched Z × Except Stop Unit :=
  if _h : remaining = 0 then (w, .ok ())
  else
    let want := min chunkSize remaining
    let chunk := rest.take want
    if chunk.length ≠ want then (w, .error (.raised "data.copy ended inside a segment"))
    else
      match watchInflate s fuel
        { w with reading := { w.reading with compHash := w.reading.compHash ++ chunk } } chunk with
      | (w, .ok ()) => watchChunks s fuel (rest.drop want) (remaining - want) w
      | (w, .error e) => (w, .error e)
termination_by remaining
decreasing_by
  have : 0 < chunkSize := by decide
  omega

/-- The end of `iter_uncompressed`, once the compressed bytes are read. -/
def watchEnd (s : CopySegment) (w : Watched Z) : Watched Z × Except Stop Unit :=
  match Z.flush w.reading.decompressor with
  | none => (w, .error (.raised "segment is not valid zlib data"))
  | some (tail, d) =>
    let r := { w.reading with decompressor := d, produced := w.reading.produced + tail.length }
    if r.produced ≠ s.uncompressedSize then
      ({ w with reading := r }, .error (.raised "segment decompressed size mismatch"))
    else
      let w := { w with reading := r.yields tail }
      if !Z.eof d then (w, .error (.raised "segment has trailing compressed bytes"))
      else if Z.unusedData d ≠ [] then
        (w, .error (.raised "segment has unused bytes after the zlib stream"))
      else if sha256 w.reading.compHash ≠ s.compressedSha256 then
        (w, .error (.raised "segment compressed hash mismatch"))
      else if sha256 w.reading.rawHash ≠ s.uncompressedSha256 then
        (w, .error (.raised "segment decompressed hash mismatch"))
      else (w, .ok ())

variable (Z)

/-- `iter_uncompressed`, with what it has yielded when it ends or raises. -/
def SegmentReader.watchSegment (reader : SegmentReader) (fuel : ℕ) (s : CopySegment) :
    Watched Z × Except Stop Unit :=
  let start : Watched Z := { reading := { decompressor := Z.decompressobj } }
  if reader.totalSize < s.endOffset then
    (start, .error (.raised "segment runs past the pinned data.copy size"))
  else
    match checkRatio s reader.maxRatio with
    | .error e => (start, .error (.raised e))
    | .ok () =>
      match watchChunks s fuel (reader.file.drop s.offset) s.compressedSize start with
      | (w, .ok ()) => watchEnd sha256 s w
      | (w, .error e) => (w, .error e)

end

/-! ## What is yielded -/

section

variable {Z : StreamCodec UInt8} {sha256 : Bytes → Text} {s : CopySegment} {w w' : Watched Z}

/-- What holds of a reading between two calls. -/
structure Guarded (s : CopySegment) (w : Watched Z) : Prop where
  produced_le : w.reading.produced ≤ s.uncompressedSize
  produced_eq : w.reading.produced = w.reading.rawHash.length
  yielded : w.reading.yielded.flatten = w.reading.rawHash
  fed : (w.calls.map Prod.fst).flatten = w.reading.compHash
  budget : ∀ call ∈ w.calls, 0 < call.2

/-- What holds of a reading when it stops. -/
structure Bounded (s : CopySegment) (w : Watched Z) : Prop where
  yielded : w.reading.yielded.flatten.length ≤ s.uncompressedSize
  budget : ∀ call ∈ w.calls, 0 < call.2

theorem Guarded.bounded (h : Guarded s w) : Bounded s w where
  yielded := by
    rw [h.yielded, ← h.produced_eq]
    exact h.produced_le
  budget := h.budget

/-- A reading with one more chunk read and hashed. -/
def Watched.hashes (w : Watched Z) (chunk : Bytes) : Watched Z :=
  { w with reading := { w.reading with compHash := w.reading.compHash ++ chunk } }

/-- One call reads a chunk, or the reading stops. -/
theorem Guarded.inflate (hZ : Z.Bounded) (h : Guarded s w) (fuel : ℕ) (chunk : Bytes) :
    (∃ w', watchInflate s (fuel + 1) (w.hashes chunk) chunk = (w', .ok ()) ∧ Guarded s w' ∧
      w'.reading.compHash = w.reading.compHash ++ chunk) ∨
    ∃ w' e, watchInflate s (fuel + 1) (w.hashes chunk) chunk = (w', .error (.raised e)) ∧
      Bounded s w' := by
  have hle := h.produced_le
  -- The budget is one byte more than what may still come.
  have hpos : (0 : ℤ) < (s.uncompressedSize : ℤ) - w.reading.produced + 1 := by omega
  have hnat : ((s.uncompressedSize : ℤ) - w.reading.produced + 1).toNat =
      s.uncompressedSize - w.reading.produced + 1 := by omega
  have hcalls : ∀ call ∈ w.calls ++ [(chunk, (s.uncompressedSize : ℤ) - w.reading.produced + 1)],
      0 < call.2 := by
    rintro call hcall
    rcases List.mem_append.1 hcall with hcall | hcall
    · exact h.budget call hcall
    · rw [List.mem_singleton.1 hcall]
      exact hpos
  have hsum : w.reading.yielded.flatten.length ≤ s.uncompressedSize := h.bounded.yielded
  rw [watchInflate]
  simp only [Watched.hashes, hnat]
  cases hcall : Z.decompress w.reading.decompressor chunk
      (s.uncompressedSize - w.reading.produced + 1) with
  | none => exact Or.inr ⟨_, _, rfl, hsum, hcalls⟩
  | some p =>
    obtain ⟨plain, d⟩ := p
    dsimp only
    by_cases hover : s.uncompressedSize < w.reading.produced + plain.length
    · simp only [hover, if_true]
      exact Or.inr ⟨_, _, rfl, hsum, hcalls⟩
    · simp only [hover, if_false]
      -- Input is left only when the budget is used up, and then the output is too long.
      have htail : Z.unconsumedTail d = [] := by
        by_contra htail
        have hfull := hZ.full (Nat.succ_pos _) hcall htail
        omega
      simp only [htail, if_true]
      refine Or.inl ⟨_, rfl, ⟨?_, ?_, ?_, ?_, hcalls⟩, ?_⟩
      · simpa using hover
      · simp [h.produced_eq]
      · simp [h.yielded]
      · simp [h.fed]
      · simp

theorem Guarded.chunks (hZ : Z.Bounded) (h : Guarded s w) (fuel : ℕ) (rest : Bytes)
    (remaining : ℕ) :
    (∃ w', watchChunks s (fuel + 1) rest remaining w = (w', .ok ()) ∧ Guarded s w' ∧
      w'.reading.compHash = w.reading.compHash ++ rest.take remaining ∧
        remaining ≤ rest.length) ∨
    ∃ w' e, watchChunks s (fuel + 1) rest remaining w = (w', .error (.raised e)) ∧
      Bounded s w' := by
  induction remaining using Nat.strong_induction_on generalizing rest w with
  | _ remaining ih =>
    rw [watchChunks]
    by_cases hzero : remaining = 0
    · subst hzero
      rw [dif_pos rfl]
      exact Or.inl ⟨w, rfl, h, by simp, Nat.zero_le _⟩
    · rw [dif_neg hzero]
      have hpos : 0 < chunkSize := by decide
      generalize hwant : min chunkSize remaining = want
      dsimp only
      by_cases hlen : (rest.take want).length ≠ want
      · rw [if_pos hlen]
        exact Or.inr ⟨_, _, rfl, h.bounded⟩
      rw [if_neg hlen]
      rw [not_not, List.length_take] at hlen
      rcases h.inflate hZ fuel (rest.take want) with ⟨w₁, hrun, hw₁, hcomp⟩ | ⟨w₁, e, hrun, hw₁⟩
      · rw [Watched.hashes] at hrun
        rw [hrun]
        dsimp only
        rcases ih (remaining - want) (by omega) hw₁ (rest.drop want) with
          ⟨w₂, hrun₂, hw₂, hcomp₂, hle⟩ | hstop
        · refine Or.inl ⟨w₂, hrun₂, hw₂, ?_, ?_⟩
          · rw [hcomp₂, hcomp, List.append_assoc, ← List.take_add,
              Nat.add_sub_cancel' (by omega : want ≤ remaining)]
          · rw [List.length_drop] at hle
            omega
        · exact Or.inr hstop
      · rw [Watched.hashes] at hrun
        rw [hrun]
        exact Or.inr ⟨w₁, e, rfl, hw₁⟩

/-- What a reading that ends without an error has read and yielded. -/
structure Verified (Z : StreamCodec UInt8) (sha256 : Bytes → Text) (file : Bytes)
    (s : CopySegment) (w : Watched Z) : Prop where
  size : w.reading.yielded.flatten.length = s.uncompressedSize
  hash : sha256 w.reading.yielded.flatten = s.uncompressedSha256
  consumed : (w.calls.map Prod.fst).flatten = (file.drop s.offset).take s.compressedSize
  length : ((file.drop s.offset).take s.compressedSize).length = s.compressedSize
  compressedHash : sha256 ((file.drop s.offset).take s.compressedSize) = s.compressedSha256
  eof : Z.eof w.reading.decompressor = true
  nothingTrails : Z.unusedData w.reading.decompressor = []

theorem Guarded.watchEnd (sha256 : Bytes → Text)
    (h : Guarded s w) : Bounded s (watchEnd sha256 s w).1 ∧
    (watchEnd sha256 s w).2 ≠ .error .outOfFuel ∧
    ((watchEnd sha256 s w).2 = .ok () →
      ∃ w', (watchEnd sha256 s w).1 = w' ∧ Guarded s w' ∧
        w'.reading.compHash = w.reading.compHash ∧ w'.reading.produced = s.uncompressedSize ∧
        Z.eof w'.reading.decompressor = true ∧ Z.unusedData w'.reading.decompressor = [] ∧
        sha256 w'.reading.compHash = s.compressedSha256 ∧
        sha256 w'.reading.rawHash = s.uncompressedSha256) := by
  unfold CopyFormat.watchEnd
  cases hflush : Z.flush w.reading.decompressor with
  | none => exact ⟨h.bounded, nofun, nofun⟩
  | some p =>
    obtain ⟨tail, d⟩ := p
    dsimp only
    by_cases hsize : w.reading.produced + tail.length ≠ s.uncompressedSize
    · rw [if_pos hsize]
      exact ⟨⟨h.bounded.yielded, h.budget⟩, nofun, nofun⟩
    · rw [if_neg hsize]
      rw [not_not] at hsize
      have hw : Guarded s { w with reading := Reading.yields { w.reading with
          decompressor := d, produced := w.reading.produced + tail.length } tail } :=
        ⟨by simp [hsize], by simp [h.produced_eq], by simp [h.yielded], by simp [h.fed], h.budget⟩
      split_ifs with heof hunused hcomp hraw
      · exact ⟨hw.bounded, nofun, nofun⟩
      · exact ⟨hw.bounded, nofun, nofun⟩
      · exact ⟨hw.bounded, nofun, nofun⟩
      · exact ⟨hw.bounded, nofun, nofun⟩
      · refine ⟨hw.bounded, nofun, fun _ => ⟨_, rfl, hw, by simp, by simp [hsize], ?_, ?_, ?_, ?_⟩⟩
        · simpa using heof
        · simpa using hunused
        · simpa using hcomp
        · simpa using hraw

/-- Whatever the bytes and the metadata are, a reading ends, yields no more than was recorded and
gives the decompressor a positive budget. If it ends without an error, it has read the segment to
its end and yielded what was recorded. -/
theorem watchSegment_guarded (hZ : Z.Bounded) (reader : SegmentReader) (s : CopySegment)
    (fuel : ℕ) :
    let run := reader.watchSegment Z sha256 (fuel + 1) s
    run.2 ≠ .error .outOfFuel ∧ Bounded s run.1 ∧
      (run.2 = .ok () → Verified Z sha256 reader.file s run.1) := by
  have hstart : Guarded s ({ reading := { decompressor := Z.decompressobj } } : Watched Z) :=
    ⟨Nat.zero_le _, rfl, rfl, rfl, nofun⟩
  unfold SegmentReader.watchSegment
  dsimp only
  by_cases hpast : reader.totalSize < s.endOffset
  · rw [if_pos hpast]
    exact ⟨nofun, hstart.bounded, nofun⟩
  rw [if_neg hpast]
  cases hratio : checkRatio s reader.maxRatio with
  | error e => exact ⟨nofun, hstart.bounded, nofun⟩
  | ok u =>
    dsimp only
    rcases hstart.chunks hZ fuel (reader.file.drop s.offset) s.compressedSize with
      ⟨w, hrun, hw, hcomp, hle⟩ | ⟨w, e, hrun, hw⟩
    · rw [hrun]
      obtain ⟨hbounded, hfuel, hend⟩ := hw.watchEnd sha256
      refine ⟨hfuel, hbounded, fun hok => ?_⟩
      obtain ⟨w', hw', hg, hcomp', hsize, heof, hunused, hchash, hrhash⟩ := hend hok
      dsimp only
      rw [hw']
      rw [hcomp] at hcomp'
      refine ⟨?_, ?_, ?_, ?_, ?_, heof, hunused⟩
      · rw [hg.yielded, ← hg.produced_eq, hsize]
      · rw [hg.yielded, hrhash]
      · rw [hg.fed, hcomp']
        rfl
      · rw [List.length_take, Nat.min_eq_left hle]
      · rw [hcomp'] at hchash
        exact hchash
    · rw [hrun]
      exact ⟨nofun, hw, nofun⟩

end

/-! ## The reader of the round trip -/

section

variable {Z : StreamCodec UInt8} {s : CopySegment}

def Stop.text : Stop → Text
  | .raised e => e
  | .outOfFuel => "out of fuel"

/-- What is left of a reading for a caller that sees its end only. -/
def Watched.result (p : Watched Z × Except Stop Unit) : Except Text (Reading Z) :=
  match p.2 with
  | .ok () => .ok p.1.reading
  | .error e => .error e.text

theorem inflate_eq (fuel : ℕ) : ∀ {w : Watched Z} {pending : Bytes},
    w.reading.produced ≤ s.uncompressedSize →
      inflate s fuel w.reading pending = Watched.result (watchInflate s fuel w pending) ∧
      ((watchInflate s fuel w pending).2 = .ok () →
        (watchInflate s fuel w pending).1.reading.produced ≤ s.uncompressedSize) := by
  induction fuel with
  | zero => exact fun _ => ⟨rfl, by rintro ⟨⟩⟩
  | succ fuel ih =>
    intro w pending hle
    have hnat : ((s.uncompressedSize : ℤ) - w.reading.produced + 1).toNat =
        s.uncompressedSize - w.reading.produced + 1 := by omega
    rw [inflate, watchInflate]
    simp only [hnat]
    cases Z.decompress w.reading.decompressor pending
        (s.uncompressedSize - w.reading.produced + 1) with
    | none => exact ⟨rfl, by rintro ⟨⟩⟩
    | some p =>
      obtain ⟨plain, d⟩ := p
      by_cases hover : s.uncompressedSize < w.reading.produced + plain.length
      · simp only [hover, if_true]
        exact ⟨rfl, by rintro ⟨⟩⟩
      · simp only [hover, if_false]
        by_cases htail : Z.unconsumedTail d = []
        · simp only [htail, if_true]
          exact ⟨rfl, fun _ => by simpa using hover⟩
        · simp only [htail, if_false]
          have hnext : (Reading.yields { w.reading with
              decompressor := d, produced := w.reading.produced + plain.length } plain).produced ≤
                s.uncompressedSize := by
            simpa using hover
          exact @ih ⟨_, _⟩ _ hnext

theorem readChunks_eq (fuel : ℕ) {w : Watched Z} {rest : Bytes} {remaining : ℕ}
    (hle : w.reading.produced ≤ s.uncompressedSize) :
    readChunks s fuel rest remaining w.reading =
      Watched.result (watchChunks s fuel rest remaining w) := by
  induction remaining using Nat.strong_induction_on generalizing rest w with
  | _ remaining ih =>
    rw [readChunks, watchChunks]
    by_cases hzero : remaining = 0
    · rw [dif_pos hzero, dif_pos hzero]
      rfl
    · rw [dif_neg hzero, dif_neg hzero]
      have hpos : 0 < chunkSize := by decide
      generalize hwant : min chunkSize remaining = want
      dsimp only
      by_cases hlen : (rest.take want).length ≠ want
      · rw [if_pos hlen, if_pos hlen]
        rfl
      · rw [if_neg hlen, if_neg hlen]
        obtain ⟨heq, hnext⟩ := @inflate_eq _ s fuel (w.hashes (rest.take want)) (rest.take want) hle
        rw [Watched.hashes] at heq hnext
        rw [heq]
        generalize watchInflate s fuel { w with reading := { w.reading with
          compHash := w.reading.compHash ++ rest.take want } } (rest.take want) = run at hnext ⊢
        obtain ⟨w', out⟩ := run
        cases out with
        | error e => rfl
        | ok u => exact ih (remaining - want) (by omega) (hnext rfl)

/-- `iterUncompressed` is what the caller sees of the run in the end. -/
theorem iterUncompressed_eq_watch (sha256 : Bytes → Text) (reader : SegmentReader) (fuel : ℕ)
    (s : CopySegment) : reader.iterUncompressed Z sha256 fuel s =
      (Watched.result (reader.watchSegment Z sha256 fuel s)).map Reading.yielded := by
  unfold SegmentReader.iterUncompressed SegmentReader.watchSegment
  dsimp only
  by_cases hpast : reader.totalSize < s.endOffset
  · rw [if_pos hpast, if_pos hpast]
    rfl
  rw [if_neg hpast, if_neg hpast]
  cases checkRatio s reader.maxRatio with
  | error e => rfl
  | ok u =>
    have heq := @readChunks_eq Z s fuel { reading := { decompressor := Z.decompressobj } }
      (reader.file.drop s.offset) s.compressedSize (Nat.zero_le _)
    rw [Failing.ok_bind]
    dsimp only at heq ⊢
    rw [heq]
    generalize watchChunks s fuel (reader.file.drop s.offset) s.compressedSize
      { reading := { decompressor := Z.decompressobj } } = run
    obtain ⟨w, out⟩ := run
    cases out with
    | error e => rfl
    | ok u =>
      simp only [Watched.result, Failing.ok_bind, watchEnd]
      cases Z.flush w.reading.decompressor with
      | none => rfl
      | some p =>
        obtain ⟨tail, d⟩ := p
        have hyields : (Reading.yields { w.reading with
            decompressor := d, produced := w.reading.produced + tail.length } tail).yielded =
              (w.reading.yields tail).yielded := by
          unfold Reading.yields
          split_ifs <;> rfl
        simp only [Reading.yields_rawHash, Reading.yields_compHash]
        split_ifs <;> first | rfl | exact congrArg Except.ok hyields.symm

end

/-! ## The segment of one row -/

theorem bounded_heldBack : heldBack.Bounded where
  length_le := by
    rintro d d' data out max - h
    obtain ⟨rfl, -⟩ := Prod.mk.inj (Option.some.inj h)
    exact Nat.zero_le _
  full := by
    rintro d d' data out max - - h
    exact absurd rfl h

/-- The segment of a table with one row. -/
def shortSegment : CopySegment where
  table := "posts"
  columns := ["id", "name"]
  offset := 0
  compressedSize := 12
  compressedSha256 := digest (streamHeader ++ deflated shortRow)
  uncompressedSize := 4
  uncompressedSha256 := digest shortRow
  rowCount := 1
  table_ok := isIdentifier_posts
  columns_ne_nil := by decide
  columns_ok := by decide
  columns_nodup := by decide
  compressed_ok := isSha256_digest _
  uncompressed_ok := isSha256_digest _

theorem shortSegment_watched :
    ((readerOf (streamHeader ++ deflated shortRow)).watchSegment heldBack digest 1
      shortSegment).2 = .ok () ∧
    Verified heldBack digest (streamHeader ++ deflated shortRow) shortSegment
      ((readerOf (streamHeader ++ deflated shortRow)).watchSegment heldBack digest 1
        shortSegment).1 := by
  obtain ⟨-, -, hverified⟩ := @watchSegment_guarded heldBack digest bounded_heldBack
    (readerOf (streamHeader ++ deflated shortRow)) shortSegment 0
  have hok : ((readerOf (streamHeader ++ deflated shortRow)).watchSegment heldBack digest 1
      shortSegment).2 = .ok () := by
    have hread : watchChunks shortSegment 1 (streamHeader ++ deflated shortRow) 12
        { reading := { decompressor := heldBack.decompressobj } } =
          (⟨⟨streamHeader ++ deflated shortRow, 0, streamHeader ++ deflated shortRow, [], []⟩,
            [(streamHeader ++ deflated shortRow, 5)]⟩, .ok ()) := by
      rw [watchChunks, dif_neg (by decide)]
      dsimp only
      rw [show min chunkSize 12 = 12 from rfl, if_neg (by decide)]
      change watchChunks shortSegment 1 [] 0 _ = _
      rw [watchChunks, dif_pos rfl]
      rfl
    unfold SegmentReader.watchSegment
    dsimp only
    rw [if_neg (by decide), checkRatio_eq_ok.2 (by decide)]
    dsimp only
    rw [show (readerOf (streamHeader ++ deflated shortRow)).file.drop shortSegment.offset =
        streamHeader ++ deflated shortRow from rfl,
      show shortSegment.compressedSize = 12 from rfl, hread]
    rfl
  exact ⟨hok, hverified hok⟩

end CopyFormat

end PPBase
