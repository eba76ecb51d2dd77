import PPBase.ZipAgreement

/-!
# Reading a written archive

A closed archive ends with an end record without a comment. Prevalidation accepts its directory
within its limits (`prevalidateZipDirectory_close`), and `zipfile` reads the members that have been
written from it (`contents_close`), where the bytes before the end record are not taken for a ZIP64
locator.
-/

namespace PPBase

namespace Backup

open PackedBytes ZipFile

/-! ## Records -/

section Records

variable {count offset size comment : ℕ}

@[simp] theorem length_endRecord :
    (endRecord count offset size comment).length = eocdSize := by
  simp [endRecord, eocdSignature, eocdSize]

@[simp] theorem length_zip64Locator : (zip64Locator offset).length = zip64LocatorSize := by
  simp [zip64Locator, zip64LocatorSignature, zip64LocatorSize]

@[simp] theorem length_zip64EndRecord :
    (zip64EndRecord count offset size).length = zip64EocdSize := by
  simp [zip64EndRecord, zip64EocdSignature, zip64EocdSize]

/-- What an end record without a comment says. -/
theorem endRecord_fields (count offset size : ℕ) (hcount : count < 256 ^ 2) (hoffset : offset < 256 ^ 4)
    (hsize : size < 256 ^ 4) :
    let r := endRecord count offset size 0
    slice r 0 4 = eocdSignature ∧ field r 4 2 = 0 ∧ field r 6 2 = 0 ∧ field r 8 2 = count ∧
      field r 10 2 = count ∧ field r 12 4 = size ∧ field r 16 4 = offset ∧ field r 20 2 = 0 := by
  refine ⟨?_, ?_, ?_, ?_, ?_, ?_, ?_, ?_⟩
  all_goals
    rw [endRecord]
    try simp (disch := simp [eocdSignature]) only [field_append_left]
  · simp (disch := simp [eocdSignature]) only [slice_append_left]
    rfl
  · exact field_append_le (by simp [eocdSignature]) (by decide)
  · exact field_append_le (by simp [eocdSignature]) (by decide)
  · exact field_append_le (by simp [eocdSignature]) hcount
  · exact field_append_le (by simp [eocdSignature]) hcount
  · exact field_append_le (by simp [eocdSignature]) hsize
  · exact field_append_le (by simp [eocdSignature]) hoffset
  · exact field_append_le (by simp [eocdSignature]) (by decide)

/-- What a ZIP64 record says. -/
theorem zip64EndRecord_fields (count offset size : ℕ) (hcount : count < 256 ^ 8) (hoffset : offset < 256 ^ 8)
    (hsize : size < 256 ^ 8) :
    let r := zip64EndRecord count offset size
    slice r 0 4 = zip64EocdSignature ∧ field r 4 8 = 44 ∧ field r 16 4 = 0 ∧ field r 20 4 = 0 ∧
      field r 24 8 = count ∧ field r 32 8 = count ∧ field r 40 8 = size ∧ field r 48 8 = offset := by
  refine ⟨?_, ?_, ?_, ?_, ?_, ?_, ?_, ?_⟩
  all_goals
    rw [zip64EndRecord]
    try simp (disch := simp [zip64EocdSignature]) only [field_append_left]
  · simp (disch := simp [zip64EocdSignature]) only [slice_append_left]
    rfl
  · exact field_append_le (by simp [zip64EocdSignature]) (by decide)
  · exact field_append_le (by simp [zip64EocdSignature]) (by decide)
  · exact field_append_le (by simp [zip64EocdSignature]) (by decide)
  · exact field_append_le (by simp [zip64EocdSignature]) hcount
  · exact field_append_le (by simp [zip64EocdSignature]) hcount
  · exact field_append_le (by simp [zip64EocdSignature]) hsize
  · exact field_append_le (by simp [zip64EocdSignature]) hoffset

/-- What a ZIP64 locator says. -/
theorem zip64Locator_fields (hoffset : offset < 256 ^ 8) :
    let r := zip64Locator offset
    slice r 0 4 = zip64LocatorSignature ∧ field r 4 4 = 0 ∧ field r 8 8 = offset ∧
      field r 16 4 = 1 := by
  refine ⟨?_, ?_, ?_, ?_⟩
  all_goals
    rw [zip64Locator]
    try simp (disch := simp [zip64LocatorSignature]) only [field_append_left]
  · simp (disch := simp [zip64LocatorSignature]) only [slice_append_left]
    rfl
  · exact field_append_le (by simp [zip64LocatorSignature]) (by decide)
  · exact field_append_le (by simp [zip64LocatorSignature]) hoffset
  · exact field_append_le (by simp [zip64LocatorSignature]) (by decide)

end Records

/-! ## Entries -/

section Entries

variable (x : ZipInfo)

theorem length_extra_le : x.extra.length ≤ 3 := by
  rw [ZipInfo.extra]
  split_ifs <;> simp

theorem length_extraData_le : x.extraData.length ≤ 28 := by
  have hflat : ∀ ns : List ℕ, (ns.flatMap (le 8)).length = 8 * ns.length := by
    intro ns
    simp [List.length_flatMap, Nat.mul_comm]
  have := length_extra_le x
  rw [ZipInfo.extraData]
  split_ifs
  · simp
  · simp only [List.length_append, length_le, hflat]
    omega

@[simp] theorem length_entry : x.entry.length =
    centralDirectorySize + ((Text.encodeUtf8 x.filename).length + x.extraData.length) := by
  simp only [ZipInfo.entry, ZipInfo.centralHeader, List.length_append, length_le,
    centralDirectorySignature, centralDirectorySize, List.length_cons, List.length_nil]
  omega

variable {x}

/-- What an entry says of its own length. -/
theorem entry_fields (hname : (Text.encodeUtf8 x.filename).length < 256 ^ 2) :
    slice x.entry 0 4 = centralDirectorySignature ∧
      field x.entry 28 2 = (Text.encodeUtf8 x.filename).length ∧
      field x.entry 30 2 = x.extraData.length ∧ field x.entry 32 2 = 0 := by
  have hextra := length_extraData_le x
  simp only [ZipInfo.entry, ZipInfo.centralHeader, ← List.append_assoc]
  refine ⟨?_, ?_, ?_, ?_⟩
  · simp (disch := (simp [centralDirectorySignature]; try omega)) only [slice_append_left]
    rfl
  all_goals simp (disch := (simp [centralDirectorySignature]; try omega)) only [field_append_left]
  · exact field_append_le (by simp [centralDirectorySignature]) hname
  · exact field_append_le (by simp [centralDirectorySignature]) (by omega)
  · exact field_append_le (by simp [centralDirectorySignature]) (by decide)

variable {pre post : List UInt8}

theorem entrySize_entry (hname : (Text.encodeUtf8 x.filename).length < 256 ^ 2) :
    entrySize (pre ++ x.entry ++ post) pre.length = x.entry.length := by
  obtain ⟨-, hfilename, hextra, hcomment⟩ := entry_fields hname
  have hlen := length_entry x
  unfold centralDirectorySize at hlen
  rw [entrySize, field_between (by omega), field_between (by omega), field_between (by omega),
    hfilename, hextra, hcomment, length_entry, Nat.add_zero]

theorem slice_entry {n : ℕ} (hn : n ≤ x.entry.length) :
    slice (pre ++ x.entry ++ post) pre.length n = slice x.entry 0 n :=
  slice_between (i := 0) (by omega)

end Entries

theorem directory_cons (x : ZipInfo) (infos : List ZipInfo) :
    directory (x :: infos) = x.entry ++ directory infos := List.flatMap_cons

/-- The names of the members fit into their entries. -/
def NamesFit (infos : List ZipInfo) : Prop :=
  ∀ x ∈ infos, (Text.encodeUtf8 x.filename).length < 256 ^ 2

variable {infos : List ZipInfo} {pre post : List UInt8}

theorem le_length_directory (infos : List ZipInfo) :
    infos.length * centralDirectorySize ≤ (directory infos).length := by
  induction infos with
  | nil => simp
  | cons x infos ih =>
    rw [directory_cons, List.length_append, List.length_cons, length_entry, Nat.succ_mul]
    omega

/-- The walk over a written directory comes to its end. -/
theorem walkDirectory_directory {maxEntries n : ℕ} (hnames : NamesFit infos)
    (hmax : n + infos.length ≤ maxEntries) :
    walkDirectory (pre ++ directory infos ++ post) maxEntries
        (pre.length + (directory infos).length) pre.length n =
      .ok (pre.length + (directory infos).length, n + infos.length) := by
  induction infos generalizing pre n with
  | nil =>
    rw [walkDirectory, if_neg (by simp [directory])]
    simp [directory]
  | cons x infos ih =>
    have hname := hnames x List.mem_cons_self
    have hlen := length_entry x
    unfold centralDirectorySize at hlen
    rw [List.length_cons] at hmax
    have hb : pre ++ directory (x :: infos) ++ post = pre ++ x.entry ++ (directory infos ++ post) := by
      rw [directory_cons, List.append_assoc, List.append_assoc, List.append_assoc]
    rw [hb, directory_cons, List.length_append, walkDirectory, if_pos (by omega), if_neg (by omega),
      slice_entry (by unfold centralDirectorySize; omega), slice_entry (by omega),
      (entry_fields hname).1, entrySize_entry hname, if_neg, if_neg (not_not.2 rfl),
      if_neg (by omega), ← List.append_assoc, ← Nat.add_assoc, ← List.length_append,
      ih (fun y hy => hnames y (List.mem_cons_of_mem x hy)) (by omega)]
    · rw [List.length_cons]
      congr 2
      omega
    · rw [not_not]
      exact length_slice_of_le (by unfold centralDirectorySize; omega)

/-- The members of a written directory are read from it. -/
theorem readEntries_directory {decode : List UInt8 → Except BadZipFile ZipInfo} (pre : List UInt8)
    (hnames : NamesFit infos) (hdecode : ∀ x ∈ infos, decode x.entry = .ok x.stored) :
    readEntries decode (pre ++ directory infos) (pre.length + (directory infos).length) pre.length =
      .ok (infos.map ZipInfo.stored) := by
  induction infos generalizing pre with
  | nil =>
    rw [readEntries, if_neg (by simp [directory])]
    rfl
  | cons x infos ih =>
    have hname := hnames x List.mem_cons_self
    have hlen := length_entry x
    unfold centralDirectorySize at hlen
    rw [directory_cons, ← List.append_assoc, readEntries, List.length_append, if_pos (by omega),
      slice_entry (by unfold centralDirectorySize; omega), slice_entry (by omega),
      (entry_fields hname).1, entrySize_entry hname, if_neg, if_neg (not_not.2 rfl),
      slice_entry le_rfl, slice, List.drop_zero, List.take_length]
    · rw [hdecode x List.mem_cons_self, ← Nat.add_assoc, ← List.length_append]
      simp only
      rw [ih _ (fun y hy => hnames y (List.mem_cons_of_mem x hy))
        fun y hy => hdecode y (List.mem_cons_of_mem x hy)]
      rfl
    · rw [not_not]
      exact length_slice_of_le (by unfold centralDirectorySize; omega)

/-! ## End records -/

section EndRecords

variable {count offset size : ℕ}

/-- Both readers take an end record without a comment at the end. -/
theorem findEndRecord_endRecord (hcount : count < 256 ^ 2) (hoffset : offset < 256 ^ 4)
    (hsize : size < 256 ^ 4) :
    findEndRecord (pre ++ endRecord count offset size 0) = .ok pre.length := by
  obtain ⟨hsignature, -, -, -, -, -, -, hcomment⟩ := endRecord_fields count offset size hcount hoffset hsize
  have hlen : (endRecord count offset size 0).length = 22 := length_endRecord
  rw [findEndRecord_eq_ok_iff]
  refine ⟨⟨?_, ?_⟩, fun j hj hends => ?_⟩
  · show slice _ _ 4 = _
    rw [← hsignature, slice_append_right le_rfl, Nat.sub_self]
  · have hfield : field (pre ++ endRecord count offset size 0) (pre.length + 20) 2 = 0 := by
      rw [field, slice_append_right (by omega), Nat.add_sub_cancel_left]
      exact hcomment
    rw [hfield, List.length_append, length_endRecord, Nat.add_zero]
  · have := hends.2
    rw [List.length_append, hlen] at this
    unfold eocdSize at this
    omega

theorem endRecData_endRecord (hcount : count < 256 ^ 2) (hoffset : offset < 256 ^ 4)
    (hsize : size < 256 ^ 4) :
    endRecData (pre ++ endRecord count offset size 0) =
      endRecData64 (pre ++ endRecord count offset size 0) pre.length := by
  obtain ⟨hsignature, -⟩ := endRecord_fields count offset size hcount hoffset hsize
  have hlen : (endRecord count offset size 0).length = 22 := length_endRecord
  have hplace : (pre ++ endRecord count offset size 0).length - eocdSize = pre.length := by
    rw [List.length_append, hlen]
    rfl
  have hplain : endsPlainly (pre ++ endRecord count offset size 0) = true := by
    rw [endsPlainly, Bool.and_eq_true, decide_eq_true_eq, decide_eq_true_eq, hplace]
    constructor
    · rw [← hsignature, slice_append_right le_rfl, Nat.sub_self]
    · rw [List.length_append, hlen, slice_append_right (by omega), Nat.add_sub_assoc (by omega),
        Nat.add_sub_cancel_left, endRecord, slice_append_right (by simp [eocdSignature])]
      simp [eocdSignature, slice, le]
  rw [endRecData, if_neg (by rw [List.length_append, hlen]; unfold eocdSize; omega), if_pos hplain,
    hplace]

/-- What an end record says at its place. -/
theorem field_endRecord (pre : List UInt8) (count offset size i n : ℕ) :
    field (pre ++ endRecord count offset size 0) (pre.length + i) n =
      field (endRecord count offset size 0) i n := by
  rw [field, slice_append_right (Nat.le_add_right _ _), Nat.add_sub_cancel_left, field]

/-- The directory before an end record. -/
theorem locateDirectory_endRecord (hcount : count < 0xFFFF) (hoffset : offset < 0xFFFFFFFF)
    (hsize : size < 0xFFFFFFFF)
    (hlocator : zip64Locator? (pre ++ endRecord count offset size 0) pre.length = none) :
    locateDirectory (pre ++ endRecord count offset size 0) pre.length =
      .ok ⟨count, size, offset, pre.length⟩ := by
  obtain ⟨-, hdisk, hstart, hhere, hall, hsize', hoffset', -⟩ :=
    endRecord_fields count offset size (by omega) (by omega) (by omega)
  rw [locateDirectory, hlocator]
  simp only [field_endRecord, hdisk, hstart, hhere, hall, hsize', hoffset']
  rw [if_neg (by omega), if_neg (by omega), if_neg (not_not.2 rfl)]

theorem endRecData64_endRecord (hcount : count < 256 ^ 2) (hoffset : offset < 256 ^ 4)
    (hsize : size < 256 ^ 4)
    (hlocator : zip64Locator? (pre ++ endRecord count offset size 0) pre.length = none) :
    endRecData64 (pre ++ endRecord count offset size 0) pre.length =
      .ok ⟨pre.length, false, size⟩ := by
  obtain ⟨-, -, -, -, -, hsize', -⟩ := endRecord_fields count offset size hcount hoffset hsize
  rw [endRecData64, field_endRecord, hsize']
  by_cases hroom : pre.length < zip64LocatorSize
  · exact if_pos hroom
  · have hsignature : slice (pre ++ endRecord count offset size 0)
        (pre.length - zip64LocatorSize) 4 ≠ zip64LocatorSignature := by
      intro hsignature
      rw [zip64Locator?, if_pos ⟨Nat.le_of_not_lt hroom, hsignature⟩] at hlocator
      cases hlocator
    rw [if_neg hroom, if_pos hsignature]

theorem length_zip64Records {locator : ℕ} :
    (pre ++ zip64EndRecord count offset size ++ zip64Locator locator).length = pre.length + 76 := by
  simp [zip64EocdSize, zip64LocatorSize]

/-- A ZIP64 record with its locator stands for the end record after it. -/
theorem zip64_found (count : ℕ) (hpre : pre.length = offset + size) (hsize : offset + size < 256 ^ 8)
    (hcount : count < 256 ^ 8) :
    let b := pre ++ zip64EndRecord count offset size ++ zip64Locator (offset + size) ++
      endRecord (min count 0xFFFF) (min offset 0xFFFFFFFF) (min size 0xFFFFFFFF) 0
    locateDirectory b (pre.length + 76) = .ok ⟨count, size, offset, pre.length⟩ ∧
      endRecData64 b (pre.length + 76) = .ok ⟨pre.length + 76, true, size⟩ := by
  intro b
  obtain ⟨hsig, hlength, hdisk, hstart, hhere, hall, hsize', hoffset'⟩ :=
    zip64EndRecord_fields count offset size hcount (by omega) (by omega)
  obtain ⟨hlsig, hldisk, hloffset, hldisks⟩ := zip64Locator_fields hsize
  obtain ⟨-, hedisk, hestart, hehere, heall, hesize, heoffset, -⟩ :=
    endRecord_fields (min count 0xFFFF) (min offset 0xFFFFFFFF) (min size 0xFFFFFFFF) (by omega)
      (by omega) (by omega)
  have hrecord : ∀ i n, i + n ≤ 56 →
      slice b (pre.length + i) n = slice (zip64EndRecord count offset size) i n := by
    intro i n hi
    show slice (pre ++ _ ++ _ ++ _) _ _ = _
    rw [List.append_assoc _ (zip64Locator _)]
    exact slice_between (by simpa [zip64EocdSize] using hi)
  have hlocator : ∀ i n, i + n ≤ 20 →
      slice b (pre.length + 56 + i) n = slice (zip64Locator (offset + size)) i n := by
    intro i n hi
    have h := slice_between (a := pre ++ zip64EndRecord count offset size)
      (b := zip64Locator (offset + size)) (i := i) (n := n)
      (c := endRecord (min count 0xFFFF) (min offset 0xFFFFFFFF) (min size 0xFFFFFFFF) 0)
      (by simpa [zip64LocatorSize] using hi)
    rw [List.length_append, length_zip64EndRecord] at h
    exact h
  have hend : ∀ i n, field b (pre.length + 76 + i) n =
      field (endRecord (min count 0xFFFF) (min offset 0xFFFFFFFF) (min size 0xFFFFFFFF) 0) i n := by
    intro i n
    have h := field_endRecord
      (pre ++ zip64EndRecord count offset size ++ zip64Locator (offset + size))
      (min count 0xFFFF) (min offset 0xFFFFFFFF) (min size 0xFFFFFFFF) i n
    rw [List.length_append, List.length_append, length_zip64EndRecord, length_zip64Locator] at h
    exact h
  have hwhole : slice b pre.length 56 = zip64EndRecord count offset size := by
    have h := hrecord 0 56 le_rfl
    rw [Nat.add_zero] at h
    rw [h, slice, List.drop_zero]
    exact List.take_of_length_le (by rw [length_zip64EndRecord]; exact le_rfl)
  have hlfield : ∀ i n, i + n ≤ 20 →
      field b (pre.length + 56 + i) n = field (zip64Locator (offset + size)) i n := by
    intro i n hi
    rw [field, hlocator i n hi, field]
  have hlocator? : zip64Locator? b (pre.length + 76) = some (pre.length + 56) := by
    rw [zip64Locator?_eq_some_iff]
    exact ⟨rfl, (hlocator 0 4 (by omega)).trans hlsig⟩
  constructor
  · rw [locateDirectory, hlocator?, hend, hend, hedisk, hestart, if_neg (by omega)]
    simp only
    rw [zip64Directory]
    simp only [hlfield 4 4 (by omega), hlfield 8 8 (by omega), hlfield 16 4 (by omega), hldisk,
      hloffset.trans hpre.symm, hldisks, hend, hehere, heall, hesize, heoffset]
    have hread : readArchiveRange b pre.length zip64EocdSize =
        .ok (zip64EndRecord count offset size) := by
      rw [readArchiveRange, show slice b pre.length zip64EocdSize = _ from hwhole,
        length_zip64EndRecord, if_pos rfl]
    rw [if_neg (by omega), hread]
    simp only [hsig, hlength, hdisk, hstart, hhere, hall, hsize', hoffset']
    rw [if_neg (not_not.2 rfl), if_neg (by unfold zip64EocdSize; omega), if_neg]
    simp only [List.any_cons, List.any_nil, Bool.or_false, Bool.or_eq_true, Bool.and_eq_true,
      decide_eq_true_eq, ne_eq]
    omega
  · rw [endRecData64]
    have hlstart : pre.length + 76 - zip64LocatorSize = pre.length + 56 := rfl
    have hrstart : pre.length + 56 - zip64EocdSize = pre.length := Nat.add_sub_cancel _ 56
    have hfirst : slice b pre.length 4 = zip64EocdSignature := (hrecord 0 4 (by omega)).trans hsig
    have hrsize : field b (pre.length + 40) 8 = size := by
      rw [field, hrecord 40 8 (by omega), ← field, hsize']
    simp only [hlstart, hrstart, hlfield 4 4 (by omega), hlfield 16 4 (by omega), hldisk, hldisks,
      hfirst, hrsize, (hlocator 0 4 (by omega)).trans hlsig]
    rw [if_neg (by unfold zip64LocatorSize; omega), if_neg (not_not.2 rfl), if_neg (by omega),
      if_neg (by unfold zip64LocatorSize zip64EocdSize; omega), if_neg (not_not.2 rfl)]

end EndRecords

/-- An entry whose name is long enough and has no bell does not end like a locator. -/
theorem zip64Locator?_entry {x : ZipInfo} (hoffset : x.headerOffset ≤ zip64Limit)
    (hsize : x.compressSize ≤ zip64Limit) (hname : 17 ≤ (Text.encodeUtf8 x.filename).length)
    (hbell : 7 ∉ Text.encodeUtf8 x.filename) :
    zip64Locator? (pre ++ x.entry ++ post) (pre ++ x.entry).length = none := by
  rw [Option.eq_none_iff_forall_ne_some]
  intro l hl
  obtain ⟨hplace, hlocator⟩ := zip64Locator?_eq_some_iff.1 hl
  have hlen := length_entry x
  have hheader : x.centralHeader.length = 46 := by
    simp [ZipInfo.centralHeader, centralDirectorySignature]
  unfold centralDirectorySize at hlen
  unfold zip64LocatorSize at hplace
  rw [List.length_append] at hplace
  by_cases hlarge : zip64Limit < x.fileSize
  · -- the last 20 bytes are the extra field, which begins with the number of its kind
    have hdata : x.extraData =
        le 2 1 ++ le 2 16 ++ ([x.fileSize, x.compressSize].flatMap (le 8)) := by
      have hextra : x.extra = [x.fileSize, x.compressSize] := by
        rw [ZipInfo.extra, if_pos (.inl hlarge), if_neg hoffset.not_gt, List.append_nil]
      rw [ZipInfo.extraData, hextra]
      rfl
    have hdatalen : x.extraData.length = 20 := by rw [hdata]; simp
    have hl : l = pre.length + (46 + (Text.encodeUtf8 x.filename).length) := by omega
    rw [hl, slice_between (by omega), ZipInfo.entry,
      slice_append_right (by rw [List.length_append]; omega), List.length_append, hheader,
      Nat.sub_self, hdata] at hlocator
    exact absurd hlocator (by simp [slice, le, zip64LocatorSignature])
  · -- the fourth of the last 20 bytes is one of the name
    have hdata : x.extraData = [] := by
      have hextra : x.extra = [] := by
        rw [ZipInfo.extra, if_neg (not_or.2 ⟨hlarge, hsize.not_gt⟩), if_neg hoffset.not_gt,
          List.append_nil]
      rw [ZipInfo.extraData, if_pos hextra]
    have hoccurs : Occurs zip64LocatorSignature (pre ++ x.entry ++ post) l := hlocator
    have hseven := getElem?_of_occurs (k := 3) hoccurs (by decide)
    have hplace : l + 3 = pre.length + (46 + ((Text.encodeUtf8 x.filename).length - 17)) := by
      rw [hdata, List.length_nil] at hlen
      omega
    rw [hplace, List.append_assoc, List.getElem?_append_right (by omega), Nat.add_sub_cancel_left,
      ZipInfo.entry, hdata, List.append_nil, List.append_assoc,
      List.getElem?_append_right (by omega), hheader, Nat.add_sub_cancel_left,
      List.getElem?_append_left (by omega)] at hseven
    exact hbell (List.mem_of_getElem? hseven)

/-! ## Archives -/

variable {a : Archive} {b : List UInt8}

/-- No record of the archive has room for its numbers. -/
abbrev Archive.isZip64 (a : Archive) : Bool :=
  requiresZip64 a.infos.length a.members.length (directory a.infos).length

theorem close_eq_some (h : a.close = some b) :
    NamesFit a.infos ∧ a.members.length + (directory a.infos).length < 256 ^ 8 ∧
      b = a.members ++ directory a.infos ++
        endRecords a.infos.length a.members.length (directory a.infos).length := by
  rw [Archive.close] at h
  split_ifs at h with hfits
  simp only [Bool.and_eq_true, List.all_eq_true, decide_eq_true_eq] at hfits
  refine ⟨fun x hx => ?_, ?_, (Option.some.inj h).symm⟩
  · have := (hfits.1 x hx).1
    omega
  · have := hfits.2
    omega

/-- The bytes before the end record are not those of a locator, unless they are one. -/
def PlainEnd (a : Archive) (b : List UInt8) : Prop :=
  Archive.isZip64 a = false →
    zip64Locator? b (a.members.length + (directory a.infos).length) = none

/-- Where both readers find the directory of a closed archive. An end record says by its largest
count that there is a ZIP64 record, also where that is the count. -/
theorem found_close (h : a.close = some b) (hplain : PlainEnd a b) :
    ∃ e, findEndRecord b = .ok e ∧
      (a.infos.length ≠ 0xFFFF ∨ Archive.isZip64 a = true → locateDirectory b e =
        .ok ⟨a.infos.length, (directory a.infos).length, a.members.length,
          a.members.length + (directory a.infos).length⟩) ∧
      ∃ r, endRecData b = .ok r ∧ r.stop = a.members.length + (directory a.infos).length ∧
        r.size = (directory a.infos).length := by
  obtain ⟨-, hsize, rfl⟩ := close_eq_some h
  have hpre : (a.members ++ directory a.infos).length =
      a.members.length + (directory a.infos).length := List.length_append
  have hle := le_length_directory a.infos
  unfold centralDirectorySize at hle
  revert hplain
  unfold PlainEnd
  rw [← hpre]
  cases hzip64 : Archive.isZip64 a with
  | true =>
    intro _
    obtain ⟨hlocate, hread⟩ := zip64_found a.infos.length hpre hsize (by omega)
    rw [endRecords, if_pos hzip64, ← List.append_assoc, ← List.append_assoc,
      findEndRecord_endRecord (by omega) (by omega) (by omega),
      endRecData_endRecord (by omega) (by omega) (by omega)]
    rw [length_zip64Records]
    exact ⟨_, rfl, fun _ => hlocate, _, hread, Nat.add_sub_cancel _ 76, rfl⟩
  | false =>
    rw [endRecords, if_neg (by rw [← Archive.isZip64, hzip64]; decide)]
    intro hplain
    have hrecords := hzip64
    simp only [Archive.isZip64, requiresZip64, Bool.or_eq_false_iff, decide_eq_false_iff_not,
      Nat.not_lt] at hrecords
    have hcount : a.infos.length ≤ 65535 := hrecords.1.1
    have hoffset : a.members.length ≤ 2147483647 := hrecords.1.2
    have hsize : (directory a.infos).length ≤ 2147483647 := hrecords.2
    rw [findEndRecord_endRecord (by omega) (by omega) (by omega),
      endRecData_endRecord (by omega) (by omega) (by omega)]
    refine ⟨_, rfl, fun hne => ?_, _, endRecData64_endRecord (by omega) (by omega) (by omega)
      (hplain rfl), rfl, rfl⟩
    refine locateDirectory_endRecord ?_ (by omega) (by omega) (hplain rfl)
    have : a.infos.length ≠ 0xFFFF := hne.resolve_right nofun
    omega

/-- Prevalidation accepts a closed archive within its limits. -/
theorem prevalidateZipDirectory_close (limits : BackupTransportLimits) (h : a.close = some b)
    (hplain : PlainEnd a b) (hcount : a.infos.length ≠ 0xFFFF ∨ Archive.isZip64 a = true) :
    (∃ d, prevalidateZipDirectory b limits = .ok d) ↔ a.infos.length ≤ limits.maxEntries ∧
      (directory a.infos).length ≤ limits.maxCentralDirectoryBytes := by
  obtain ⟨e, hfind, hlocate, -⟩ := found_close h hplain
  obtain ⟨hnames, -, rfl⟩ := close_eq_some h
  constructor
  · rintro ⟨d, hd⟩
    obtain ⟨e', he', hd', hentries, hsize, -⟩ := prevalidateZipDirectory_eq_ok hd
    rw [hfind] at he'
    cases he'
    rw [hlocate hcount] at hd'
    cases hd'
    exact ⟨hentries, hsize⟩
  · rintro ⟨hentries, hsize⟩
    rw [prevalidateZipDirectory, hfind]
    simp only
    rw [hlocate hcount]
    simp only
    rw [if_neg hentries.not_gt, if_neg hsize.not_gt, if_neg (le_length_directory _).not_gt,
      if_neg (not_not.2 rfl), walkDirectory_directory hnames (by omega)]
    simp only
    rw [if_neg (by omega)]
    exact ⟨_, rfl⟩

/-- `zipfile` reads the members of a closed archive. -/
theorem contents_close {decode : List UInt8 → Except BadZipFile ZipInfo} (h : a.close = some b)
    (hplain : PlainEnd a b) (hdecode : ∀ x ∈ a.infos, decode x.entry = .ok x.stored) :
    contents decode b = .ok ⟨a.members.length, (directory a.infos).length,
      a.infos.map ZipInfo.stored⟩ := by
  obtain ⟨-, -, -, r, hread, hstop, hsize⟩ := found_close h hplain
  obtain ⟨hnames, -, rfl⟩ := close_eq_some h
  have hentries := readEntries_directory [] hnames hdecode
  rw [List.nil_append, List.length_nil, Nat.zero_add] at hentries
  rw [contents, hread]
  simp only [hstop, hsize, Nat.add_sub_cancel]
  rw [if_neg (by omega), slice_append rfl rfl, hentries]

end Backup

end PPBase
