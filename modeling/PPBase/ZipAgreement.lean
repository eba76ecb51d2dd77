import PPBase.ZipPrevalidation
import PPBase.ZipWriter

/-!
# Two readers of one directory

The end record that prevalidation takes is the last one whose comment reaches to the end of the
archive (`findEndRecord_eq_ok_iff`), the one that `zipfile` takes is the last one there is room for
(`endRecData_eq_ok`). `prevalidateZipDirectory_iff` : of an accepted archive that `zipfile` opens,
it reads the directory that has been checked if and only if these are the same, and a ZIP64 record
has no extensible data.
-/

namespace PPBase

namespace Backup

open PackedBytes ZipFile

variable {b : List UInt8}

/-! ## End records -/

/-- A signature at a place. -/
abbrev Signed (b : List UInt8) (i : ℕ) : Prop := Occurs eocdSignature b i

/-- An end record whose comment reaches to the end. -/
def EndsArchive (b : List UInt8) (i : ℕ) : Prop :=
  Signed b i ∧ i + eocdSize + field b (i + 20) 2 = b.length

/-- The last end record there is room for. -/
def LastRecord (b : List UInt8) (i : ℕ) : Prop :=
  Signed b i ∧ i + eocdSize ≤ b.length ∧ ∀ j, i < j → j + eocdSize ≤ b.length → ¬Signed b j

variable {i e p : ℕ} {r : EndRecord}

theorem LastRecord.unique {j : ℕ} (hi : LastRecord b i) (hj : LastRecord b j) : i = j := by
  rcases Nat.lt_trichotomy i j with h | h | h
  · exact absurd hj.1 (hi.2.2 j h hj.2.1)
  · exact h
  · exact absurd hi.1 (hj.2.2 i h hi.2.1)

theorem getElem?_of_occurs {pattern : List UInt8} {k : ℕ} (h : Occurs pattern b i)
    (hk : k < pattern.length) : b[i + k]? = pattern[k]? := by
  conv_rhs => rw [← show slice b i pattern.length = pattern from h]
  rw [slice, List.getElem?_take_of_lt hk, List.getElem?_drop]

/-- Signatures do not overlap. -/
theorem signed_disjoint {j : ℕ} (hi : Signed b i) (hj : Signed b j) (hlt : j < i) : j + 4 ≤ i := by
  by_contra hover
  have hfirst := getElem?_of_occurs hi (k := 0) (by decide)
  have hinner := getElem?_of_occurs hj (k := i - j) (by show i - j < 4; omega)
  rw [Nat.add_zero] at hfirst
  rw [Nat.add_sub_of_le hlt.le, hfirst] at hinner
  obtain h | h | h : i - j = 1 ∨ i - j = 2 ∨ i - j = 3 := by omega
  all_goals
    rw [h] at hinner
    exact absurd hinner (by decide)

/-- The search finds the last end record whose comment reaches to the end. -/
theorem searchEndRecord_eq_some_iff {stop : ℕ} (hstop : stop ≤ b.length) :
    searchEndRecord b stop = some i ↔
      EndsArchive b i ∧ i + 4 ≤ stop ∧ ∀ j, i < j → j + 4 ≤ stop → ¬EndsArchive b j := by
  induction stop using Nat.strongRecOn with
  | ind stop ih =>
    rw [searchEndRecord]
    split
    · rename_i hnone
      have hno := (rfind_eq_none_iff (by decide) hstop).1 hnone
      exact iff_of_false (by rintro ⟨⟩) fun hi => hno i hi.2.1 hi.1.1
    · rename_i index hsome
      obtain ⟨hroom, hsigned, hlater⟩ := (rfind_eq_some_iff (by decide) hstop).1 hsome
      have hle : ∀ {j}, EndsArchive b j → j + 4 ≤ stop → j ≤ index := fun hj hjroom =>
        Nat.le_of_not_lt fun hlt => hlater _ hlt hjroom hj.1
      have hlt : index < stop := rfind_lt (by decide) hsome
      split_ifs with hends
      · have hindex : EndsArchive b index := ⟨hsigned, hends.2⟩
        constructor
        · intro hi
          cases hi
          exact ⟨hindex, hroom, fun j hj hjroom hj' => absurd (hle hj' hjroom) (by omega)⟩
        · rintro ⟨hi, hiroom, hlast⟩
          rcases Nat.lt_or_eq_of_le (hle hi hiroom) with hlt | rfl
          · exact absurd hindex (hlast index hlt hroom)
          · rfl
      · have hnot : ¬EndsArchive b index := fun hindex =>
          hends ⟨by have := hindex.2; omega, hindex.2⟩
        -- What ends the archive before the signature lies wholly before it.
        have hbefore : ∀ {j}, EndsArchive b j → j + 4 ≤ stop → j + 4 ≤ index := by
          intro j hj hjroom
          rcases Nat.lt_or_eq_of_le (hle hj hjroom) with hlt | rfl
          · exact signed_disjoint hsigned hj.1 hlt
          · exact absurd hj hnot
        rw [ih index hlt (by omega)]
        constructor
        · rintro ⟨hi, hiroom, hlast⟩
          exact ⟨hi, by omega, fun j hj hjroom hj' => hlast j hj (hbefore hj' hjroom) hj'⟩
        · rintro ⟨hi, hiroom, hlast⟩
          exact ⟨hi, hbefore hi hiroom, fun j hj hjroom => hlast j hj (by omega)⟩

theorem field_lt (b : List UInt8) (i n : ℕ) : field b i n < 256 ^ n := by
  have hlt := leNat_lt (slice b i n)
  have hle : (slice b i n).length ≤ n := by
    rw [length_slice]
    exact min_le_left _ _
  exact hlt.trans_le (Nat.pow_le_pow_right (by decide) hle)

/-- A record that ends the archive is in its tail. -/
theorem EndsArchive.tail_le (h : EndsArchive b i) : b.length - min b.length maximumTail ≤ i := by
  have hcomment := field_lt b (i + 20) 2
  have := h.2
  unfold maximumTail
  omega

theorem endsArchive_drop {k : ℕ} (hk : k ≤ b.length) :
    EndsArchive (b.drop k) i ↔ EndsArchive b (k + i) := by
  unfold EndsArchive Signed Occurs
  rw [slice_drop, field_drop, List.length_drop, Nat.add_assoc k i 20]
  refine and_congr Iff.rfl ?_
  omega

/-- Prevalidation takes the last end record whose comment reaches to the end. -/
theorem findEndRecord_eq_ok_iff :
    findEndRecord b = .ok e ↔ EndsArchive b e ∧ ∀ j, e < j → ¬EndsArchive b j := by
  have hread : readArchiveRange b (b.length - min b.length maximumTail) (min b.length maximumTail) =
      .ok (b.drop (b.length - min b.length maximumTail)) := by
    have hslice : slice b (b.length - min b.length maximumTail) (min b.length maximumTail) =
        b.drop (b.length - min b.length maximumTail) := by
      rw [slice]
      refine List.take_of_length_le ?_
      rw [List.length_drop]
      omega
    rw [readArchiveRange, hslice, if_pos]
    rw [List.length_drop]
    omega
  rw [findEndRecord, hread]
  simp only
  have hk : b.length - min b.length maximumTail ≤ b.length := Nat.sub_le _ _
  have htail : ∀ {i}, EndsArchive b i → b.length - min b.length maximumTail ≤ i :=
    EndsArchive.tail_le
  revert hk htail
  generalize b.length - min b.length maximumTail = k
  intro hk htail
  have hroom : ∀ {c : List UInt8} {i}, EndsArchive c i → i + 4 ≤ c.length := fun h => by
    have := h.2
    unfold eocdSize at this
    omega
  constructor
  · intro h
    split at h
    · cases h
    · rename_i index hindex
      cases h
      obtain ⟨hends, -, hlast⟩ := (searchEndRecord_eq_some_iff le_rfl).1 hindex
      refine ⟨(endsArchive_drop hk).1 hends, fun j hj hj' => ?_⟩
      have hdrop : EndsArchive (b.drop k) (j - k) :=
        (endsArchive_drop hk).2 (by rwa [Nat.add_sub_of_le (htail hj')])
      exact hlast (j - k) (by have := htail hj'; omega) (hroom hdrop) hdrop
  · rintro ⟨hends, hlast⟩
    have hdrop : EndsArchive (b.drop k) (e - k) :=
      (endsArchive_drop hk).2 (by rwa [Nat.add_sub_of_le (htail hends)])
    have hindex : searchEndRecord (b.drop k) (b.drop k).length = some (e - k) :=
      (searchEndRecord_eq_some_iff le_rfl).2 ⟨hdrop, hroom hdrop, fun j hj _ hj' =>
        hlast (k + j) (by omega) ((endsArchive_drop hk).1 hj')⟩
    rw [hindex]
    simp only [Nat.add_sub_of_le (htail hends)]

/-- `zipfile` takes the last end record there is room for. -/
theorem endRecData_eq_ok (h : endRecData b = .ok r) :
    ∃ p, LastRecord b p ∧ endRecData64 b p = .ok r := by
  rw [endRecData] at h
  split_ifs at h with hsize hplain
  · refine ⟨_, ⟨?_, by omega, fun j hj hroom => by omega⟩, h⟩
    rw [endsPlainly, Bool.and_eq_true, decide_eq_true_eq] at hplain
    exact hplain.1
  · have hk : b.length - 1 <<< 16 - eocdSize ≤ b.length := by omega
    revert h
    generalize b.length - 1 <<< 16 - eocdSize = k at hk
    intro h
    have hlength : (b.drop k).length = b.length - k := List.length_drop
    split at h
    · cases h
    · rename_i start hstart
      split_ifs at h with hroom
      obtain ⟨-, hsigned, hlast⟩ := (rfind_eq_some_iff (by decide) hlength.ge).1 hstart
      unfold Occurs at hsigned hlast
      rw [slice_drop] at hsigned
      refine ⟨k + start, ⟨hsigned, by omega, fun j hj hjroom hj' => ?_⟩, h⟩
      refine hlast (j - k) (by omega) ?_ ?_
      · unfold eocdSize at hjroom
        show j - k + 4 ≤ _
        omega
      · rw [slice_drop, Nat.add_sub_of_le (by omega)]
        exact hj'

/-! ## Directories -/

theorem zip64Locator?_eq_some_iff {l : ℕ} :
    zip64Locator? b e = some l ↔
      e = l + zip64LocatorSize ∧ slice b l 4 = zip64LocatorSignature := by
  rw [zip64Locator?]
  split_ifs with h
  · constructor
    · intro hl
      cases hl
      exact ⟨by omega, h.2⟩
    · rintro ⟨rfl, -⟩
      rw [Nat.add_sub_cancel]
  · refine iff_of_false nofun ?_
    rintro ⟨rfl, hl⟩
    exact h ⟨by omega, by rwa [Nat.add_sub_cancel]⟩

/-- What `zipfile` reads by an end record : the ZIP64 record directly before the locator, or the end
record itself. -/
theorem endRecData64_eq_ok (h : endRecData64 b p = .ok r) :
    (zip64Locator? b p = none ∧ r.stop = p ∧ r.size = field b (p + 12) 4) ∨
      ∃ l, zip64Locator? b p = some l ∧
        (Occurs zip64EocdSignature b r.stop ∧ l = r.stop + zip64EocdSize ∧
            r.size = field b (r.stop + 40) 8 ∨
          ¬Occurs zip64EocdSignature b (l - zip64EocdSize) ∧ r.stop = p) := by
  rw [endRecData64] at h
  split_ifs at h with hroom hlocator hdisks hrecord hsignature
  · cases h
    refine .inl ⟨?_, rfl, rfl⟩
    rw [zip64Locator?, if_neg fun hl => absurd hl.1 (by omega)]
  · cases h
    refine .inl ⟨?_, rfl, rfl⟩
    rw [zip64Locator?, if_neg fun hl => hlocator hl.2]
  · cases h
    have hl : zip64Locator? b p = some (p - zip64LocatorSize) :=
      if_pos ⟨by omega, not_not.1 hlocator⟩
    exact .inr ⟨_, hl, .inr ⟨hsignature, rfl⟩⟩
  · cases h
    have hl : zip64Locator? b p = some (p - zip64LocatorSize) :=
      if_pos ⟨by omega, not_not.1 hlocator⟩
    have hstop : EndRecord.stop ⟨p, true, field b (p - zip64LocatorSize - zip64EocdSize + 40) 8⟩ =
        p - zip64LocatorSize - zip64EocdSize := by
      show p - (zip64EocdSize + zip64LocatorSize) = _
      omega
    refine .inr ⟨_, hl, .inl ⟨?_, ?_, ?_⟩⟩
    · rw [hstop]
      exact not_not.1 hsignature
    · rw [hstop]
      omega
    · rw [hstop]

/-- What prevalidation reads by an end record : the ZIP64 record that the locator names, which ends
where the locator begins, or the end record itself. -/
theorem locateDirectory_eq_ok {d : ZipDirectory} (h : locateDirectory b e = .ok d) :
    (zip64Locator? b e = none ∧ d.stop = e ∧ d.size = field b (e + 12) 4) ∨
      ∃ l, zip64Locator? b e = some l ∧ d.stop = field b (l + 8) 8 ∧
        Occurs zip64EocdSignature b d.stop ∧ 44 ≤ field b (d.stop + 4) 8 ∧
        d.stop + 12 + field b (d.stop + 4) 8 = l ∧ d.size = field b (d.stop + 40) 8 := by
  rw [locateDirectory] at h
  by_cases hdisk : field b (e + 4) 2 ≠ 0 ∨ field b (e + 6) 2 ≠ 0
  · rw [if_pos hdisk] at h
    cases h
  rw [if_neg hdisk] at h
  cases hl : zip64Locator? b e with
  | some l =>
    rw [hl] at h
    simp only at h
    refine .inr ⟨l, rfl, ?_⟩
    rw [zip64Directory] at h
    split_ifs at h with hdisks
    split at h
    · cases h
    · rename_i record hrecord
      rw [readArchiveRange] at hrecord
      split_ifs at hrecord with hsize
      cases hrecord
      split_ifs at h with hsignature hlayout hlegacy
      cases h
      simp only [not_or, not_not, Nat.not_lt] at hlayout
      rw [field_slice (show 4 + 8 ≤ zip64EocdSize by decide)] at hlayout
      refine ⟨rfl, ?_, hlayout.1, hlayout.2.1, ?_⟩
      · rw [not_not, slice_slice (show 0 + 4 ≤ zip64EocdSize by decide)] at hsignature
        exact hsignature
      · exact field_slice (by decide)
  | none =>
    rw [hl] at h
    simp only at h
    split_ifs at h with hsentinel hentries
    cases h
    exact .inl ⟨rfl, rfl, rfl⟩

/-! ## Entries -/

/-- The walk over a directory counts the entries that `zipfile` reads in it. -/
theorem readEntries_of_walkDirectory {α : Type} (decode : List UInt8 → Except BadZipFile α)
    {maxEntries offset size n m : ℕ} (total : ℕ) {infos : List α}
    (hwalk : walkDirectory b maxEntries (offset + size) (offset + total) n = .ok (offset + size, m))
    (hread : readEntries decode (slice b offset size) size total = .ok infos) :
    n + infos.length = m := by
  induction hk : size - total using Nat.strongRecOn generalizing total n infos with
  | ind k ih =>
    rw [walkDirectory] at hwalk
    rw [readEntries] at hread
    by_cases hlt : total < size
    · rw [if_pos (by omega)] at hwalk
      rw [if_pos hlt] at hread
      split_ifs at hwalk with hmax hheader hsignature hbounds
      have hentry : entrySize (slice b offset size) total = entrySize b (offset + total) := by
        have hle := centralDirectorySize_le_entrySize b (offset + total)
        unfold centralDirectorySize at hle
        unfold entrySize
        rw [field_slice (by omega), field_slice (by omega), field_slice (by omega)]
        simp only [Nat.add_assoc]
      split_ifs at hread with hheader' hsignature'
      split at hread
      · cases hread
      · split at hread
        · cases hread
        · rename_i infos' hinfos
          cases hread
          have hsize := centralDirectorySize_le_entrySize b (offset + total)
          unfold centralDirectorySize at hsize
          rw [hentry] at hinfos
          rw [Nat.add_assoc] at hwalk
          have := ih (size - (total + entrySize b (offset + total))) (by omega) _ hwalk hinfos rfl
          rw [List.length_cons]
          omega
    · rw [if_neg (by omega)] at hwalk
      rw [if_neg hlt] at hread
      cases hread
      exact (Prod.mk.inj (Except.ok.inj hwalk)).2

/-! ## Agreement -/

variable {limits : BackupTransportLimits} {d : ZipDirectory} {α : Type}
  {decode : List UInt8 → Except BadZipFile α} {z : Contents α}

theorem prevalidateZipDirectory_eq_ok (h : prevalidateZipDirectory b limits = .ok d) :
    ∃ e, findEndRecord b = .ok e ∧ locateDirectory b e = .ok d ∧ d.entries ≤ limits.maxEntries ∧
      d.size ≤ limits.maxCentralDirectoryBytes ∧ d.offset + d.size = d.stop ∧
      walkDirectory b limits.maxEntries d.stop d.offset 0 = .ok (d.stop, d.entries) := by
  rw [prevalidateZipDirectory] at h
  split at h
  · cases h
  rename_i e he
  split at h
  · cases h
  rename_i d' hd
  split_ifs at h with hentries hsize hsmall hlayout
  split at h
  · cases h
  rename_i cursor actualEntries hwalk
  split_ifs at h with hcount
  cases h
  obtain ⟨rfl, rfl⟩ : cursor = d.stop ∧ actualEntries = d.entries := by
    rwa [not_or, not_not, not_not] at hcount
  exact ⟨e, he, hd, Nat.le_of_not_lt hentries, Nat.le_of_not_lt hsize, not_not.1 hlayout, hwalk⟩

theorem contents_eq_ok (h : contents decode b = .ok z) :
    ∃ p r, LastRecord b p ∧ endRecData64 b p = .ok r ∧ z.size = r.size ∧
      z.start + z.size = r.stop ∧
      readEntries decode (slice b z.start z.size) z.size 0 = .ok z.infos := by
  rw [contents] at h
  split at h
  · cases h
  rename_i r hr
  obtain ⟨p, hp, hr⟩ := endRecData_eq_ok hr
  split_ifs at h with hstop
  simp only at h
  split at h
  · cases h
  rename_i infos hinfos
  cases h
  exact ⟨p, r, hp, hr, rfl, Nat.sub_add_cancel (Nat.le_of_not_lt hstop), hinfos⟩

/-- The comment of the last end record there is room for reaches to the end. -/
def LastRecordEnds (b : List UInt8) : Prop :=
  ∀ p, LastRecord b p → p + eocdSize + field b (p + 20) 2 = b.length

/-- The ZIP64 record before the last end record, if there is one, has no extensible data. -/
def Zip64RecordPlain (b : List UInt8) : Prop :=
  ∀ p l, LastRecord b p → zip64Locator? b p = some l → field b (field b (l + 8) 8 + 4) 8 = 44

/-- The directory that has been checked is the one that is read. -/
def SameDirectory (d : ZipDirectory) (z : Contents α) : Prop :=
  z.start = d.offset ∧ z.size = d.size

theorem zip64_ne_eocd (h : Occurs zip64EocdSignature b i) : ¬Signed b i := by
  intro h'
  have h64 := getElem?_of_occurs h (k := 2) (by decide)
  have heocd := getElem?_of_occurs h' (k := 2) (by decide)
  rw [h64] at heocd
  exact absurd heocd (by decide)

theorem EndsArchive.le_lastRecord (he : EndsArchive b e) (hp : LastRecord b p) : e ≤ p :=
  Nat.le_of_not_lt fun hlt => hp.2.2 e hlt (by have := he.2; omega) he.1

/-- A last record that reaches to the end is the one prevalidation takes. -/
theorem EndsArchive.eq_lastRecord (he : EndsArchive b e) (hlast : ∀ j, e < j → ¬EndsArchive b j)
    (hp : LastRecord b p) (hends : LastRecordEnds b) : e = p := by
  rcases Nat.lt_or_eq_of_le (he.le_lastRecord hp) with hlt | heq
  · exact absurd ⟨hp.1, hends p hp⟩ (hlast p hlt)
  · exact heq

/-- Directories that end at the same place belong to the same end record, and to the same ZIP64
record. -/
theorem stop_eq_iff (he : EndsArchive b e) (hlast : ∀ j, e < j → ¬EndsArchive b j)
    (hd : locateDirectory b e = .ok d) (hp : LastRecord b p) (hr : endRecData64 b p = .ok r) :
    r.stop = d.stop ↔ LastRecordEnds b ∧ Zip64RecordPlain b := by
  have hle : e ≤ p := he.le_lastRecord hp
  have hlocator : ∀ {i l}, zip64Locator? b i = some l → i = l + zip64LocatorSize := fun hl =>
    (zip64Locator?_eq_some_iff.1 hl).1
  unfold zip64LocatorSize at hlocator
  have hread := endRecData64_eq_ok hr
  unfold zip64EocdSize at hread
  constructor
  · intro hstop
    -- A record after `e` ends its directory after that of `e`.
    have heq : e = p := by
      by_contra hne
      rcases locateDirectory_eq_ok hd with ⟨-, hd, -⟩ | ⟨l, hl, -, -, hmin, hend, -⟩
      · rcases hread with ⟨-, hr, -⟩ | ⟨-, -, ⟨h64, -, -⟩ | ⟨-, hr⟩⟩
        · omega
        · rw [hstop, hd] at h64
          exact zip64_ne_eocd h64 he.1
        · omega
      · have := hlocator hl
        rcases hread with ⟨-, hr, -⟩ | ⟨l', hl', ⟨-, hr, -⟩ | ⟨-, hr⟩⟩
        · omega
        · have := hlocator hl'
          omega
        · omega
    subst heq
    refine ⟨fun p' hp' => hp'.unique hp ▸ he.2, fun p' l' hp' hl' => ?_⟩
    rw [hp'.unique hp] at hl'
    rcases locateDirectory_eq_ok hd with ⟨hnone, -, -⟩ | ⟨l, hl, hfield, -, hmin, hend, -⟩
    · rw [hnone] at hl'
      cases hl'
    · rw [hl] at hl'
      cases hl'
      have := hlocator hl
      rw [← hfield]
      rcases hread with ⟨hnone, -, -⟩ | ⟨l', hl', ⟨-, hr, -⟩ | ⟨-, hr⟩⟩
      · rw [hnone] at hl
        cases hl
      · rw [hl] at hl'
        cases hl'
        omega
      · omega
  · rintro ⟨hends, hplain⟩
    obtain rfl : e = p := he.eq_lastRecord hlast hp hends
    rcases locateDirectory_eq_ok hd with ⟨hnone, hd, -⟩ | ⟨l, hl, hfield, h64, -, hend, -⟩
    · rcases hread with ⟨-, hr, -⟩ | ⟨l', hl', -⟩
      · omega
      · rw [hnone] at hl'
        cases hl'
    · have hsize := hplain e l hp hl
      rw [← hfield] at hsize
      rcases hread with ⟨hnone, -, -⟩ | ⟨l', hl', ⟨-, hr, -⟩ | ⟨hno, -⟩⟩
      · rw [hnone] at hl
        cases hl
      · rw [hl] at hl'
        cases hl'
        omega
      · rw [hl] at hl'
        cases hl'
        rw [show l - 56 = d.stop by omega] at hno
        exact absurd h64 hno

/-- Where directories end at the same place, their sizes are the same. -/
theorem size_eq_of_stop_eq (hd : locateDirectory b e = .ok d) (hr : endRecData64 b e = .ok r)
    (hstop : r.stop = d.stop) : r.size = d.size := by
  have hlocator : ∀ {l}, zip64Locator? b e = some l → e = l + zip64LocatorSize := fun hl =>
    (zip64Locator?_eq_some_iff.1 hl).1
  unfold zip64LocatorSize at hlocator
  rcases locateDirectory_eq_ok hd with ⟨hnone, -, hsize⟩ | ⟨l, hl, -, -, hmin, hend, hsize⟩
  · rcases endRecData64_eq_ok hr with ⟨-, -, hr⟩ | ⟨l', hl', -⟩
    · rw [hr, hsize]
    · rw [hnone] at hl'
      cases hl'
  · rcases endRecData64_eq_ok hr with ⟨hnone, -, -⟩ | ⟨-, -, ⟨-, -, hr⟩ | ⟨-, hr⟩⟩
    · rw [hnone] at hl
      cases hl
    · rw [hr, hsize, hstop]
    · have := hlocator hl
      omega

/-- Of an accepted archive that `zipfile` opens, it reads the directory that has been checked, within
the limits, if and only if the last end record reaches to the end of the archive and its ZIP64
record has no extensible data. Then the record that it finds is for this directory also where it
refuses the archive in the end. -/
theorem prevalidateZipDirectory_iff (h : prevalidateZipDirectory b limits = .ok d) :
    (∀ z, contents decode b = .ok z →
      ((SameDirectory d z ∧ z.size ≤ limits.maxCentralDirectoryBytes ∧ z.infos.length = d.entries ∧
        z.infos.length ≤ limits.maxEntries) ↔ LastRecordEnds b ∧ Zip64RecordPlain b)) ∧
    (LastRecordEnds b ∧ Zip64RecordPlain b → ∀ r, endRecData b = .ok r →
      r.stop = d.offset + d.size ∧ r.size = d.size ∧ r.size ≤ limits.maxCentralDirectoryBytes) := by
  obtain ⟨e, he, hd, hentries, hsize, hlayout, hwalk⟩ := prevalidateZipDirectory_eq_ok h
  obtain ⟨hends, hlast⟩ := findEndRecord_eq_ok_iff.1 he
  have hrecord : LastRecordEnds b ∧ Zip64RecordPlain b → ∀ {p r}, LastRecord b p →
      endRecData64 b p = .ok r → r.stop = d.stop ∧ r.size = d.size := by
    intro hplain p r hp hr
    have hstop := (stop_eq_iff hends hlast hd hp hr).2 hplain
    obtain rfl : e = p := hends.eq_lastRecord hlast hp hplain.1
    exact ⟨hstop, size_eq_of_stop_eq hd hr hstop⟩
  refine ⟨fun z hz => ?_, fun hplain r hr => ?_⟩
  · obtain ⟨p, r, hp, hr, hzsize, hzstop, hinfos⟩ := contents_eq_ok hz
    constructor
    · rintro ⟨⟨hstart, hsize⟩, -⟩
      refine (stop_eq_iff hends hlast hd hp hr).1 ?_
      rw [← hzstop, hstart, hsize, hlayout]
    · intro hplain
      obtain ⟨hstop, hsame⟩ := hrecord hplain hp hr
      have hzd : z.size = d.size := hzsize.trans hsame
      have hstart : z.start = d.offset := by omega
      rw [hstart, hzd] at hinfos
      rw [← hlayout] at hwalk
      have hcount := readEntries_of_walkDirectory decode 0 hwalk hinfos
      rw [Nat.zero_add] at hcount
      exact ⟨⟨hstart, hzd⟩, by omega, hcount, by omega⟩
  · obtain ⟨p, hp, hr⟩ := endRecData_eq_ok hr
    obtain ⟨hstop, hsame⟩ := hrecord hplain hp hr
    exact ⟨hstop.trans hlayout.symm, hsame, hsame ▸ hsize⟩

/-- An entry without a name. -/
def emptyEntry : List UInt8 := centralDirectorySignature ++ List.replicate 42 0

/-- An empty archive, in whose comment two entries and another end record stand. -/
def secondEnd : List UInt8 := endRecord 0 0 0 114 ++ emptyEntry ++ emptyEntry ++ endRecord 2 22 92 1

/-- Room for one entry. -/
def oneEntry : BackupTransportLimits where
  maxUploadBytes := 1000
  maxUncompressedBytes := 1000
  maxResourceBytes := 1000
  maxEntries := 1
  maxCentralDirectoryBytes := 50
  maxCompressionRatio := 500
  chunkSize := 1000
  positive := by decide

theorem endsArchive_secondEnd :
    EndsArchive secondEnd 0 ∧ ∀ j < 115, 0 < j → ¬EndsArchive secondEnd j := by
  unfold EndsArchive Signed Occurs
  decide +kernel

/-- The bytes that the two readers look at. -/
theorem bytes_secondEnd :
    (field secondEnd 4 2 = 0 ∧ field secondEnd 6 2 = 0 ∧ zip64Locator? secondEnd 0 = none) ∧
    (field secondEnd 8 2 = 0 ∧ field secondEnd 10 2 = 0 ∧ field secondEnd 12 4 = 0 ∧
      field secondEnd 16 4 = 0) ∧
    (secondEnd.length = 136 ∧ endsPlainly secondEnd = false ∧
      rfind eocdSignature secondEnd 136 = some 114 ∧ field secondEnd 126 4 = 92 ∧
      slice secondEnd (114 - zip64LocatorSize) 4 ≠ zip64LocatorSignature) ∧
    slice secondEnd 22 92 = emptyEntry ++ emptyEntry ∧
    ∀ k ∈ [0, 46], entrySize (emptyEntry ++ emptyEntry) k = 46 ∧
      (slice (emptyEntry ++ emptyEntry) k centralDirectorySize).length = centralDirectorySize ∧
      slice (emptyEntry ++ emptyEntry) k 4 = centralDirectorySignature := by
  decide +kernel

theorem findEndRecord_secondEnd : findEndRecord secondEnd = .ok 0 := by
  refine findEndRecord_eq_ok_iff.2 ⟨endsArchive_secondEnd.1, fun j hj hends => ?_⟩
  have hlength : secondEnd.length = 136 := bytes_secondEnd.2.2.1.1
  have := hends.2
  unfold eocdSize at this
  exact endsArchive_secondEnd.2 j (by omega) hj hends

theorem locateDirectory_secondEnd : locateDirectory secondEnd 0 = .ok ⟨0, 0, 0, 0⟩ := by
  obtain ⟨⟨hdisk, hstart, hlocator⟩, hfields, -⟩ := bytes_secondEnd
  rw [locateDirectory, if_neg (not_or.2 ⟨not_not.2 hdisk, not_not.2 hstart⟩), hlocator]
  simp only [Nat.zero_add, hfields]
  rfl

theorem endRecData_secondEnd : endRecData secondEnd = .ok ⟨114, false, 92⟩ := by
  obtain ⟨-, -, ⟨hlength, hplain, hlast, hsize, hlocator⟩, -⟩ := bytes_secondEnd
  rw [endRecData, hlength, hplain]
  simp only [show 136 - 1 <<< 16 - eocdSize = 0 from rfl, List.drop_zero, Nat.sub_zero, hlast]
  rw [if_neg (by decide), if_neg (by decide), if_neg (by decide), endRecData64,
    if_neg (by decide), if_pos hlocator, hsize]

theorem readEntries_emptyEntries :
    readEntries (fun _ => .ok ()) (emptyEntry ++ emptyEntry) 92 0 = .ok [(), ()] := by
  obtain ⟨-, -, -, -, hentries⟩ := bytes_secondEnd
  obtain ⟨hsize₀, hlength₀, hmagic₀⟩ := hentries 0 (by decide)
  obtain ⟨hsize₁, hlength₁, hmagic₁⟩ := hentries 46 (by decide)
  rw [readEntries, if_pos (by decide), if_neg (not_not.2 hlength₀), if_neg (not_not.2 hmagic₀),
    hsize₀, readEntries, if_pos (by decide), if_neg (not_not.2 hlength₁),
    if_neg (not_not.2 hmagic₁), hsize₁, readEntries, if_neg (by decide)]

theorem accepted_secondEnd : prevalidateZipDirectory secondEnd oneEntry = .ok ⟨0, 0, 0, 0⟩ := by
  rw [prevalidateZipDirectory, findEndRecord_secondEnd]
  simp only [locateDirectory_secondEnd]
  rw [walkDirectory, if_neg (by decide)]
  rfl

theorem contents_secondEnd :
    contents (fun _ => .ok ()) secondEnd = .ok { start := 22, size := 92, infos := [(), ()] } := by
  have hslice : slice secondEnd 22 92 = emptyEntry ++ emptyEntry := bytes_secondEnd.2.2.2.1
  rw [contents, endRecData_secondEnd]
  simp only [EndRecord.stop, Bool.false_eq_true, ↓reduceIte, hslice, readEntries_emptyEntries]
  rfl

/-- Prevalidation checks an empty directory, and `zipfile` reads two entries. -/
theorem prevalidateZipDirectory_secondEnd :
    ∃ d, prevalidateZipDirectory secondEnd oneEntry = .ok d ∧
      ∃ z : Contents Unit, contents (fun _ => .ok ()) secondEnd = .ok z ∧ ¬SameDirectory d z ∧
        oneEntry.maxEntries < z.infos.length ∧ oneEntry.maxCentralDirectoryBytes < z.size :=
  ⟨_, accepted_secondEnd, _, contents_secondEnd, fun h => absurd h.1 (by decide), by decide,
    by decide⟩

theorem prevalidateZipDirectory_iff_secondEnd :
    (SameDirectory (⟨0, 0, 0, 0⟩ : ZipDirectory) (⟨22, 92, [(), ()]⟩ : Contents Unit) ∧
      92 ≤ 50 ∧ 2 = 0 ∧ 2 ≤ 1) ↔ LastRecordEnds secondEnd ∧ Zip64RecordPlain secondEnd :=
  (prevalidateZipDirectory_iff accepted_secondEnd).1 _ contents_secondEnd

end Backup

end PPBase
