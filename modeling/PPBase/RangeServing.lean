import PPBase.ByteRange
import PPBase.Text
import Mathlib.Tactic.IntervalCases

/-!
# Serving byte ranges

The range requests of the files API. `parseSingleByteRange` reads a range header and
`streamStorageFile` yields the bytes of the range from an opened file, which it closes at the end.

The parser drops white space around the unit and around the range, and reads decimal digits of
every script (`plain`). What it returns is the range of that text (`parseSingleByteRange_eq_ok`),
and a header with neither is its own plain text (`plain_of_spells`). The stream yields the bytes
of the range for every sequence of short reads (`streamStorageFile_eq`).
-/

namespace PPBase

/-! ## Texts -/

theorem Text.partition?_char {p : Char} {s a b : Text} :
    Text.partition? [p] s = some (a, b) ↔ s = a ++ p :: b ∧ p ∉ a := by
  induction s generalizing a with
  | nil => simp [Text.partition?, Text.afterPrefix?]
  | cons c s ih =>
    by_cases hc : p = c
    · subst hc
      simp only [Text.partition?, Text.afterPrefix?, if_true, Option.some.injEq, Prod.mk.injEq]
      cases a with
      | nil => simp
      | cons d a =>
        simp only [List.cons_append, List.cons.injEq, List.mem_cons, not_or]
        constructor
        · rintro ⟨h, -⟩
          cases h
        · rintro ⟨⟨rfl, -⟩, hne, -⟩
          exact absurd rfl hne
    · simp only [Text.partition?, Text.afterPrefix?, if_neg hc, Option.map_eq_some_iff,
      Prod.mk.injEq,
        Prod.exists]
      constructor
      · rintro ⟨a', b', h, rfl, rfl⟩
        obtain ⟨rfl, hn⟩ := ih.1 h
        simpa using ⟨hc, hn⟩
      · rintro ⟨h, hn⟩
        cases a with
        | nil => exact absurd (List.cons.inj h).1.symm hc
        | cons d a =>
          obtain ⟨rfl, hs⟩ := List.cons.inj h
          exact ⟨a, b, ih.2 ⟨hs, fun ha => hn (List.mem_cons_of_mem _ ha)⟩, rfl, rfl⟩

theorem Text.strip_eq_self {s : Text} (h : ∀ c ∈ s, Text.isSpace c = false) : s.strip = s := by
  have hdrop : ∀ t : Text, (∀ c ∈ t, Text.isSpace c = false) → t.dropWhile Text.isSpace = t := by
    intro t ht
    cases t with
    | nil => rfl
    | cons c t => rw [List.dropWhile_cons, ht c List.mem_cons_self, if_neg Bool.false_ne_true]
  rw [Text.strip, hdrop s h, hdrop _ fun c hc => h c (List.mem_reverse.1 hc), List.reverse_reverse]

namespace RangeServing

/-! ## Digits -/

/-- Why a header has no range : the texts of the two `ValueError`s of the parser, and the one that
`int` raises. -/
inductive RangeError where
  | malformed
  | notSatisfiable
  | invalidLiteral
deriving DecidableEq

/-- The zeros of the decimal digits of Unicode, each with the other nine after it. -/
def decimalZeros : List ℕ :=
  [0x30, 0x660, 0x6f0, 0x7c0, 0x966, 0x9e6, 0xa66, 0xae6, 0xb66, 0xbe6, 0xc66, 0xce6, 0xd66, 0xde6,
    0xe50, 0xed0, 0xf20, 0x1040, 0x1090, 0x17e0, 0x1810, 0x1946, 0x19d0, 0x1a80, 0x1a90, 0x1b50,
    0x1bb0, 0x1c40, 0x1c50, 0xa620, 0xa8d0, 0xa900, 0xa9d0, 0xa9f0, 0xaa50, 0xabf0, 0xff10, 0x104a0,
    0x10d30, 0x11066, 0x110f0, 0x11136, 0x111d0, 0x112f0, 0x11450, 0x114d0, 0x11650, 0x116c0,
    0x11730, 0x118e0, 0x11950, 0x11c50, 0x11d50, 0x11da0, 0x16a60, 0x16ac0, 0x16b50, 0x1d7ce,
    0x1d7d8, 0x1d7e2, 0x1d7ec, 0x1d7f6, 0x1e140, 0x1e2f0, 0x1e950, 0x1fbf0]

/-- The digits of Unicode that are not decimal ones, such as superscripts. -/
def otherDigits : List (ℕ × ℕ) :=
  [(0xb2, 0xb3), (0xb9, 0xb9), (0x1369, 0x1371), (0x19da, 0x19da), (0x2070, 0x2070),
    (0x2074, 0x2079), (0x2080, 0x2089), (0x2460, 0x2468), (0x2474, 0x247c), (0x2488, 0x2490),
    (0x24ea, 0x24ea), (0x24f5, 0x24fd), (0x24ff, 0x24ff), (0x2776, 0x277e), (0x2780, 0x2788),
    (0x278a, 0x2792), (0x10a40, 0x10a43), (0x10e60, 0x10e68), (0x11052, 0x1105a),
    (0x1f100, 0x1f10a)]

/-- The value of a decimal digit. -/
def decimal? (c : Char) : Option ℕ :=
  (decimalZeros.find? fun z => z ≤ c.toNat && c.toNat < z + 10).map (c.toNat - ·)

/-- `t.isdigit()` -/
def isdigit (t : Text) : Bool :=
  t ≠ [] && t.all fun c =>
    (decimal? c).isSome || otherDigits.any fun r => r.1 ≤ c.toNat && c.toNat ≤ r.2

/-- `int(t)` of a text of digits, of which Python reads at most 4300. -/
def int (t : Text) : Except RangeError ℕ :=
  match t.mapM decimal? with
  | some ds => if 4300 < t.length then .error .invalidLiteral else .ok (ds.foldl (10 * · + ·) 0)
  | none => .error .invalidLiteral

/-- The ASCII digit for a decimal one. -/
def asciiDigit (c : Char) : Char :=
  match decimal? c with
  | some d => Nat.digitChar d
  | none => c

variable {c : Char} {rawHeader : Text} {spec : ByteRangeSpec}

theorem decimal?_lt {d : ℕ} (h : decimal? c = some d) : d < 10 := by
  obtain ⟨z, hz, rfl⟩ := Option.map_eq_some_iff.1 h
  have hin := List.find?_some hz
  simp only [Bool.and_eq_true, decide_eq_true_eq] at hin
  omega

theorem decimal?_of_isDigit (h : c.isDigit = true) : decimal? c = some (c.toNat - 48) := by
  have hval : c.toNat = c.val.toNat := rfl
  simp only [Char.isDigit, Bool.and_eq_true, decide_eq_true_eq, ge_iff_le, UInt32.le_iff_toNat_le]
    at h
  have hlow : 48 ≤ c.toNat := h.1
  have hhigh : c.toNat ≤ 57 := h.2
  rw [decimal?, decimalZeros, List.find?_cons_of_pos]
  · rfl
  · simp only [Bool.and_eq_true, decide_eq_true_eq]
    omega

theorem asciiDigit_of_isDigit (h : c.isDigit = true) : asciiDigit c = c := by
  rw [asciiDigit, decimal?_of_isDigit h]
  simp only [Char.isDigit, Bool.and_eq_true, decide_eq_true_eq, ge_iff_le, UInt32.le_iff_toNat_le]
    at h
  have hlow : 48 ≤ c.toNat := h.1
  have hhigh : c.toNat ≤ 57 := h.2
  rw [← Char.ofNat_toNat c]
  interval_cases c.toNat <;> rfl

theorem asciiDigit_minus : asciiDigit '-' = '-' := by decide

/-- The value of a text of decimal digits. -/
theorem foldl_of_mapM {t : Text} {ds : List ℕ} (h : t.mapM decimal? = some ds) (k : ℕ) :
    (∀ c ∈ t.map asciiDigit, c.isDigit = true) ∧
      Nat.ofDigitChars 10 (t.map asciiDigit) k = ds.foldl (10 * · + ·) k := by
  induction t generalizing ds k with
  | nil =>
    obtain rfl : ds = [] := by simpa using h.symm
    simp
  | cons c t ih =>
    simp only [List.mapM_cons, Option.bind_eq_bind, Option.bind_eq_some_iff, Option.pure_def,
      Option.some.injEq] at h
    obtain ⟨d, hd, ds, hds, rfl⟩ := h
    have hlt := decimal?_lt hd
    have hc : asciiDigit c = Nat.digitChar d := by rw [asciiDigit, hd]
    obtain ⟨hall, hval⟩ := ih hds (10 * k + d)
    rw [List.map_cons, hc]
    refine ⟨fun c' hc' => ?_, ?_⟩
    · rcases List.mem_cons.1 hc' with rfl | hc'
      · rw [Nat.isDigit_digitChar, decide_eq_true hlt]
      · exact hall c' hc'
    · rw [Nat.ofDigitChars_cons_digitChar_of_lt_ten hlt, hval, List.foldl_cons]

/-- A text of digits that `int` reads as `k`. -/
def Reads (t : Text) (k : ℕ) : Prop := isdigit t = true ∧ int t = .ok k

theorem Reads.digits {t : Text} {k : ℕ} (h : Reads t k) :
    IsDigits (t.map asciiDigit) ∧ digitsValue (t.map asciiDigit) = k := by
  obtain ⟨hdigit, hint⟩ := h
  rw [isdigit, Bool.and_eq_true, decide_eq_true_eq] at hdigit
  rw [int] at hint
  cases hds : t.mapM decimal? with
  | none => rw [hds] at hint; exact nomatch hint
  | some ds =>
    obtain ⟨hall, hval⟩ := foldl_of_mapM hds 0
    simp only [hds] at hint
    split_ifs at hint
    refine ⟨⟨by simpa using hdigit.1, hall⟩, ?_⟩
    rw [digitsValue, hval]
    exact Except.ok.inj hint

theorem map_asciiDigit {d : Text} (h : ∀ c ∈ d, c.isDigit = true) : d.map asciiDigit = d := by
  rw [List.map_congr_left fun c hc => asciiDigit_of_isDigit (h c hc), List.map_id']

theorem reads_of_isDigits {d : Text} (h : IsDigits d) (hlen : d.length ≤ 4300) :
    Reads d (digitsValue d) := by
  have hsome : ∀ c ∈ d, decimal? c = some (c.toNat - 48) :=
    fun c hc => decimal?_of_isDigit (h.2 c hc)
  have hds : d.mapM decimal? = some (d.map (·.toNat - 48)) := by
    clear h hlen
    induction d with
    | nil => rfl
    | cons c d ih =>
      rw [List.mapM_cons, hsome c List.mem_cons_self,
        ih fun c' hc' => hsome c' (List.mem_cons_of_mem _ hc')]
      rfl
  constructor
  · rw [isdigit, Bool.and_eq_true, decide_eq_true_eq, List.all_eq_true]
    refine ⟨h.1, fun c hc => ?_⟩
    rw [hsome c hc]
    rfl
  · have hval := (foldl_of_mapM hds 0).2
    rw [map_asciiDigit h.2] at hval
    simp only [int, hds, if_neg (Nat.not_lt.2 hlen)]
    rw [digitsValue, hval]

/-! ## The parser -/

/-- The last `int(end_raw)` bytes. -/
def suffixRange (endRaw : Text) (totalSize : ℕ) : Except RangeError (ℕ × ℕ) := do
  if isdigit endRaw = false then
    .error .malformed
  else
    let suffixLength ← int endRaw
    if suffixLength = 0 then
      .error .notSatisfiable
    else
      return (totalSize - suffixLength, totalSize - 1)

/-- The bytes from `int(start_raw)` on, at most up to `int(end_raw)`. -/
def startRange (startRaw endRaw : Text) (totalSize : ℕ) : Except RangeError (ℕ × ℕ) := do
  if isdigit startRaw = false ∨ (endRaw ≠ [] ∧ isdigit endRaw = false) then
    .error .malformed
  else
    let start ← int startRaw
    if totalSize ≤ start then
      .error .notSatisfiable
    else
      let last ← if endRaw = [] then .ok (totalSize - 1) else int endRaw
      if min last (totalSize - 1) < start then
        .error .notSatisfiable
      else
        return (start, min last (totalSize - 1))

/-- `_parse_single_byte_range`. Only the ASCII letters of `bytes` have it as their lower case. -/
def parseSingleByteRange (rawHeader : Text) (totalSize : ℕ) : Except RangeError (ℕ × ℕ) :=
  if totalSize = 0 then .error .notSatisfiable
  else
    match Text.partition? ['='] rawHeader with
    | none => .error .malformed
    | some (units, value) =>
      if units.strip.lower ≠ ['b', 'y', 't', 'e', 's'] ∨ ',' ∈ value then .error .malformed
      else
        match Text.partition? ['-'] value.strip with
        | none => .error .malformed
        | some (startRaw, endRaw) =>
          if startRaw = [] then suffixRange endRaw totalSize
          else startRange startRaw endRaw totalSize

variable {n s e : ℕ}

theorem suffixRange_eq_ok {endRaw : Text} (hn : 0 < n) : suffixRange endRaw n = .ok (s, e) ↔
    ∃ k, Reads endRaw k ∧ (ByteRangeSpec.suffix k).Assigns n s e := by
  rw [suffixRange]
  by_cases hdigit : isdigit endRaw = false
  · simp [hdigit, Reads]
  rw [if_neg hdigit, Bool.not_eq_false] at *
  cases hint : int endRaw with
  | error err => simp [Reads, hint, bind, Except.bind]
  | ok k =>
    simp only [Reads, hdigit, hint, true_and, Except.ok.injEq, exists_eq_left',
      ByteRangeSpec.suffix_assigns, bind, Except.bind]
    split_ifs with hk
    · simp only [false_iff]
      omega
    · simp only [pure, Except.pure, Except.ok.injEq, Prod.mk.injEq]
      omega

theorem startRange_eq_ok {startRaw endRaw : Text} : startRange startRaw endRaw n = .ok (s, e) ↔
    ∃ first, Reads startRaw first ∧
      (endRaw = [] ∧ (ByteRangeSpec.range first none).Assigns n s e ∨
        ∃ last, Reads endRaw last ∧ (ByteRangeSpec.range first (some last)).Assigns n s e) := by
  have hnil : ∀ k, ¬Reads [] k := fun k h => nomatch h.1
  rw [startRange]
  by_cases hdigit : isdigit startRaw = false
  · simp [hdigit, Reads]
  cases hint : int startRaw with
  | error err =>
    simp only [Reads, hint, reduceCtorEq, and_false, false_and, exists_false, iff_false]
    split_ifs <;> exact nofun
  | ok first =>
    rw [Bool.not_eq_false] at hdigit
    simp only [Reads, hdigit, hint, true_and, Except.ok.injEq, exists_eq_left', false_or,
      Bool.true_eq_false, ByteRangeSpec.from_assigns, ByteRangeSpec.bounded_assigns, bind,
      Except.bind, pure, Except.pure]
    by_cases hend : endRaw = []
    · subst hend
      simp only [ne_eq, not_true_eq_false, false_and, ↓reduceIte, true_and]
      have hfalse : isdigit [] = false := rfl
      simp only [hfalse, Bool.false_eq_true, false_and, exists_false, or_false]
      split_ifs <;> simp only [false_iff, Except.ok.injEq, Prod.mk.injEq] <;> omega
    · simp only [hend, ne_eq, not_false_eq_true, true_and, ↓reduceIte, false_and, false_or]
      by_cases hdigit' : isdigit endRaw = false
      · simp [hdigit']
      rw [Bool.not_eq_false] at hdigit'
      cases hint' : int endRaw with
      | error err =>
        simp only [hdigit', Bool.true_eq_false, ↓reduceIte, reduceCtorEq, and_false, false_and,
          exists_false, iff_false]
        split_ifs <;> exact nofun
      | ok last =>
        simp only [hdigit', Bool.true_eq_false, ↓reduceIte, true_and, Except.ok.injEq,
          exists_eq_left']
        split_ifs <;> simp only [false_iff, Except.ok.injEq, Prod.mk.injEq] <;> omega

/-- What the parser returns is the range of digits around the minus sign. -/
theorem parseSingleByteRange_eq_ok :
    parseSingleByteRange rawHeader n = .ok (s, e) ↔
      0 < n ∧ ∃ units value startRaw endRaw,
        Text.partition? ['='] rawHeader = some (units, value) ∧
        units.strip.lower = ['b', 'y', 't', 'e', 's'] ∧ ',' ∉ value ∧
        Text.partition? ['-'] value.strip = some (startRaw, endRaw) ∧
        (startRaw = [] ∧ suffixRange endRaw n = .ok (s, e) ∨
          startRaw ≠ [] ∧ startRange startRaw endRaw n = .ok (s, e)) := by
  rw [parseSingleByteRange]
  by_cases hn : n = 0
  · simp [hn]
  rw [if_neg hn, and_iff_right (Nat.pos_of_ne_zero hn)]
  cases hunits : Text.partition? ['='] rawHeader with
  | none => simp
  | some parts =>
    obtain ⟨units, value⟩ := parts
    simp only [Option.some.injEq, Prod.mk.injEq]
    by_cases hbad : units.strip.lower ≠ ['b', 'y', 't', 'e', 's'] ∨ ',' ∈ value
    · rw [if_pos hbad]
      refine iff_of_false nofun ?_
      rintro ⟨_, _, _, _, ⟨rfl, rfl⟩, hunit, hcomma, -⟩
      exact hbad.elim (· hunit) hcomma
    rw [if_neg hbad]
    rw [not_or, not_not] at hbad
    cases hdash : Text.partition? ['-'] value.strip with
    | none =>
      refine iff_of_false nofun ?_
      rintro ⟨_, _, _, _, ⟨rfl, rfl⟩, -, -, h, -⟩
      exact nomatch hdash.symm.trans h
    | some bounds =>
      obtain ⟨startRaw, endRaw⟩ := bounds
      constructor
      · intro h
        refine ⟨units, value, startRaw, endRaw, ⟨rfl, rfl⟩, hbad.1, hbad.2, hdash, ?_⟩
        by_cases hstart : startRaw = []
        · simp only [if_pos hstart] at h
          exact .inl ⟨hstart, h⟩
        · simp only [if_neg hstart] at h
          exact .inr ⟨hstart, h⟩
      · rintro ⟨_, _, _, _, ⟨rfl, rfl⟩, -, -, h, hrange⟩
        cases hdash.symm.trans h
        rcases hrange with ⟨hstart, hrange⟩ | ⟨hstart, hrange⟩
        · simpa only [if_pos hstart] using hrange
        · simpa only [if_neg hstart] using hrange

/-! ## Plain headers -/

/-- A header without white space around the unit and around the range, and with ASCII digits. -/
def plain (rawHeader : Text) : Text :=
  match Text.partition? ['='] rawHeader with
  | some (units, value) => units.strip ++ '=' :: value.strip.map asciiDigit
  | none => rawHeader

/-- The range that is returned is the one that the plain header spells. -/
theorem spells_plain (h : parseSingleByteRange rawHeader n = .ok (s, e)) :
    ∃ spec, Spells (plain rawHeader) spec ∧ spec.Assigns n s e := by
  obtain ⟨hn, units, value, startRaw, endRaw, hheader, hunit, -, hvalue, hrange⟩ :=
    parseSingleByteRange_eq_ok.1 h
  have hplain : plain rawHeader =
      units.strip ++ '=' :: (startRaw.map asciiDigit ++ '-' :: endRaw.map asciiDigit) := by
    simp only [plain, hheader, (Text.partition?_char.1 hvalue).1, List.map_append, List.map_cons,
      asciiDigit_minus]
  rw [hplain]
  rcases hrange with ⟨rfl, hrange⟩ | ⟨-, hrange⟩
  · obtain ⟨k, hk, hassigns⟩ := (suffixRange_eq_ok hn).1 hrange
    obtain ⟨hdigits, rfl⟩ := hk.digits
    exact ⟨_, .suffix hunit hdigits, hassigns⟩
  · obtain ⟨first, hfirst, ⟨rfl, hassigns⟩ | ⟨last, hlast, hassigns⟩⟩ :=
      startRange_eq_ok.1 hrange
    · obtain ⟨hdigits, rfl⟩ := hfirst.digits
      exact ⟨_, .openEnd hunit hdigits, hassigns⟩
    · obtain ⟨hdigits, rfl⟩ := hfirst.digits
      obtain ⟨hdigits', rfl⟩ := hlast.digits
      have hle := (ByteRangeSpec.bounded_assigns.1 hassigns).2.1
      exact ⟨_, .bounded hunit hdigits hdigits' hle, hassigns⟩

theorem isAlpha_of_unit {unit : Text} (h : unit.map Char.toLower = ['b', 'y', 't', 'e', 's']) :
    ∀ c ∈ unit, c.isAlpha = true := by
  intro c hc
  have hmem : c.toLower ∈ ['b', 'y', 't', 'e', 's'] := h ▸ List.mem_map_of_mem hc
  have hletters : ∀ d ∈ ['b', 'y', 't', 'e', 's'], 97 ≤ d.toNat ∧ d.toNat ≤ 122 := by decide
  have hlow := hletters _ hmem
  rw [Text.toNat_toLower] at hlow
  rw [Text.isAlpha_iff]
  split_ifs at hlow <;> omega

theorem isSpace_of_isIdentChar (h : Text.isIdentChar c = true) : Text.isSpace c = false :=
  Bool.not_eq_true _ ▸ fun hspace =>
    Text.not_printable_of_isSpace hspace (Text.printable_of_isIdentChar h)

/-- The texts that the parser takes a header of the RFC apart into. -/
theorem partition_of_spells (h : Spells rawHeader spec) :
    ∃ units value startRaw endRaw, Text.partition? ['='] rawHeader = some (units, value) ∧
      units.strip = units ∧ value.strip = value ∧ units.lower = ['b', 'y', 't', 'e', 's'] ∧
      value = startRaw ++ '-' :: endRaw ∧ Text.partition? ['-'] value = some (startRaw, endRaw) ∧
      (startRaw = [] ∨ IsDigits startRaw) ∧ (endRaw = [] ∨ IsDigits endRaw) ∧
      (startRaw = [] → endRaw ≠ []) ∧ spec = specOf startRaw endRaw := by
  obtain ⟨unit, startRaw, endRaw, rfl, hunit, hstart, hend, hne, rfl⟩ := h.parts
  have halpha := isAlpha_of_unit hunit
  have hdigit : ∀ t : Text, t = [] ∨ IsDigits t → ∀ c ∈ t, c.isDigit = true := by
    rintro t (rfl | ht) c hc
    · cases hc
    · exact ht.2 c hc
  refine ⟨unit, startRaw ++ '-' :: endRaw, startRaw, endRaw, ?_, ?_, ?_, hunit, rfl, ?_, hstart,
    hend, hne, rfl⟩
  · exact Text.partition?_char.2 ⟨rfl, fun hmem => absurd (halpha _ hmem) (by decide)⟩
  · refine Text.strip_eq_self fun c hc => isSpace_of_isIdentChar ?_
    rw [Text.isIdentChar, Text.isIdentStart, halpha c hc]
    rfl
  · refine Text.strip_eq_self fun c hc => ?_
    have hident : ∀ c : Char, c.isDigit = true → Text.isSpace c = false := fun c hd =>
      isSpace_of_isIdentChar (by rw [Text.isIdentChar, hd, Bool.or_true])
    rcases List.mem_append.1 hc with hc | hc
    · exact hident c (hdigit _ hstart c hc)
    rcases List.mem_cons.1 hc with rfl | hc
    · rfl
    · exact hident c (hdigit _ hend c hc)
  · exact Text.partition?_char.2 ⟨rfl, fun hmem => absurd (hdigit _ hstart _ hmem) (by decide)⟩

/-- A header spells one range. -/
theorem spells_unique {spec' : ByteRangeSpec} (h : Spells rawHeader spec)
    (h' : Spells rawHeader spec') : spec = spec' := by
  obtain ⟨units, value, startRaw, endRaw, hunits, -, -, -, -, hvalue, -, -, -, rfl⟩ :=
    partition_of_spells h
  obtain ⟨units', value', startRaw', endRaw', hunits', -, -, -, -, hvalue', -, -, -, rfl⟩ :=
    partition_of_spells h'
  cases hunits.symm.trans hunits'
  cases hvalue.symm.trans hvalue'
  rfl

/-- A header of the RFC is its own plain header. -/
theorem plain_of_spells (h : Spells rawHeader spec) : plain rawHeader = rawHeader := by
  obtain ⟨units, value, startRaw, endRaw, hunits, hstrip, hstrip', -, rfl, -, hstart, hend, -, -⟩ :=
    partition_of_spells h
  have hmap : ∀ t : Text, t = [] ∨ IsDigits t → t.map asciiDigit = t := by
    rintro t (rfl | ht)
    · rfl
    · exact map_asciiDigit ht.2
  simp only [plain, hunits, hstrip, hstrip', List.map_append, List.map_cons, hmap _ hstart,
    hmap _ hend, asciiDigit_minus]
  exact (Text.partition?_char.1 hunits).1.symm

/-- On headers of the RFC, the parser returns the range that the header assigns, if any. -/
theorem parseSingleByteRange_of_spells (h : Spells rawHeader spec) (hlen : rawHeader.length ≤ 4300) :
    parseSingleByteRange rawHeader n = .ok (s, e) ↔ spec.Assigns n s e := by
  constructor
  · intro hok
    obtain ⟨spec', hspec', hassigns⟩ := spells_plain hok
    rw [plain_of_spells h] at hspec'
    rwa [spells_unique h hspec']
  · intro hassigns
    obtain ⟨units, value, startRaw, endRaw, hunits, hstrip, hstrip', hlower, rfl, hvalue, hstart,
      hend, hne, rfl⟩ := partition_of_spells h
    have hn : 0 < n := Nat.zero_lt_of_lt hassigns.lt
    have hsplit := congrArg List.length (Text.partition?_char.1 hunits).1
    simp only [List.length_append, List.length_cons] at hsplit
    have hreads : ∀ t : Text, t ≠ [] → (t = [] ∨ IsDigits t) → t.length ≤ 4300 →
        Reads t (digitsValue t) := fun t ht hdigits hle =>
      reads_of_isDigits (hdigits.resolve_left ht) hle
    refine parseSingleByteRange_eq_ok.2 ⟨hn, units, _, startRaw, endRaw, hunits,
      by rw [hstrip, hlower], ?_, by rw [hstrip', hvalue], ?_⟩
    · have hcomma : ∀ t : Text, t = [] ∨ IsDigits t → ',' ∉ t := by
        rintro t (rfl | ht) hc
        · exact nomatch hc
        · exact nomatch ht.2 _ hc
      rw [List.mem_append, List.mem_cons]
      rintro (hc | hc | hc)
      · exact hcomma _ hstart hc
      · exact nomatch hc
      · exact hcomma _ hend hc
    · by_cases hnil : startRaw = []
      · rw [specOf, if_pos hnil] at hassigns
        exact .inl ⟨hnil, (suffixRange_eq_ok hn).2
          ⟨_, hreads _ (hne hnil) hend (by omega), hassigns⟩⟩
      · rw [specOf, if_neg hnil] at hassigns
        refine .inr ⟨hnil, startRange_eq_ok.2 ⟨_, hreads _ hnil hstart (by omega), ?_⟩⟩
        by_cases hnil' : endRaw = []
        · rw [if_pos hnil'] at hassigns
          exact .inl ⟨hnil', hassigns⟩
        · rw [if_neg hnil'] at hassigns
          exact .inr ⟨_, hreads _ hnil' hend (by omega), hassigns⟩

theorem rfc_range_parsed :
    parseSingleByteRange ['b', 'y', 't', 'e', 's', '=', '1', '-', '2'] 4 = .ok (1, 2) := by
  have h := @Spells.bounded ['b', 'y', 't', 'e', 's'] ['1'] ['2'] rfl ⟨nofun, by decide⟩
    ⟨nofun, by decide⟩ (by decide)
  have hfirst : digitsValue ['1'] = 1 := by decide
  have hlast : digitsValue ['2'] = 2 := by decide
  rw [hfirst, hlast] at h
  refine (parseSingleByteRange_of_spells h (by decide)).2 ⟨by decide, fun i => ?_⟩
  simp only [ByteRangeSpec.Selects, Option.mem_def, Option.some.injEq, forall_eq']
  omega

/-! ## Streaming -/

/-- What the generator does : it yields bytes, and closes the stream. -/
inductive Event where
  | yield (payload : List UInt8)
  | close

/-- The loop over `start`, which reads up to `start` bytes and drops them : the stream after them,
or nothing if it ends before. -/
def skip (chunkSize : ℕ) (r : ByteStream) (start : ℕ) : Option ByteStream :=
  if start = 0 then some r
  else
    if _hskip : r.chunk (min chunkSize start) = [] then none
    else skip chunkSize (r.advance (min chunkSize start))
      (start - (r.chunk (min chunkSize start)).length)
termination_by start
decreasing_by
  have := List.length_pos_iff.2 _hskip
  omega

/-- `read_size` -/
def readSize (chunkSize : ℕ) : Option ℕ → ℕ
  | none => chunkSize
  | some remaining => min chunkSize remaining

/-- The loop over `remaining` : the payloads up to the length, or to the end of the content. -/
def payloads (chunkSize : ℕ) (r : ByteStream) (remaining : Option ℕ) : List (List UInt8) :=
  if remaining = some 0 then []
  else
    if _hread : r.chunk (readSize chunkSize remaining) = [] then []
    else r.chunk (readSize chunkSize remaining) ::
      payloads chunkSize (r.advance (readSize chunkSize remaining))
        (remaining.map (· - (r.chunk (readSize chunkSize remaining)).length))
termination_by r.rest.length
decreasing_by
  have := List.length_pos_iff.2 _hread
  have := r.length_rest_advance (readSize chunkSize remaining)
  omega

/-- The default of `chunk_size`. -/
def defaultChunkSize : ℕ := 64 * 1024

/-- `_stream_storage_file` -/
def streamStorageFile (chunkSize : ℕ) (opened : ByteStream) (start : ℕ) (length : Option ℕ) :
    List Event :=
  let afterSeek := if 0 < start ∧ opened.seek = .works then ({ opened with pos := start }, 0)
    else (opened, start)
  match skip chunkSize afterSeek.1 afterSeek.2 with
  | none => [.close]
  | some r => (payloads chunkSize r length).map .yield ++ [.close]

variable {chunkSize : ℕ}

theorem skip_eq (hchunk : 0 < chunkSize) {r : ByteStream} {start : ℕ}
    (h : start ≤ r.rest.length) : ∃ r', skip chunkSize r start = some r' ∧
      r'.rest = r.rest.drop start := by
  induction start using Nat.strong_induction_on generalizing r with
  | _ start ih =>
    rw [skip]
    by_cases hstart : start = 0
    · subst hstart
      exact ⟨r, by rw [if_pos rfl], rfl⟩
    have hread : r.chunk (min chunkSize start) ≠ [] := by
      rw [ne_eq, ByteStream.chunk_eq_nil (by omega), ← List.length_eq_zero_iff]
      omega
    have hpos := List.length_pos_iff.2 hread
    have hle := r.length_chunk_le (min chunkSize start)
    have hrest := r.length_rest_advance (min chunkSize start)
    obtain ⟨r', hskip, hr'⟩ := ih (start - (r.chunk (min chunkSize start)).length) (by omega)
      (r := r.advance (min chunkSize start)) (by omega)
    refine ⟨r', by rw [if_neg hstart, dif_neg hread, hskip], ?_⟩
    have hnil : (r.chunk (min chunkSize start)).drop start = [] :=
      List.drop_eq_nil_of_le (hle.trans (min_le_right _ _))
    rw [hr', ← r.chunk_append (min chunkSize start), List.drop_append, hnil, List.nil_append]

/-- The payloads are the bytes that are left, up to the length, in pieces of at most the chunk
size. -/
theorem payloads_eq (hchunk : 0 < chunkSize) (r : ByteStream) (remaining : Option ℕ) :
    (payloads chunkSize r remaining).flatten =
        r.rest.take (remaining.getD r.rest.length) ∧
      ∀ p ∈ payloads chunkSize r remaining, p ≠ [] ∧ p.length ≤ chunkSize := by
  induction hk : r.rest.length using Nat.strong_induction_on generalizing r remaining with
  | _ k ih =>
    rw [payloads]
    by_cases hdone : remaining = some 0
    · subst hdone
      simp
    rw [if_neg hdone]
    have hsize : 0 < readSize chunkSize remaining := by
      cases remaining with
      | none => exact hchunk
      | some m =>
        have : m ≠ 0 := fun h => hdone (h ▸ rfl)
        rw [readSize]
        omega
    have hsize' : readSize chunkSize remaining ≤ chunkSize := by
      cases remaining with
      | none => exact le_refl _
      | some m => exact min_le_left _ _
    have hle := r.length_chunk_le (readSize chunkSize remaining)
    have hrest := r.length_rest_advance (readSize chunkSize remaining)
    have happend := r.chunk_append (readSize chunkSize remaining)
    by_cases hread : r.chunk (readSize chunkSize remaining) = []
    · rw [dif_pos hread]
      rw [(ByteStream.chunk_eq_nil hsize).1 hread]
      simp
    rw [dif_neg hread]
    have hpos := List.length_pos_iff.2 hread
    obtain ⟨hflat, hpieces⟩ := ih _ (by omega) (r.advance (readSize chunkSize remaining))
      (remaining.map (· - (r.chunk (readSize chunkSize remaining)).length)) rfl
    refine ⟨?_, ?_⟩
    · rw [List.flatten_cons, hflat]
      cases remaining with
      | none =>
        rw [Option.map_none, Option.getD_none, List.take_length, happend, Option.getD_none, ← hk,
          List.take_length]
      | some m =>
        have hm : (r.chunk (readSize chunkSize (some m))).length ≤ m := by
          rw [readSize] at hle ⊢
          omega
        rw [Option.map_some, Option.getD_some, Option.getD_some]
        conv_rhs => rw [← happend, List.take_append, List.take_of_length_le hm]
    · intro p hp
      rcases List.mem_cons.1 hp with rfl | hp
      · exact ⟨hread, by omega⟩
      · exact hpieces p hp

/-- The stream of a part of a content yields that part and then closes it. -/
theorem streamStorageFile_eq (hchunk : 0 < chunkSize) (data : List UInt8) (seek : Seek)
    (short : ℕ → ℕ) {start : ℕ} (length : ℕ) (h : start ≤ data.length) :
    ∃ ps : List (List UInt8),
      streamStorageFile chunkSize (.opened data seek short) start (some length) =
        ps.map .yield ++ [.close] ∧
      ps.flatten = (data.drop start).take length ∧ ∀ p ∈ ps, p ≠ [] ∧ p.length ≤ chunkSize := by
  have hskip : ∃ r, (let afterSeek :=
    if 0 < start ∧ (ByteStream.opened data seek short).seek = .works
      then ({ ByteStream.opened data seek short with pos := start }, 0)
      else (ByteStream.opened data seek short, start)
      skip chunkSize afterSeek.1 afterSeek.2) = some r ∧ r.rest = data.drop start := by
    by_cases hseek : 0 < start ∧ (ByteStream.opened data seek short).seek = .works
    · simp only [if_pos hseek]
      rw [skip, if_pos rfl]
      exact ⟨_, rfl, rfl⟩
    · simp only [if_neg hseek]
      exact skip_eq hchunk h
  obtain ⟨r, hr, hrest⟩ := hskip
  obtain ⟨hflat, hpieces⟩ := payloads_eq hchunk r (some length)
  rw [hrest, Option.getD_some] at hflat
  refine ⟨payloads chunkSize r (some length), ?_, hflat, hpieces⟩
  rw [streamStorageFile]
  simp only at hr ⊢
  rw [hr]

/-- A range that the parser returns lies in the content and is the range that the RFC assigns to
the plain header, and the stream yields its bytes and closes. -/
theorem serves_range {s e : ℕ} (data : List UInt8) (seek : Seek) (short : ℕ → ℕ)
    (h : parseSingleByteRange rawHeader data.length = .ok (s, e)) :
    (s ≤ e ∧ e < data.length) ∧
      (∃ spec, Spells (plain rawHeader) spec ∧ spec.Assigns data.length s e) ∧
      (∀ spec, Spells rawHeader spec → plain rawHeader = rawHeader) ∧
      ∃ ps : List (List UInt8), streamStorageFile defaultChunkSize (.opened data seek short) s
          (some (e - s + 1)) = ps.map .yield ++ [.close] ∧
        ps.flatten = (data.drop s).take (e - s + 1) := by
  obtain ⟨spec, hspec, hassigns⟩ := spells_plain h
  obtain ⟨ps, hstream, hflat, -⟩ := streamStorageFile_eq (by decide : 0 < defaultChunkSize) data
    seek short (e - s + 1) (hassigns.1.trans hassigns.lt.le)
  exact ⟨⟨hassigns.1, hassigns.lt⟩, ⟨spec, hspec, hassigns⟩, fun _ => plain_of_spells,
    ps, hstream, hflat⟩

/-- The second and third of four bytes, read one by one and without seeking. -/
theorem serves_second_byte :
    (1 ≤ 2 ∧ 2 < [10, 20, 30, 40].length) ∧
      (∃ spec, Spells (plain "bytes=1-2") spec ∧ spec.Assigns [10, 20, 30, 40].length 1 2) ∧
      (∀ spec, Spells ("bytes=1-2" : Text) spec → plain "bytes=1-2" = ("bytes=1-2" : Text)) ∧
      ∃ ps : List (List UInt8), streamStorageFile defaultChunkSize
          (.opened [10, 20, 30, 40] .missing fun _ => 1) 1 (some (2 - 1 + 1)) =
            ps.map .yield ++ [.close] ∧
        ps.flatten = ([10, 20, 30, 40].drop 1).take (2 - 1 + 1) :=
  serves_range [10, 20, 30, 40] .missing (fun _ => 1) (by decide)

/-- White space is no part of a header of the RFC, but the parser drops it. -/
theorem spaced_range_accepted : ¬∀ (rawHeader : Text) (n s e : ℕ),
    parseSingleByteRange rawHeader n = .ok (s, e) →
      (s ≤ e ∧ e < n) ∧ ∃ spec, Spells rawHeader spec ∧ spec.Assigns n s e := by
  intro h
  obtain ⟨-, spec, hspec, -⟩ := h "bytes = 0-1" 4 0 1 (by decide)
  obtain ⟨units, value, startRaw, endRaw, hunits, hstrip, -⟩ := partition_of_spells hspec
  have hparts : Text.partition? ['='] ("bytes = 0-1" : Text) =
      some (("bytes " : Text), (" 0-1" : Text)) := by decide
  cases hparts.symm.trans hunits
  exact absurd hstrip (by decide)

end RangeServing

end PPBase
