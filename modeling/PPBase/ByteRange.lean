import Mathlib.Data.List.Basic
import Mathlib.Data.Nat.Basic

/-!
# Byte ranges and streams with short reads

One range of an HTTP range header (RFC 7233, section 2.1) : its syntax (`Spells`), and the bytes of
an object that it selects (`ByteRangeSpec.Selects`). A range assigns `(s, e)` to an object when it
selects the bytes from `s` to `e` and at least one of them (`ByteRangeSpec.Assigns`), and these
bounds are the only ones (`ByteRangeSpec.Assigns.unique`).

A `ByteStream` reads a content from a position on. A read returns as few bytes as it likes, but at
least one while there is one (`ByteStream.read_append`, `ByteStream.read_eq_nil`).
-/

namespace PPBase

/-! ## Ranges -/

/-- A range of bytes from a first one on, or the last ones of an object. -/
inductive ByteRangeSpec where
  | range (first : ℕ) (last : Option ℕ)
  | suffix (length : ℕ)

namespace ByteRangeSpec

/-- The byte positions that a range selects from an object of `n` bytes. -/
def Selects (n : ℕ) : ByteRangeSpec → ℕ → Prop
  | range first last, i => first ≤ i ∧ (∀ l ∈ last, i ≤ l) ∧ i < n
  | suffix length, i => n ≤ i + length ∧ i < n

/-- The bytes from `s` to `e`, at least one, are those that a range selects. -/
def Assigns (spec : ByteRangeSpec) (n s e : ℕ) : Prop :=
  s ≤ e ∧ ∀ i, spec.Selects n i ↔ s ≤ i ∧ i ≤ e

variable {spec : ByteRangeSpec} {n s e : ℕ}

theorem Assigns.lt (h : spec.Assigns n s e) : e < n := by
  have hlast := (h.2 e).2 ⟨h.1, le_refl e⟩
  cases spec with
  | range first last => exact hlast.2.2
  | suffix length => exact hlast.2

theorem Assigns.unique {s' e' : ℕ} (h : spec.Assigns n s e) (h' : spec.Assigns n s' e') :
    s = s' ∧ e = e' := by
  have hs := (h'.2 s).1 ((h.2 s).2 ⟨le_refl s, h.1⟩)
  have hs' := (h.2 s').1 ((h'.2 s').2 ⟨le_refl s', h'.1⟩)
  have he := (h'.2 e).1 ((h.2 e).2 ⟨h.1, le_refl e⟩)
  have he' := (h.2 e').1 ((h'.2 e').2 ⟨h'.1, le_refl e'⟩)
  omega

theorem suffix_assigns {k : ℕ} :
    (suffix k).Assigns n s e ↔ 0 < k ∧ 0 < n ∧ s = n - k ∧ e = n - 1 := by
  constructor
  · intro h
    have hlt := h.lt
    have hfirst := (h.2 s).2 ⟨le_refl s, h.1⟩
    have hlast := (h.2 (n - 1)).1
    have hleast := (h.2 (n - k)).1
    simp only [Selects] at hfirst hlast hleast
    omega
  · rintro ⟨hk, hn, rfl, rfl⟩
    refine ⟨by omega, fun i => ?_⟩
    simp only [Selects]
    omega

theorem from_assigns {first : ℕ} :
    (range first none).Assigns n s e ↔ first < n ∧ s = first ∧ e = n - 1 := by
  constructor
  · intro h
    have hlt := h.lt
    have hfirst := (h.2 s).2 ⟨le_refl s, h.1⟩
    have hlast := (h.2 (n - 1)).1
    have hleast := (h.2 first).1
    simp only [Selects, Option.mem_def, reduceCtorEq, false_implies, implies_true, true_and]
      at hfirst hlast hleast
    omega
  · rintro ⟨hn, rfl, rfl⟩
    refine ⟨by omega, fun i => ?_⟩
    simp only [Selects, Option.mem_def, reduceCtorEq, false_implies, implies_true, true_and]
    omega

theorem bounded_assigns {first last : ℕ} : (range first (some last)).Assigns n s e ↔
    first < n ∧ first ≤ last ∧ s = first ∧ e = min last (n - 1) := by
  constructor
  · intro h
    have hlt := h.lt
    have hfirst := (h.2 s).2 ⟨le_refl s, h.1⟩
    have hend := (h.2 e).2 ⟨h.1, le_refl e⟩
    have hlast := (h.2 (min last (n - 1))).1
    have hleast := (h.2 first).1
    simp only [Selects, Option.mem_def, Option.some.injEq, forall_eq'] at hfirst hend hlast hleast
    omega
  · rintro ⟨hn, hle, rfl, rfl⟩
    refine ⟨by omega, fun i => ?_⟩
    simp only [Selects, Option.mem_def, Option.some.injEq, forall_eq']
    omega

end ByteRangeSpec

/-! ## Headers -/

/-- `1*DIGIT` -/
def IsDigits (t : List Char) : Prop := t ≠ [] ∧ ∀ c ∈ t, c.isDigit = true

/-- The number that digits spell. -/
def digitsValue (t : List Char) : ℕ := Nat.ofDigitChars 10 t 0

/-- `bytes-unit "=" byte-range-spec` and `bytes-unit "=" suffix-byte-range-spec`. The unit is read
in any case, and a last position before the first is no range. -/
inductive Spells : List Char → ByteRangeSpec → Prop
  | openEnd {unit d : List Char} (hunit : unit.map Char.toLower = ['b', 'y', 't', 'e', 's'])
      (hd : IsDigits d) : Spells (unit ++ '=' :: (d ++ ['-'])) (.range (digitsValue d) none)
  | bounded {unit d d' : List Char} (hunit : unit.map Char.toLower = ['b', 'y', 't', 'e', 's'])
      (hd : IsDigits d) (hd' : IsDigits d') (hle : digitsValue d ≤ digitsValue d') :
      Spells (unit ++ '=' :: (d ++ '-' :: d')) (.range (digitsValue d) (some (digitsValue d')))
  | suffix {unit d : List Char} (hunit : unit.map Char.toLower = ['b', 'y', 't', 'e', 's'])
      (hd : IsDigits d) : Spells (unit ++ '=' :: '-' :: d) (.suffix (digitsValue d))

/-- The range of the digits around the minus sign. -/
def specOf (startRaw endRaw : List Char) : ByteRangeSpec :=
  if startRaw = [] then .suffix (digitsValue endRaw)
  else .range (digitsValue startRaw) (if endRaw = [] then none else some (digitsValue endRaw))

theorem Spells.parts {t : List Char} {spec : ByteRangeSpec} (h : Spells t spec) :
    ∃ unit startRaw endRaw, t = unit ++ '=' :: (startRaw ++ '-' :: endRaw) ∧
      unit.map Char.toLower = ['b', 'y', 't', 'e', 's'] ∧ (startRaw = [] ∨ IsDigits startRaw) ∧
      (endRaw = [] ∨ IsDigits endRaw) ∧ (startRaw = [] → endRaw ≠ []) ∧
      spec = specOf startRaw endRaw := by
  cases h with
  | @openEnd unit d hunit hd =>
    refine ⟨unit, d, [], rfl, hunit, .inr hd, .inl rfl, fun h => absurd h hd.1, ?_⟩
    rw [specOf, if_neg hd.1, if_pos rfl]
  | @bounded unit d d' hunit hd hd' hle =>
    refine ⟨unit, d, d', rfl, hunit, .inr hd, .inr hd', fun h => absurd h hd.1, ?_⟩
    rw [specOf, if_neg hd.1, if_neg hd'.1]
  | @suffix unit d hunit hd =>
    exact ⟨unit, [], d, rfl, hunit, .inl rfl, .inr hd, fun _ => hd.1, rfl⟩

/-! ## Streams -/

/-- What seeking does : it is not there, it works, or it fails and leaves the position. -/
inductive Seek where
  | missing
  | works
  | fails
deriving DecidableEq

/-- A content read from a position on. The `i`-th read returns at most `short i` bytes (and at
least one, if there is one). -/
structure ByteStream where
  data : List UInt8
  seek : Seek
  short : ℕ → ℕ
  pos : ℕ
  reads : ℕ

namespace ByteStream

variable {r : ByteStream} {k : ℕ}

/-- A stream at the start of its content. -/
def opened (data : List UInt8) (seek : Seek) (short : ℕ → ℕ) : ByteStream :=
  ⟨data, seek, short, 0, 0⟩

/-- The bytes not read yet. -/
def rest (r : ByteStream) : List UInt8 := r.data.drop r.pos

/-- The bytes that `r.read(k)` returns. -/
def chunk (r : ByteStream) (k : ℕ) : List UInt8 := r.rest.take (min k (max 1 (r.short r.reads)))

/-- The stream after `r.read(k)`. -/
def advance (r : ByteStream) (k : ℕ) : ByteStream :=
  { r with pos := r.pos + (r.chunk k).length, reads := r.reads + 1 }

theorem chunk_append (r : ByteStream) (k : ℕ) : r.chunk k ++ (r.advance k).rest = r.rest := by
  have hdrop : (r.advance k).rest = r.rest.drop (min k (max 1 (r.short r.reads))) := by
    simp only [advance, rest, chunk, List.drop_drop, List.length_take, List.length_drop]
    by_cases h : min k (max 1 (r.short r.reads)) ≤ r.data.length - r.pos
    · rw [min_eq_left h]
    · rw [List.drop_eq_nil_of_le (by omega), List.drop_eq_nil_of_le (by omega)]
  rw [hdrop, chunk, List.take_append_drop]

theorem length_chunk_le (r : ByteStream) (k : ℕ) : (r.chunk k).length ≤ k := by
  rw [chunk, List.length_take]
  omega

theorem chunk_eq_nil (hk : 0 < k) : r.chunk k = [] ↔ r.rest = [] := by
  rw [chunk, List.take_eq_nil_iff]
  constructor
  · rintro (h | h)
    · omega
    · exact h
  · exact Or.inr

theorem length_rest_advance (r : ByteStream) (k : ℕ) :
    (r.chunk k).length + (r.advance k).rest.length = r.rest.length := by
  rw [← List.length_append, chunk_append]

@[simp] theorem rest_opened (data : List UInt8) (seek : Seek) (short : ℕ → ℕ) :
    (opened data seek short).rest = data := rfl

end ByteStream

end PPBase
