import Mathlib.Algebra.GroupWithZero.Nat
import Mathlib.Data.List.Basic
import Mathlib.Data.List.DropRight
import Mathlib.Data.List.TakeWhile

/-!
# Text

Texts are lists of characters, so that scanning, splitting and comparing them are
structural. The operations carry the names of the Python string methods they follow.
-/

namespace PPBase

theorem takeWhile_append_stop {α : Type*} {p : α → Bool} {c : α} (hc : p c = false) (v : List α) :
    ∀ r : List α, (r ++ c :: v).takeWhile p = r.takeWhile p
  | [] => by simp [hc]
  | a :: r => by
    by_cases ha : p a
    · simp [ha, takeWhile_append_stop hc v r]
    · simp [ha]

/-- A string as the list of its characters. -/
abbrev Text := List Char

instance : Coe String Text := ⟨String.toList⟩

instance : LawfulBEq Text := List.instLawfulBEq

instance : LawfulBEq (Text × Text) := Prod.instLawfulBEq

namespace Text

/-- `[a-zA-Z_]` -/
def isIdentStart (c : Char) : Bool := c.isAlpha || c == '_'

/-- `[a-zA-Z0-9_]` -/
def isIdentChar (c : Char) : Bool := isIdentStart c || c.isDigit

/-- `s.split(sep)` : the parts between the occurrences of a character. -/
def split (sep : Char) : Text → List Text
  | [] => [[]]
  | c :: cs =>
    if c = sep then [] :: split sep cs
    else
      match split sep cs with
      | [] => [[c]]
      | p :: ps => (c :: p) :: ps

theorem split_cons (sep c : Char) (cs : Text) :
    split sep (c :: cs) =
      if c = sep then [] :: split sep cs
      else
        match split sep cs with
        | [] => [[c]]
        | p :: ps => (c :: p) :: ps := rfl

/-- `sep.join(parts)` -/
def join (sep : Char) : List Text → Text
  | [] => []
  | [p] => p
  | p :: ps => p ++ sep :: join sep ps

/-- The part before the first occurrence of a character, `s.split(sep, 1)[0]`. -/
def before (sep : Char) (s : Text) : Text := s.takeWhile (· ≠ sep)

/-- `s.rsplit(sep, 1)`, if `sep` occurs. -/
def rsplit? (sep : Char) (s : Text) : Option (Text × Text) :=
  if sep ∈ s then
    some ((s.reverse.dropWhile (· ≠ sep)).tail.reverse, (s.reverse.takeWhile (· ≠ sep)).reverse)
  else none

/-- `s.lower()` of an ASCII text. -/
def lower (s : Text) : Text := s.map Char.toLower

/-- `s.startswith(p)` and the text after the prefix. -/
def afterPrefix? : Text → Text → Option Text
  | [], s => some s
  | _ :: _, [] => none
  | p :: ps, c :: cs => if p = c then afterPrefix? ps cs else none

/-- `p in s` -/
def contains (p : Text) : Text → Bool
  | [] => (afterPrefix? p []).isSome
  | c :: cs => (afterPrefix? p (c :: cs)).isSome || contains p cs

/-- `s.partition(p)` without its middle part, if `p` occurs : the texts before and after
the first occurrence. -/
def partition? (p : Text) : Text → Option (Text × Text)
  | [] => (afterPrefix? p []).map fun r => ([], r)
  | c :: cs =>
    match afterPrefix? p (c :: cs) with
    | some r => some ([], r)
    | none => (partition? p cs).map fun q => (c :: q.1, q.2)

/-- Python's `str.isspace` of one character. -/
def isSpace (c : Char) : Bool :=
  let n := c.toNat
  (9 ≤ n && n ≤ 13) || (28 ≤ n && n ≤ 32) || n == 0x85 || n == 0xa0 || n == 0x1680 ||
    (0x2000 ≤ n && n ≤ 0x200a) || n == 0x2028 || n == 0x2029 || n == 0x202f || n == 0x205f ||
    n == 0x3000

/-- `s.strip()` -/
def strip (s : Text) : Text := ((s.dropWhile isSpace).reverse.dropWhile isSpace).reverse

variable {c : Char} {s : Text}

theorem isAlpha_iff :
    c.isAlpha = true ↔ (65 ≤ c.toNat ∧ c.toNat ≤ 90) ∨ (97 ≤ c.toNat ∧ c.toNat ≤ 122) := by
  delta Char.isAlpha Char.isUpper Char.isLower
  rw [Bool.or_eq_true, decide_eq_true_iff, Bool.and_eq_true, decide_eq_true_iff, decide_eq_true_iff]
  rfl

theorem toNat_of_isDigit (h : c.isDigit = true) : 48 ≤ c.toNat ∧ c.toNat ≤ 57 := by
  have hval : 48 ≤ c.val ∧ c.val ≤ 57 := by
    unfold Char.isDigit at h
    simpa using h
  exact hval

theorem toNat_toLower (c : Char) :
    c.toLower.toNat = if 65 ≤ c.toNat ∧ c.toNat ≤ 90 then c.toNat + 32 else c.toNat := by
  delta Char.toLower
  by_cases hc : c.val ≥ 'A'.val ∧ c.val ≤ 'Z'.val
  · have hrange : 65 ≤ c.toNat ∧ c.toNat ≤ 90 := hc
    rw [dif_pos hc, if_pos hrange]
    change (c.val + 32).toNat = _
    rw [UInt32.toNat_add]
    change (c.toNat + 32) % 2 ^ 32 = _
    omega
  · have hrange : ¬(65 ≤ c.toNat ∧ c.toNat ≤ 90) := hc
    rw [dif_neg hc, if_neg hrange]

theorem printable_of_isIdentChar (h : isIdentChar c = true) : 33 ≤ c.toNat ∧ c.toNat ≤ 126 := by
  simp only [isIdentChar, isIdentStart, Bool.or_eq_true, beq_iff_eq] at h
  rcases h with (h | rfl) | h
  · rcases isAlpha_iff.1 h with h | h <;> omega
  · decide
  · have hrange := toNat_of_isDigit h
    omega

theorem not_printable_of_isSpace (h : isSpace c = true) : ¬(33 ≤ c.toNat ∧ c.toNat ≤ 126) := by
  simp only [isSpace, Bool.or_eq_true, Bool.and_eq_true, decide_eq_true_eq, beq_iff_eq] at h
  omega

theorem strip_strip (s : Text) : strip (strip s) = strip s := by
  have hstrip : ∀ t, strip t = (t.dropWhile isSpace).rdropWhile isSpace := fun _ => rfl
  have hhead : ((s.dropWhile isSpace).rdropWhile isSpace).dropWhile isSpace =
      (s.dropWhile isSpace).rdropWhile isSpace := by
    rw [List.dropWhile_eq_self_iff]
    intro hl
    have hprefix := List.rdropWhile_prefix isSpace (s.dropWhile isSpace)
    have hlen := lt_of_lt_of_le hl hprefix.length_le
    rw [List.IsPrefix.getElem hprefix hl]
    exact List.dropWhile_eq_self_iff.1 (List.dropWhile_idempotent isSpace s) hlen
  rw [hstrip (strip s), hstrip s, hhead, List.rdropWhile_idempotent]

theorem strip_eq_nil (h : strip s = []) : ∀ c ∈ s, isSpace c = true := by
  have h₁ : (s.dropWhile isSpace).reverse.dropWhile isSpace = [] := by
    simpa [strip] using h
  have h₂ : ∀ c ∈ s.dropWhile isSpace, isSpace c = true := by
    simpa using List.dropWhile_eq_nil_iff.1 h₁
  intro c hc
  rw [← List.takeWhile_append_dropWhile (p := isSpace) (l := s), List.mem_append] at hc
  rcases hc with hc | hc
  · exact List.mem_takeWhile_imp hc
  · exact h₂ c hc

@[simp] theorem afterPrefix?_nil (s : Text) : afterPrefix? [] s = some s := by
  cases s <;> rfl

theorem afterPrefix?_eq_some {p r : Text} : afterPrefix? p s = some r ↔ s = p ++ r := by
  induction p generalizing s with
  | nil => simp
  | cons a p ih =>
    cases s with
    | nil => simp [afterPrefix?]
    | cons c s =>
      by_cases h : a = c
      · subst h
        simp [afterPrefix?, ih]
      · simp [afterPrefix?, h, Ne.symm h]

theorem afterPrefix?_append (p s : Text) : afterPrefix? p (p ++ s) = some s :=
  afterPrefix?_eq_some.2 rfl

theorem contains_iff {p : Text} : contains p s = true ↔ ∃ u v, s = u ++ p ++ v := by
  induction s with
  | nil =>
    rw [contains, Option.isSome_iff_exists]
    constructor
    · rintro ⟨r, h⟩
      exact ⟨[], r, by simpa using afterPrefix?_eq_some.1 h⟩
    · rintro ⟨u, v, h⟩
      obtain ⟨rfl, rfl, rfl⟩ : u = [] ∧ p = [] ∧ v = [] := by simpa using h.symm
      exact ⟨[], rfl⟩
  | cons c s ih =>
    rw [contains, Bool.or_eq_true, ih, Option.isSome_iff_exists]
    constructor
    · rintro (⟨r, h⟩ | ⟨u, v, rfl⟩)
      · exact ⟨[], r, by simpa using afterPrefix?_eq_some.1 h⟩
      · exact ⟨c :: u, v, by simp⟩
    · rintro ⟨u, v, h⟩
      cases u with
      | nil => exact Or.inl ⟨v, afterPrefix?_eq_some.2 (by simpa using h)⟩
      | cons d u =>
        exact Or.inr ⟨u, v, (List.cons.inj h).2⟩

/-! ## Splitting -/

theorem notMem_of_mem_split {sep : Char} {p : Text} : ∀ {s : Text}, p ∈ split sep s → sep ∉ p
  | [], h => by
    rw [List.mem_singleton.1 h]
    exact List.not_mem_nil
  | c :: s, h => by
    rw [split_cons] at h
    split_ifs at h with hc
    · rcases List.mem_cons.1 h with rfl | h
      · exact List.not_mem_nil
      · exact notMem_of_mem_split h
    · split at h
      · rw [List.mem_singleton.1 h, List.mem_singleton]
        exact fun h => hc h.symm
      · rename_i q qs hs
        rcases List.mem_cons.1 h with rfl | h
        · rw [List.mem_cons, not_or]
          exact ⟨fun h => hc h.symm, notMem_of_mem_split (hs ▸ List.mem_cons_self)⟩
        · exact notMem_of_mem_split (hs ▸ List.mem_cons_of_mem q h)

theorem split_ne_nil (sep : Char) (s : Text) : split sep s ≠ [] := by
  cases s with
  | nil => exact List.cons_ne_nil _ _
  | cons c s =>
    rw [split_cons]
    split_ifs
    · exact List.cons_ne_nil _ _
    · split <;> exact List.cons_ne_nil _ _

theorem mem_of_mem_split {sep c : Char} {p : Text} :
    ∀ {s : Text}, p ∈ split sep s → c ∈ p → c ∈ s
  | [], hp, hc => by
    rw [List.mem_singleton.1 hp] at hc
    exact hc
  | x :: s, hp, hc => by
    rw [split_cons] at hp
    split_ifs at hp with hx
    · rcases List.mem_cons.1 hp with rfl | hp
      · exact absurd hc List.not_mem_nil
      · exact List.mem_cons_of_mem _ (mem_of_mem_split hp hc)
    · have ih : ∀ p ∈ split sep s, c ∈ p → c ∈ s := fun p => mem_of_mem_split
      cases hs : split sep s with
      | nil =>
        rw [hs] at hp
        rw [List.mem_singleton.1 hp] at hc
        rw [List.mem_singleton.1 hc]
        exact List.mem_cons_self
      | cons q ps =>
        rw [hs] at hp ih
        rcases List.mem_cons.1 hp with rfl | hp
        · rcases List.mem_cons.1 hc with rfl | hc
          · exact List.mem_cons_self
          · exact List.mem_cons_of_mem _ (ih q List.mem_cons_self hc)
        · exact List.mem_cons_of_mem _ (ih p (List.mem_cons_of_mem _ hp) hc)

theorem split_of_notMem {sep : Char} : ∀ {s : Text}, sep ∉ s → split sep s = [s]
  | [], _ => rfl
  | ch :: s, h => by
    rw [List.mem_cons, not_or] at h
    rw [split_cons, if_neg (Ne.symm h.1), split_of_notMem h.2]

/-! ## UTF-8 -/

/-- `text.encode("utf-8")` -/
def encodeUtf8 (t : Text) : List UInt8 := t.flatMap String.utf8EncodeChar

/-- `payload.decode("utf-8")` -/
def decodeUtf8? (b : List UInt8) : Option Text := b.toByteArray.utf8Decode?.map Array.toList

theorem decodeUtf8?_encodeUtf8 (t : Text) : decodeUtf8? (encodeUtf8 t) = some t := by
  show (List.utf8Encode t).utf8Decode?.map Array.toList = some t
  rw [List.utf8Decode?_utf8Encode]
  rfl

theorem encodeUtf8_injective {t : Text} (h : encodeUtf8 s = encodeUtf8 t) : s = t :=
  Option.some.inj <| by rw [← decodeUtf8?_encodeUtf8, h, decodeUtf8?_encodeUtf8]

theorem encodeUtf8_append (s t : Text) : encodeUtf8 (s ++ t) = encodeUtf8 s ++ encodeUtf8 t :=
  List.flatMap_append

/-- The bytes of a character of several bytes are at least 128. -/
theorem eq_of_mem_utf8EncodeChar {x : UInt8} (h : x ∈ String.utf8EncodeChar c) (hx : x.toNat < 128) :
    Char.ofNat x.toNat = c := by
  have hlow : ∀ {n : ℕ}, 128 ≤ n % 256 → x ≠ UInt8.ofNat n := by
    rintro n hn rfl
    rw [UInt8.toNat_ofNat'] at hx
    omega
  unfold String.utf8EncodeChar at h
  simp only at h
  split_ifs at h with h1 h2 h3
  · rw [List.mem_singleton] at h
    rw [h, UInt8.toNat_ofNat', Nat.mod_eq_of_lt (by omega)]
    exact Char.ofNat_toNat c
  · simp only [List.mem_cons, List.not_mem_nil, or_false] at h
    rcases h with h | h <;> exact absurd h (hlow (by omega))
  · simp only [List.mem_cons, List.not_mem_nil, or_false] at h
    rcases h with h | h | h <;> exact absurd h (hlow (by omega))
  · simp only [List.mem_cons, List.not_mem_nil, or_false] at h
    rcases h with h | h | h | h <;> exact absurd h (hlow (by omega))

theorem mem_of_mem_encodeUtf8 {t : Text} {x : UInt8} (h : x ∈ encodeUtf8 t) (hx : x.toNat < 128) :
    Char.ofNat x.toNat ∈ t := by
  obtain ⟨c, hc, hx'⟩ := List.mem_flatMap.1 h
  rwa [eq_of_mem_utf8EncodeChar hx' hx]

end Text

end PPBase
