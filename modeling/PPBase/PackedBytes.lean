import Mathlib.Data.List.Basic
import Mathlib.Tactic.Ring

/-!
# Packed bytes

Records of fixed width in a byte string. `le w n` are the `w` little-endian bytes of `n` and
`leNat` the number of such bytes (`leNat_le`); `slice b i n` are the `n` bytes of `b` from `i` on,
`field b i n` is their number, and `rfind` is the last place of a pattern before a bound
(`rfind_eq_some_iff`).
-/

namespace PPBase

namespace PackedBytes

/-! ## Numbers -/

/-- The little-endian bytes of a number. -/
def le : ℕ → ℕ → List UInt8
  | 0, _ => []
  | w + 1, n => UInt8.ofNat (n % 256) :: le w (n / 256)

/-- The number of little-endian bytes. -/
def leNat : List UInt8 → ℕ
  | [] => 0
  | c :: b => c.toNat + 256 * leNat b

@[simp] theorem length_le (w n : ℕ) : (le w n).length = w := by
  induction w generalizing n with
  | zero => rfl
  | succ w ih => rw [le, List.length_cons, ih]

variable {n i : ℕ} {b a : List UInt8}

theorem leNat_le {w : ℕ} (h : n < 256 ^ w) : leNat (le w n) = n := by
  induction w generalizing n with
  | zero =>
    rw [pow_zero] at h
    rw [le, leNat]
    omega
  | succ w ih =>
    rw [pow_succ] at h
    have hbyte : (UInt8.ofNat (n % 256)).toNat = n % 256 := by
      rw [UInt8.toNat_ofNat']
      omega
    rw [le, leNat, ih (by omega), hbyte]
    omega

theorem leNat_lt (b : List UInt8) : leNat b < 256 ^ b.length := by
  induction b with
  | nil => exact Nat.one_pos
  | cons c b ih =>
    have := c.toNat_lt
    rw [leNat, List.length_cons, pow_succ]
    omega

/-! ## Slices -/

/-- `b[i:i + n]` -/
def slice (b : List UInt8) (i n : ℕ) : List UInt8 := (b.drop i).take n

/-- The number in `b[i:i + n]`. -/
def field (b : List UInt8) (i n : ℕ) : ℕ := leNat (slice b i n)

theorem length_slice (b : List UInt8) (i n : ℕ) : (slice b i n).length = min n (b.length - i) := by
  rw [slice, List.length_take, List.length_drop]

theorem length_slice_of_le (h : i + n ≤ b.length) : (slice b i n).length = n := by
  rw [length_slice]
  omega

theorem slice_slice {j m : ℕ} (h : j + n ≤ m) : slice (slice b i m) j n = slice b (i + j) n := by
  rw [slice, slice, slice, List.drop_take, List.take_take, List.drop_drop]
  congr 1
  omega

/-- The fields of a slice are fields of the whole. -/
theorem field_slice {j m : ℕ} (h : j + n ≤ m) : field (slice b i m) j n = field b (i + j) n := by
  rw [field, slice_slice h, field]

theorem slice_drop (b : List UInt8) (i j n : ℕ) : slice (b.drop i) j n = slice b (i + j) n := by
  rw [slice, List.drop_drop, slice]

theorem field_drop (b : List UInt8) (i j n : ℕ) : field (b.drop i) j n = field b (i + j) n := by
  rw [field, slice_drop, field]

/-- A part of a byte string is where it has been put. -/
theorem slice_append {c : List UInt8} (hi : a.length = i) (hn : b.length = n) :
    slice (a ++ b ++ c) i n = b := by
  rw [slice, List.append_assoc, ← hi, List.drop_left, ← hn, List.take_left]

theorem slice_append_left (h : i + n ≤ a.length) : slice (a ++ b) i n = slice a i n := by
  rw [slice, slice, List.drop_append_of_le_length (by omega),
    List.take_append_of_le_length (by rw [List.length_drop]; omega)]

theorem slice_append_right (h : a.length ≤ i) : slice (a ++ b) i n = slice b (i - a.length) n := by
  rw [slice, slice, List.drop_append, List.drop_eq_nil_of_le h, List.nil_append]

theorem slice_between {c : List UInt8} (h : i + n ≤ b.length) :
    slice (a ++ b ++ c) (a.length + i) n = slice b i n := by
  rw [List.append_assoc, slice_append_right (Nat.le_add_right _ _), Nat.add_sub_cancel_left,
    slice_append_left h]

theorem field_between {c : List UInt8} (h : i + n ≤ b.length) :
    field (a ++ b ++ c) (a.length + i) n = field b i n := by
  rw [field, slice_between h, field]

theorem field_append_left (h : i + n ≤ a.length) : field (a ++ b) i n = field a i n := by
  rw [field, slice_append_left h, field]

/-- A number that has been packed is read. -/
theorem field_append_le {w : ℕ} (hi : a.length = i) (hn : n < 256 ^ w) :
    field (a ++ le w n) i w = n := by
  have hslice := slice_append (c := []) hi (length_le w n)
  rw [List.append_nil] at hslice
  rw [field, hslice, leNat_le hn]

/-! ## Search -/

section Search

variable (pattern b : List UInt8)

/-- The last place of a pattern up to a place. -/
def rfindFrom : ℕ → Option ℕ
  | 0 => if slice b 0 pattern.length = pattern then some 0 else none
  | n + 1 => if slice b (n + 1) pattern.length = pattern then some (n + 1) else rfindFrom n

/-- `b.rfind(pattern, 0, stop)` -/
def rfind (stop : ℕ) : Option ℕ :=
  if min stop b.length < pattern.length then none
  else rfindFrom pattern b (min stop b.length - pattern.length)

variable {pattern b}

theorem rfindFrom_eq_some_iff {n i : ℕ} :
    rfindFrom pattern b n = some i ↔ i ≤ n ∧ slice b i pattern.length = pattern ∧
      ∀ j, i < j → j ≤ n → slice b j pattern.length ≠ pattern := by
  induction n with
  | zero =>
    rw [rfindFrom]
    split_ifs with h
    · constructor
      · intro hi
        cases hi
        exact ⟨le_rfl, h, fun j hj hj' => by omega⟩
      · rintro ⟨hi, -, -⟩
        rw [Nat.le_zero.1 hi]
    · refine iff_of_false nofun fun hi => ?_
      rw [Nat.le_zero.1 hi.1] at hi
      exact h hi.2.1
  | succ n ih =>
    rw [rfindFrom]
    split_ifs with h
    · constructor
      · intro hi
        cases hi
        exact ⟨le_rfl, h, fun j hj hj' => by omega⟩
      · rintro ⟨hi, -, hlast⟩
        by_contra hne
        exact hlast (n + 1) (by rw [Option.some.injEq] at hne; omega) le_rfl h
    · rw [ih]
      constructor
      · rintro ⟨hi, hmatch, hlast⟩
        refine ⟨by omega, hmatch, fun j hj hj' => ?_⟩
        rcases Nat.lt_or_eq_of_le hj' with hj' | rfl
        · exact hlast j hj (by omega)
        · exact h
      · rintro ⟨hi, hmatch, hlast⟩
        have hne : i ≠ n + 1 := by
          rintro rfl
          exact h hmatch
        exact ⟨by omega, hmatch, fun j hj hj' => hlast j hj (by omega)⟩

theorem rfindFrom_eq_none_iff {n : ℕ} :
    rfindFrom pattern b n = none ↔ ∀ j ≤ n, slice b j pattern.length ≠ pattern := by
  induction n with
  | zero =>
    rw [rfindFrom]
    split_ifs with h
    · exact iff_of_false nofun fun hall => hall 0 le_rfl h
    · refine iff_of_true rfl fun j hj => ?_
      rw [Nat.le_zero.1 hj]
      exact h
  | succ n ih =>
    rw [rfindFrom]
    split_ifs with h
    · exact iff_of_false nofun fun hall => hall (n + 1) le_rfl h
    · rw [ih]
      constructor
      · intro hall j hj
        rcases Nat.lt_or_eq_of_le hj with hj | rfl
        · exact hall j (by omega)
        · exact h
      · exact fun hall j hj => hall j (by omega)

/-- The pattern is at a place of the byte string. -/
def Occurs (pattern b : List UInt8) (i : ℕ) : Prop :=
  slice b i pattern.length = pattern

theorem rfind_eq_some_iff {stop i : ℕ} (hne : pattern ≠ []) (hstop : stop ≤ b.length) :
    rfind pattern b stop = some i ↔ i + pattern.length ≤ stop ∧ Occurs pattern b i ∧
      ∀ j, i < j → j + pattern.length ≤ stop → ¬Occurs pattern b j := by
  have hpos := List.length_pos_iff.2 hne
  rw [rfind, min_eq_left hstop]
  split_ifs with h
  · exact iff_of_false nofun fun hi => by omega
  · rw [rfindFrom_eq_some_iff]
    refine and_congr (by omega) (and_congr Iff.rfl ?_)
    exact forall_congr' fun j => imp_congr Iff.rfl (imp_congr (by omega) Iff.rfl)

theorem rfind_eq_none_iff {stop : ℕ} (hne : pattern ≠ []) (hstop : stop ≤ b.length) :
    rfind pattern b stop = none ↔ ∀ j, j + pattern.length ≤ stop → ¬Occurs pattern b j := by
  have hpos := List.length_pos_iff.2 hne
  rw [rfind, min_eq_left hstop]
  split_ifs with h
  · exact iff_of_true rfl fun j hj => by omega
  · rw [rfindFrom_eq_none_iff]
    exact forall_congr' fun j => imp_congr (by omega) Iff.rfl

end Search

end PackedBytes

end PPBase
