import Mathlib.Data.Finset.Basic
import Mathlib.Algebra.Order.Group.Nat
import Mathlib.Data.Finset.Union

/-!
# Cron expressions

What the five fields of a cron expression select. An entry of a field's list selects the values of
a progression, a field those of its entries, and an expression the moments at which the minute, the
hour and the month are selected and the day is (`Expression.Matches`).

A program keeps a field as the set of its values, through the name it gives to each
(`Entries.values`). The set has what the field selects (`Entries.mem_values`), and it is the set of
all values exactly if the field covers them (`Entries.values_eq_iff`).
-/

namespace PPBase

namespace Cron

/-! ## Fields -/

/-- An entry of a list : the values from `start` up to `stop` in steps. -/
structure Entry where
  start : ℕ
  stop : ℕ
  step : ℕ
deriving DecidableEq

/-- The value is one of the entry's. -/
def Entry.Selects (e : Entry) (v : ℕ) : Prop := ∃ k, v = e.start + k * e.step ∧ v ≤ e.stop

/-- The list of a field. -/
abbrev Entries := List Entry

/-- The value is one of those that the entries select, by the names of the values. -/
def Entries.Selects (name : ℕ → ℕ) (f : Entries) (v : ℕ) : Prop :=
  ∃ e ∈ f, ∃ w, e.Selects w ∧ name w = v

/-- Each value of the range is selected. -/
def Entries.Covers (name : ℕ → ℕ) (low high : ℕ) (f : Entries) : Prop :=
  ∀ v, low ≤ v → v ≤ high → f.Selects name (name v)

/-! ## Expressions -/

/-- Both `0` and `7` are Sunday. -/
def sunday (d : ℕ) : ℕ := if d = 7 then 0 else d

/-- The five fields. -/
structure Expression where
  minute : Entries
  hour : Entries
  day : Entries
  month : Entries
  weekday : Entries

/-- What an expression sees of an instant. The days of the week count from Sunday. -/
structure Moment where
  minute : ℕ
  hour : ℕ
  day : ℕ
  month : ℕ
  weekday : ℕ

namespace Expression

/-- One of the fields for the day selects every day. -/
def DayFree (c : Expression) : Prop := c.day.Covers id 1 31 ∨ c.weekday.Covers sunday 0 7

/-- The day is selected by both fields if one of them is free, and otherwise by one of them. -/
def SelectsDay (c : Expression) (t : Moment) : Prop :=
  (c.day.Selects id t.day ∧ c.weekday.Selects sunday t.weekday) ∨
    ¬c.DayFree ∧ (c.day.Selects id t.day ∨ c.weekday.Selects sunday t.weekday)

/-- The moment is selected. -/
def Matches (c : Expression) (t : Moment) : Prop :=
  c.minute.Selects id t.minute ∧ c.hour.Selects id t.hour ∧ c.month.Selects id t.month ∧
    c.SelectsDay t

end Expression

/-! ## Sets of values -/

/-- `range(start, stop, step)` -/
def range (start stop step : ℕ) : List ℕ :=
  List.range' start ((stop - start + step - 1) / step) step

/-- The values of an entry. -/
def Entry.values (name : ℕ → ℕ) (e : Entry) : Finset ℕ :=
  ((range e.start (e.stop + 1) e.step).map name).toFinset

/-- The values of a field. -/
def Entries.values (name : ℕ → ℕ) (f : Entries) : Finset ℕ :=
  f.foldl (fun values e => values ∪ e.values name) ∅

theorem mem_range {start stop step v : ℕ} (hstep : 0 < step) :
    v ∈ range start stop step ↔ ∃ k, v = start + k * step ∧ v < stop := by
  simp only [range, List.mem_range']
  constructor
  · rintro ⟨k, hk, rfl⟩
    refine ⟨k, by rw [Nat.mul_comm], ?_⟩
    have hle : k + 1 ≤ (stop - start + step - 1) / step := hk
    rw [Nat.le_div_iff_mul_le hstep, Nat.add_mul, one_mul] at hle
    rw [Nat.mul_comm step k]
    omega
  · rintro ⟨k, rfl, hlt⟩
    refine ⟨k, ?_, by rw [Nat.mul_comm]⟩
    show k + 1 ≤ (stop - start + step - 1) / step
    rw [Nat.le_div_iff_mul_le hstep, Nat.add_mul, one_mul]
    omega

theorem Entry.mem_values {name : ℕ → ℕ} {e : Entry} (hstep : 0 < e.step) {v : ℕ} :
    v ∈ e.values name ↔ ∃ w, e.Selects w ∧ name w = v := by
  simp only [Entry.values, List.mem_toFinset, List.mem_map, mem_range hstep, Entry.Selects,
    Nat.lt_succ_iff]

theorem Entries.mem_foldl_values {name : ℕ → ℕ} {v : ℕ} : ∀ {f : Entries} {values : Finset ℕ},
    v ∈ f.foldl (fun values e => values ∪ e.values name) values ↔
      v ∈ values ∨ ∃ e ∈ f, v ∈ e.values name
  | [], values => by simp
  | e :: f, values => by
    rw [List.foldl_cons, mem_foldl_values, Finset.mem_union, List.exists_mem_cons_iff, or_assoc]

/-- The set of a field has what the field selects. -/
theorem Entries.mem_values {name : ℕ → ℕ} {f : Entries} (hstep : ∀ e ∈ f, 0 < e.step) {v : ℕ} :
    v ∈ f.values name ↔ f.Selects name v := by
  rw [Entries.values, Entries.mem_foldl_values]
  constructor
  · rintro (h | ⟨e, he, hv⟩)
    · exact absurd h (Finset.notMem_empty v)
    · exact ⟨e, he, (Entry.mem_values (hstep e he)).1 hv⟩
  · rintro ⟨e, he, hv⟩
    exact .inr ⟨e, he, (Entry.mem_values (hstep e he)).2 hv⟩

/-- The set of a field within the range is the set of the whole range exactly if the field covers
it. -/
theorem Entries.values_eq_iff {name : ℕ → ℕ} {low high : ℕ} {f : Entries}
    (hin : ∀ e ∈ f, 0 < e.step ∧ low ≤ e.start ∧ e.stop ≤ high) :
    f.values name = ((range low (high + 1) 1).map name).toFinset ↔ f.Covers name low high := by
  have hmem : ∀ v, v ∈ ((range low (high + 1) 1).map name).toFinset ↔
      ∃ w, (low ≤ w ∧ w ≤ high) ∧ name w = v := by
    intro v
    simp only [List.mem_toFinset, List.mem_map, mem_range one_pos]
    refine exists_congr fun w => and_congr_left fun _ => ?_
    constructor
    · rintro ⟨k, hk, hlt⟩
      omega
    · rintro ⟨hlow, hhigh⟩
      exact ⟨w - low, by omega, by omega⟩
  have hstep : ∀ e ∈ f, 0 < e.step := fun e he => (hin e he).1
  rw [Finset.ext_iff]
  constructor
  · intro h v hlow hhigh
    exact (Entries.mem_values hstep).1 ((h _).2 ((hmem _).2 ⟨v, ⟨hlow, hhigh⟩, rfl⟩))
  · intro h v
    rw [hmem, Entries.mem_values hstep]
    constructor
    · rintro ⟨e, he, w, ⟨k, hk, hle⟩, rfl⟩
      obtain ⟨-, hlow, hhigh⟩ := hin e he
      exact ⟨w, ⟨by rw [hk]; exact hlow.trans (Nat.le_add_right _ _), hle.trans hhigh⟩, rfl⟩
    · rintro ⟨w, ⟨hlow, hhigh⟩, rfl⟩
      exact h w hlow hhigh

end Cron

end PPBase
