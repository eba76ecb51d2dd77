import PPBase.Cron
import PPBase.Failing
import PPBase.RangeServing

/-!
# The backup schedule

The cron expression of the automatic backups. `Schedule.parse` reads the five fields and
`Schedule.matches` decides at every minute whether a backup is due.

An expression that is accepted is written for a cron expression (`Expression.Written`), and its
schedule matches the instants that this selects (`Schedule.matches_iff`). An expression that is not
is refused with a `BackupCronError` unless the first thing at fault in it is a number that `int`
does not read (`refusedBy`): `isdigit` also holds of superscripts and of texts of any length.
-/

namespace PPBase

open Cron

namespace BackupCron

/-! ## The parser -/

/-- What `parse` raises : its own error, or the `ValueError` of `int`. -/
inductive ParseError where
  | backupCron (text : Text)
  | value
deriving DecidableEq

def numericText : Text := "cron fields must use numeric values"
def outsideText (minimum maximum : ℕ) : Text :=
  "cron value must be between ".toList ++ Nat.toDigits 10 minimum ++ " and ".toList ++
    Nat.toDigits 10 maximum
def emptyFieldText : Text := "cron fields cannot be empty"
def emptyEntryText : Text := "cron lists cannot contain empty entries"
def ascendingText : Text := "cron ranges must be ascending"
def noValuesText : Text := "cron field selects no values"
def fiveFieldsText : Text := "backup cron must contain exactly five fields"

/-- `int(text)` -/
def int (text : Text) : Except ParseError ℕ := (RangeServing.int text).mapError fun _ => .value

/-- `_parse_number` -/
def parseNumber (value : Text) (minimum maximum : ℕ) : Except ParseError ℕ := do
  if !RangeServing.isdigit value then .error (.backupCron numericText)
  else
    let number ← int value
    if minimum ≤ number ∧ number ≤ maximum then .ok number
    else .error (.backupCron (outsideText minimum maximum))

/-- The first and the last value of an entry, without its step. -/
def parseBase (base : Text) (minimum maximum : ℕ) : Except ParseError (ℕ × ℕ) :=
  if base = ['*'] then .ok (minimum, maximum)
  else
    match Text.partition? ['-'] base with
    | some (startText, endText) => do
      let start ← parseNumber startText minimum maximum
      let stop ← parseNumber endText minimum maximum
      if start > stop then .error (.backupCron ascendingText) else .ok (start, stop)
    | none => do
      let start ← parseNumber base minimum maximum
      .ok (start, start)

/-- The entry of a token of a list. -/
def parseEntry (minimum maximum : ℕ) (token : Text) : Except ParseError Entry :=
  if token = [] then .error (.backupCron emptyEntryText)
  else
    match Text.partition? ['/'] token with
    | some (base, stepText) => do
      let step ← parseNumber stepText 1 (maximum - minimum + 1)
      let (start, stop) ← parseBase base minimum maximum
      .ok ⟨start, stop, step⟩
    | none => do
      let (start, stop) ← parseBase token minimum maximum
      .ok ⟨start, stop, 1⟩

/-- The name of a value. With the alias, `7` is `0`. -/
def nameOf (sundayAlias : Bool) (v : ℕ) : ℕ := if sundayAlias && v == 7 then 0 else v

/-- One token of `_parse_field` : its values are added. -/
def collect (minimum maximum : ℕ) (sundayAlias : Bool) (values : Finset ℕ) (token : Text) :
    Except ParseError (Finset ℕ) := do
  let e ← parseEntry minimum maximum (Text.strip token)
  .ok (values ∪ e.values (nameOf sundayAlias))

/-- `_parse_field` of a field that is not `None` : its values, and whether they are all. -/
def parseField (raw : Text) (minimum maximum : ℕ) (sundayAlias : Bool) :
    Except ParseError (Finset ℕ × Bool) := do
  let text := Text.strip raw
  if text = [] then .error (.backupCron emptyFieldText)
  else
    let values ← (Text.split ',' text).foldlM (collect minimum maximum sundayAlias) ∅
    if values = ∅ then .error (.backupCron noValuesText)
    else
      let fullRange := ((range minimum (maximum + 1) 1).map (nameOf sundayAlias)).toFinset
      .ok (values, values = fullRange)

/-- `s.split()` : the texts between the runs of white space. -/
def words (s : Text) : List Text := (s.splitOnP Text.isSpace).filter (· ≠ [])

/-- `BackupCronSchedule` -/
structure Schedule where
  minutes : Finset ℕ
  hours : Finset ℕ
  days : Finset ℕ
  months : Finset ℕ
  weekdays : Finset ℕ
  daysWildcard : Bool
  weekdaysWildcard : Bool

/-- `BackupCronSchedule.parse` -/
def Schedule.parse (expression : Text) : Except ParseError Schedule :=
  match words expression with
  | [minute, hour, day, month, weekday] => do
    let (minutes, _) ← parseField minute 0 59 false
    let (hours, _) ← parseField hour 0 23 false
    let (days, daysWildcard) ← parseField day 1 31 false
    let (months, _) ← parseField month 1 12 false
    let (weekdays, weekdaysWildcard) ← parseField weekday 0 7 true
    .ok ⟨minutes, hours, days, months, weekdays, daysWildcard, weekdaysWildcard⟩
  | _ => .error (.backupCron fiveFieldsText)

/-! ## Instants -/

/-- The leap years. -/
def isLeap (year : ℕ) : Bool := year % 4 == 0 && (year % 100 != 0 || year % 400 == 0)

/-- The days of each month. -/
def daysInMonth (year month : ℕ) : ℕ :=
  if month = 2 then (if isLeap year then 29 else 28)
  else if month ∈ [4, 6, 9, 11] then 30 else 31

/-- An instant to the minute, as a `datetime` in UTC has it. -/
structure Instant where
  year : ℕ
  month : ℕ
  day : ℕ
  hour : ℕ
  minute : ℕ
  year_mem : 1 ≤ year ∧ year ≤ 9999
  month_mem : 1 ≤ month ∧ month ≤ 12
  day_mem : 1 ≤ day ∧ day ≤ daysInMonth year month
  hour_lt : hour < 24
  minute_lt : minute < 60
deriving DecidableEq

namespace Instant

/-- `toordinal()` : the number of the day, of which the first of January of year 1 is the first. -/
def toordinal (t : Instant) : ℕ :=
  (t.year - 1) * 365 + (t.year - 1) / 4 - (t.year - 1) / 100 + (t.year - 1) / 400 +
    ((List.range (t.month - 1)).map fun m => daysInMonth t.year (m + 1)).sum + t.day

/-- `weekday()`, from Monday on. -/
def weekday (t : Instant) : ℕ := (t.toordinal + 6) % 7

/-- What an expression sees of the instant. The first day of year 1 was a Monday. -/
def moment (t : Instant) : Moment := ⟨t.minute, t.hour, t.day, t.month, t.toordinal % 7⟩

end Instant

/-- `matches` -/
def Schedule.matches (s : Schedule) (selected : Instant) : Bool :=
  if selected.minute ∉ s.minutes ∨ selected.hour ∉ s.hours ∨ selected.month ∉ s.months then false
  else
    let dayMatches : Bool := selected.day ∈ s.days
    let cronWeekday := (selected.weekday + 1) % 7
    let weekdayMatches : Bool := cronWeekday ∈ s.weekdays
    if s.daysWildcard || s.weekdaysWildcard then dayMatches && weekdayMatches
    else dayMatches || weekdayMatches

/-! ## What expressions are written for -/

/-- A text of digits with a value within the bounds. -/
def Numeral (low high : ℕ) (t : Text) (k : ℕ) : Prop :=
  RangeServing.Reads t k ∧ low ≤ k ∧ k ≤ high

/-- `*`, a range or a single number. -/
inductive WrittenBase (low high : ℕ) : Text → ℕ → ℕ → Prop
  | star : WrittenBase low high ['*'] low high
  | range {a b : Text} {m n : ℕ} (ha : Numeral low high a m) (hb : Numeral low high b n)
      (hle : m ≤ n) : WrittenBase low high (a ++ '-' :: b) m n
  | single {a : Text} {m : ℕ} (ha : Numeral low high a m) : WrittenBase low high a m m

/-- An entry with or without a step. -/
inductive WrittenEntry (low high : ℕ) : Text → Entry → Prop
  | whole {t : Text} {m n : ℕ} (hb : WrittenBase low high t m n) :
      WrittenEntry low high t ⟨m, n, 1⟩
  | stepped {t s : Text} {m n k : ℕ} (hb : WrittenBase low high t m n)
      (hs : Numeral 1 (high - low + 1) s k) : WrittenEntry low high (t ++ '/' :: s) ⟨m, n, k⟩

/-- A list of entries between commas. -/
def WrittenField (low high : ℕ) (t : Text) (f : Entries) : Prop :=
  List.Forall₂ (WrittenEntry low high) (Text.split ',' t) f

/-- Five fields between white space. -/
def Written (t : Text) (c : Expression) : Prop :=
  ∃ minute hour day month weekday, words t = [minute, hour, day, month, weekday] ∧
    WrittenField 0 59 minute c.minute ∧ WrittenField 0 23 hour c.hour ∧
    WrittenField 1 31 day c.day ∧ WrittenField 1 12 month c.month ∧
    WrittenField 0 7 weekday c.weekday

section

variable {low high k m n : ℕ} {t : Text}

theorem notMem_of_isdigit {c : Char} (hc : RangeServing.isdigit [c] = false)
    (h : RangeServing.isdigit t = true) : c ∉ t := by
  intro hmem
  simp only [RangeServing.isdigit, Bool.and_eq_true, List.all_eq_true] at h
  have hone := h.2 c hmem
  simp only [RangeServing.isdigit, List.all_cons, List.all_nil, Bool.and_true] at hc
  rw [hone] at hc
  simp at hc

theorem Numeral.notMem (h : Numeral low high t k) {c : Char}
    (hc : RangeServing.isdigit [c] = false) : c ∉ t :=
  notMem_of_isdigit hc h.1.1

theorem isdigit_star : RangeServing.isdigit ['*'] = false := by decide

theorem isdigit_minus : RangeServing.isdigit ['-'] = false := by decide

theorem isdigit_slash : RangeServing.isdigit ['/'] = false := by decide

theorem Numeral.ne_nil (h : Numeral low high t k) : t ≠ [] := by
  rintro rfl
  exact nomatch h.1.1

theorem WrittenBase.notMem_slash (h : WrittenBase low high t m n) : '/' ∉ t := by
  cases h with
  | star => decide
  | range ha hb hle =>
    simp only [List.mem_append, List.mem_cons, not_or]
    exact ⟨ha.notMem isdigit_slash, by decide, hb.notMem isdigit_slash⟩
  | single ha => exact ha.notMem isdigit_slash

theorem WrittenBase.ne_nil (h : WrittenBase low high t m n) : t ≠ [] := by
  cases h with
  | star => simp
  | range ha hb hle => simp
  | single ha => exact ha.ne_nil

theorem WrittenBase.bounds (hlow : low ≤ high) (h : WrittenBase low high t m n) :
    low ≤ m ∧ m ≤ n ∧ n ≤ high := by
  cases h with
  | star => exact ⟨le_rfl, hlow, le_rfl⟩
  | range ha hb hle => exact ⟨ha.2.1, hle, hb.2.2⟩
  | single ha => exact ⟨ha.2.1, le_rfl, ha.2.2⟩

theorem WrittenEntry.bounds (hlow : low ≤ high) {e : Entry} (h : WrittenEntry low high t e) :
    0 < e.step ∧ low ≤ e.start ∧ e.start ≤ e.stop ∧ e.stop ≤ high := by
  cases h with
  | whole hb => exact ⟨one_pos, hb.bounds hlow⟩
  | stepped hb hs => exact ⟨hs.2.1, hb.bounds hlow⟩

/-! ## What the parser accepts -/

theorem int_eq_ok : int t = .ok k ↔ RangeServing.int t = .ok k := Failing.mapError_eq_ok

theorem parseNumber_eq_ok : parseNumber t low high = .ok k ↔ Numeral low high t k := by
  rw [parseNumber, Numeral, RangeServing.Reads]
  cases hdigit : RangeServing.isdigit t with
  | false => simp
  | true =>
    simp only [Bool.not_true, Bool.false_eq_true, if_false, Failing.bind_eq_ok, int_eq_ok,
      true_and]
    constructor
    · rintro ⟨number, hint, h⟩
      split_ifs at h with hin
      obtain rfl := Except.ok.inj h
      exact ⟨hint, hin⟩
    · rintro ⟨hint, hin⟩
      exact ⟨k, hint, if_pos hin⟩

theorem parseBase_eq_ok : parseBase t low high = .ok (m, n) ↔ WrittenBase low high t m n := by
  rw [parseBase]
  split_ifs with hstar
  · subst hstar
    constructor
    · intro h
      obtain ⟨rfl, rfl⟩ := Prod.mk.inj (Except.ok.inj h)
      exact .star
    · intro h
      generalize ht : ['*'] = t at h
      cases h with
      | star => rfl
      | @range a b _ _ ha hb hle =>
        exact absurd (ht ▸ by simp : '-' ∈ ['*']) (by decide)
      | single ha => exact absurd (ht ▸ List.mem_cons_self) (ha.notMem isdigit_star)
  cases hpart : Text.partition? ['-'] t with
  | none =>
    simp only [Failing.bind_eq_ok, parseNumber_eq_ok, Except.ok.injEq, Prod.mk.injEq]
    constructor
    · rintro ⟨k, hk, rfl, rfl⟩
      exact .single hk
    · intro h
      cases h with
      | star => exact absurd rfl hstar
      | @range a b _ _ ha hb hle =>
        rw [Text.partition?_char.2 ⟨rfl, ha.notMem isdigit_minus⟩] at hpart
        exact nomatch hpart
      | single ha => exact ⟨m, ha, rfl, rfl⟩
  | some parts =>
    obtain ⟨a, b⟩ := parts
    obtain ⟨rfl, hn⟩ := Text.partition?_char.1 hpart
    simp only [Failing.bind_eq_ok, parseNumber_eq_ok]
    constructor
    · rintro ⟨m', hm, n', hn', h⟩
      split_ifs at h with hle
      obtain ⟨rfl, rfl⟩ := Prod.mk.inj (Except.ok.inj h)
      exact .range hm hn' (Nat.not_lt.1 hle)
    · intro h
      generalize ht : a ++ '-' :: b = t at h
      cases h with
      | star => exact absurd ht hstar
      | @range a' b' _ _ ha hb hle =>
        have hparts := Text.partition?_char.2 ⟨ht.symm, hn⟩
        rw [Text.partition?_char.2 ⟨rfl, ha.notMem isdigit_minus⟩] at hparts
        obtain ⟨rfl, rfl⟩ := Prod.mk.inj (Option.some.inj hparts)
        exact ⟨m, ha, n, hb, if_neg (Nat.not_lt.2 hle)⟩
      | single ha =>
        exact absurd (ht ▸ by simp : '-' ∈ t) (ha.notMem isdigit_minus)

theorem parseEntry_eq_ok {e : Entry} :
    parseEntry low high t = .ok e ↔ WrittenEntry low high t e := by
  rw [parseEntry]
  split_ifs with hnil
  · subst hnil
    refine iff_of_false nofun ?_
    intro h
    generalize ht : ([] : Text) = t at h
    cases h with
    | whole hb => exact hb.ne_nil ht.symm
    | stepped hb hs => exact absurd ht.symm (by simp)
  cases hpart : Text.partition? ['/'] t with
  | none =>
    simp only [Failing.bind_eq_ok, Prod.exists, parseBase_eq_ok, Except.ok.injEq]
    constructor
    · rintro ⟨m, n, hb, rfl⟩
      exact .whole hb
    · intro h
      cases h with
      | @whole _ m n hb => exact ⟨m, n, hb, rfl⟩
      | stepped hb hs =>
        rw [Text.partition?_char.2 ⟨rfl, hb.notMem_slash⟩] at hpart
        exact nomatch hpart
  | some parts =>
    obtain ⟨b, s⟩ := parts
    obtain ⟨rfl, hn⟩ := Text.partition?_char.1 hpart
    simp only [Failing.bind_eq_ok, Prod.exists, parseBase_eq_ok, parseNumber_eq_ok,
      Except.ok.injEq]
    constructor
    · rintro ⟨k, hs, m, n, hb, rfl⟩
      exact .stepped hb hs
    · intro h
      generalize ht : b ++ '/' :: s = t at h
      cases h with
      | whole hb => exact absurd (ht ▸ by simp) hb.notMem_slash
      | @stepped b' s' m n k hb hs =>
        have hparts := Text.partition?_char.2 ⟨ht.symm, hn⟩
        rw [Text.partition?_char.2 ⟨rfl, hb.notMem_slash⟩] at hparts
        obtain ⟨rfl, rfl⟩ := Prod.mk.inj (Option.some.inj hparts)
        exact ⟨k, hs, m, n, hb, rfl⟩

end

/-! ## Lists -/

/-- A text without white space. -/
def Solid (t : Text) : Prop := ∀ c ∈ t, Text.isSpace c = false

theorem Solid.split {t : Text} (h : Solid t) {sep : Char} {p : Text} (hp : p ∈ Text.split sep t) :
    Text.strip p = p :=
  Text.strip_eq_self fun _ hc => h _ (Text.mem_of_mem_split hp hc)

theorem solid_of_mem_words {s w : Text} (h : w ∈ words s) : Solid w := by
  have hsolid : ∀ s : Text, ∀ w ∈ s.splitOnP Text.isSpace, Solid w := by
    intro s
    induction s with
    | nil =>
      intro w hw
      rw [List.splitOnP_nil, List.mem_singleton] at hw
      exact hw ▸ List.forall_mem_nil _
    | cons c s ih =>
      intro w hw
      rw [List.splitOnP_cons_eq_if_modifyHead] at hw
      split_ifs at hw with hc
      · rcases List.mem_cons.1 hw with rfl | hw
        · exact List.forall_mem_nil _
        · exact ih w hw
      · cases hs : s.splitOnP Text.isSpace with
        | nil => exact absurd hs (List.splitOnP_ne_nil _ _)
        | cons p ps =>
          rw [hs] at hw ih
          rcases List.mem_cons.1 hw with rfl | hw
          · intro c' hc'
            rcases List.mem_cons.1 hc' with rfl | hc'
            · exact Bool.eq_false_iff.2 hc
            · exact ih p List.mem_cons_self c' hc'
          · exact ih w (List.mem_cons_of_mem _ hw)
  exact hsolid s w (List.mem_of_mem_filter h)

section

variable {low high : ℕ} {sundayAlias : Bool} {raw : Text} {values : Finset ℕ}

theorem foldlM_collect_eq_ok : ∀ (tokens : List Text) (start : Finset ℕ),
    (∀ t ∈ tokens, Text.strip t = t) →
      (tokens.foldlM (collect low high sundayAlias) start = .ok values ↔
        ∃ f, List.Forall₂ (WrittenEntry low high) tokens f ∧
          values = f.foldl (fun vs e => vs ∪ e.values (nameOf sundayAlias)) start)
  | [], start, _ => by
    rw [List.foldlM_nil]
    constructor
    · intro h
      exact ⟨[], .nil, (Except.ok.inj h).symm⟩
    · rintro ⟨f, hf, rfl⟩
      cases hf
      rfl
  | t :: tokens, start, hstrip => by
    obtain ⟨ht, htokens⟩ := List.forall_mem_cons.1 hstrip
    have ih := fun start => foldlM_collect_eq_ok tokens start htokens
    rw [Failing.foldlM_cons_eq_ok]
    simp only [collect, ht, Failing.bind_eq_ok, parseEntry_eq_ok]
    constructor
    · rintro ⟨_, ⟨e, he, ⟨⟩⟩, hrest⟩
      obtain ⟨f, hf, rfl⟩ := (ih _).1 hrest
      exact ⟨e :: f, .cons he hf, rfl⟩
    · rintro ⟨f, hf, rfl⟩
      cases hf with
      | @cons _ e _ f he hf =>
        exact ⟨_, ⟨e, he, rfl⟩, (ih _).2 ⟨f, hf, rfl⟩⟩

theorem WrittenField.ne_nil {f : Entries} (h : WrittenField low high raw f) : raw ≠ [] := by
  rintro rfl
  cases h with
  | cons he _ =>
    generalize ht : ([] : Text) = t at he
    cases he with
    | whole hb => exact hb.ne_nil ht.symm
    | stepped hb hs => exact absurd ht.symm (by simp)

theorem WrittenField.bounds (hlow : low ≤ high) {f : Entries} (h : WrittenField low high raw f) :
    ∀ e ∈ f, 0 < e.step ∧ low ≤ e.start ∧ e.start ≤ e.stop ∧ e.stop ≤ high := by
  intro e he
  obtain ⟨t, -, ht⟩ := Failing.exists_of_forall₂ h he
  exact ht.bounds hlow

theorem WrittenField.values_ne_empty (hlow : low ≤ high) {f : Entries}
    (h : WrittenField low high raw f) (name : ℕ → ℕ) : f.values name ≠ ∅ := by
  have hbounds := h.bounds hlow
  cases hf : f with
  | nil =>
    rw [hf] at h
    exact absurd (List.forall₂_nil_right_iff.1 h) (Text.split_ne_nil ',' raw)
  | cons e f' =>
    rw [hf] at hbounds
    refine Finset.ne_empty_of_mem
      ((Entries.mem_values fun e he => (hbounds e he).1).2 ⟨e, List.mem_cons_self, e.start, ?_, rfl⟩)
    exact ⟨0, by rw [zero_mul, add_zero], (hbounds e List.mem_cons_self).2.2.1⟩

/-- The values of a field are those of a list of entries, and the field is a wildcard if they are
all. -/
theorem parseField_eq_ok (hsolid : Solid raw) (hlow : low ≤ high) {wildcard : Bool} :
    parseField raw low high sundayAlias = .ok (values, wildcard) ↔
      ∃ f, WrittenField low high raw f ∧ values = f.values (nameOf sundayAlias) ∧
        (wildcard = true ↔ f.Covers (nameOf sundayAlias) low high) := by
  have hcollect := fun values => @foldlM_collect_eq_ok low high sundayAlias values
    (Text.split ',' raw) ∅ fun _ ht => hsolid.split ht
  have hcovers : ∀ f : Entries, WrittenField low high raw f →
      (f.values (nameOf sundayAlias) =
          ((range low (high + 1) 1).map (nameOf sundayAlias)).toFinset ↔
        f.Covers (nameOf sundayAlias) low high) := fun f hf =>
    Entries.values_eq_iff fun e he =>
      let h := hf.bounds hlow e he
      ⟨h.1, h.2.1, h.2.2.2⟩
  simp only [parseField, Text.strip_eq_self hsolid]
  constructor
  · intro h
    split_ifs at h with hnil
    obtain ⟨vs, hvs, h⟩ := Failing.bind_eq_ok.1 h
    obtain ⟨f, hf, rfl⟩ := (hcollect vs).1 hvs
    split_ifs at h with hempty
    obtain ⟨rfl, rfl⟩ := Prod.mk.inj (Except.ok.inj h)
    exact ⟨f, hf, rfl, by rw [decide_eq_true_eq]; exact hcovers f hf⟩
  · rintro ⟨f, hf, rfl, hw⟩
    rw [if_neg hf.ne_nil, Failing.bind_eq_ok]
    refine ⟨f.values (nameOf sundayAlias), (hcollect _).2 ⟨f, hf, rfl⟩, ?_⟩
    rw [if_neg (hf.values_ne_empty hlow (nameOf sundayAlias))]
    rw [← hcovers f hf] at hw
    rw [Bool.eq_iff_iff.2 (hw.trans decide_eq_true_iff.symm)]

end

theorem nameOf_false : nameOf false = id := by
  funext v
  rfl

theorem nameOf_true : nameOf true = sunday := by
  funext v
  by_cases h : v = 7 <;> simp [nameOf, sunday, h]

/-- A schedule has the values of an expression, and its wildcards are the free fields. -/
structure Schedule.Of (s : Schedule) (c : Expression) : Prop where
  minutes : s.minutes = c.minute.values id
  hours : s.hours = c.hour.values id
  days : s.days = c.day.values id
  months : s.months = c.month.values id
  weekdays : s.weekdays = c.weekday.values sunday
  daysWildcard : s.daysWildcard = true ↔ c.day.Covers id 1 31
  weekdaysWildcard : s.weekdaysWildcard = true ↔ c.weekday.Covers sunday 0 7

theorem exists_wildcard (p : Prop) : ∃ b : Bool, b = true ↔ p := by
  classical
  exact ⟨decide p, decide_eq_true_iff⟩

/-- The parser accepts the texts written for an expression. -/
theorem parse_eq_ok {t : Text} {s : Schedule} :
    Schedule.parse t = .ok s ↔ ∃ c, Written t c ∧ s.Of c := by
  have hsolid : ∀ w ∈ words t, Solid w := fun w hw => solid_of_mem_words hw
  rw [Schedule.parse]
  split
  case h_1 minute hour day month weekday hwords =>
    simp only [hwords, List.forall_mem_cons] at hsolid
    obtain ⟨h₁, h₂, h₃, h₄, h₅, -⟩ := hsolid
    simp only [Failing.bind_eq_ok, Prod.exists, parseField_eq_ok h₁ (by decide : 0 ≤ 59),
      parseField_eq_ok h₂ (by decide : 0 ≤ 23), parseField_eq_ok h₃ (by decide : 1 ≤ 31),
      parseField_eq_ok h₄ (by decide : 1 ≤ 12), parseField_eq_ok h₅ (by decide : 0 ≤ 7),
      nameOf_false, nameOf_true]
    constructor
    · rintro ⟨_, _, ⟨fm, hm, rfl, -⟩, _, _, ⟨fh, hh, rfl, -⟩, _, dw, ⟨fd, hd, rfl, hdw⟩, _, _,
        ⟨fo, ho, rfl, -⟩, _, ww, ⟨fw, hw, rfl, hww⟩, ⟨⟩⟩
      exact ⟨⟨fm, fh, fd, fo, fw⟩, ⟨minute, hour, day, month, weekday, hwords, hm, hh, hd, ho, hw⟩,
        ⟨rfl, rfl, rfl, rfl, rfl, hdw, hww⟩⟩
    · rintro ⟨c, ⟨_, _, _, _, _, hwords', hm, hh, hd, ho, hw⟩, hs⟩
      rw [hwords] at hwords'
      obtain ⟨rfl, rfl, rfl, rfl, rfl⟩ :
          minute = _ ∧ hour = _ ∧ day = _ ∧ month = _ ∧ weekday = _ := by
        simpa using hwords'
      obtain ⟨mw, hmw⟩ := exists_wildcard (c.minute.Covers id 0 59)
      obtain ⟨hw', hhw⟩ := exists_wildcard (c.hour.Covers id 0 23)
      obtain ⟨ow, how⟩ := exists_wildcard (c.month.Covers id 1 12)
      obtain ⟨minutes, hours, days, months, weekdays, dw, ww⟩ := s
      exact ⟨minutes, mw, ⟨c.minute, hm, hs.minutes, hmw⟩, hours, hw', ⟨c.hour, hh, hs.hours, hhw⟩,
        days, dw, ⟨c.day, hd, hs.days, hs.daysWildcard⟩, months, ow, ⟨c.month, ho, hs.months, how⟩,
        weekdays, ww, ⟨c.weekday, hw, hs.weekdays, hs.weekdaysWildcard⟩, rfl⟩
  case h_2 hne =>
    refine iff_of_false nofun ?_
    rintro ⟨c, ⟨minute, hour, day, month, weekday, hwords, -⟩, -⟩
    exact hne minute hour day month weekday hwords

/-- The schedule of an expression matches the instants that it selects. -/
theorem Schedule.matches_iff {s : Schedule} {c : Expression} {t : Text} (hc : Written t c)
    (hs : s.Of c) (i : Instant) : s.matches i = true ↔ c.Matches i.moment := by
  obtain ⟨_, _, _, _, _, -, hm, hh, hd, ho, hw⟩ := hc
  have hstep : ∀ {low high : ℕ} {raw : Text} {f : Entries} {name : ℕ → ℕ} {v : ℕ}, low ≤ high →
      WrittenField low high raw f → (v ∈ f.values name ↔ f.Selects name v) := fun hlow hf =>
    Entries.mem_values fun e he => (hf.bounds hlow e he).1
  have hweekday : (i.weekday + 1) % 7 = i.moment.weekday := by
    simp only [Instant.weekday, Instant.moment]
    omega
  have hfree : (s.daysWildcard || s.weekdaysWildcard) = true ↔ c.DayFree := by
    rw [Bool.or_eq_true, hs.daysWildcard, hs.weekdaysWildcard, Expression.DayFree]
  have hminute : i.minute ∈ s.minutes ↔ c.minute.Selects id i.moment.minute := by
    rw [hs.minutes]
    exact hstep (by decide) hm
  have hhour : i.hour ∈ s.hours ↔ c.hour.Selects id i.moment.hour := by
    rw [hs.hours]
    exact hstep (by decide) hh
  have hmonth : i.month ∈ s.months ↔ c.month.Selects id i.moment.month := by
    rw [hs.months]
    exact hstep (by decide) ho
  have hday : i.day ∈ s.days ↔ c.day.Selects id i.moment.day := by
    rw [hs.days]
    exact hstep (by decide) hd
  have hwday : i.moment.weekday ∈ s.weekdays ↔ c.weekday.Selects sunday i.moment.weekday := by
    rw [hs.weekdays]
    exact hstep (by decide) hw
  rw [Schedule.matches, Expression.Matches, Expression.SelectsDay, ← hminute, ← hhour, ← hmonth,
    ← hday, ← hwday, ← hfree, hweekday]
  split_ifs with hout hfield
  · refine iff_of_false not_false ?_
    rintro ⟨hm', hh', ho', -⟩
    rcases hout with h | h | h
    · exact h hm'
    · exact h hh'
    · exact h ho'
  · simp only [not_or, not_not] at hout
    simp only [Bool.and_eq_true, decide_eq_true_eq, hout, hfield, true_and, not_true, false_and,
      or_false]
  · simp only [not_or, not_not] at hout
    simp only [Bool.or_eq_true, decide_eq_true_eq, hout, hfield, true_and]
    exact ⟨fun h => .inr ⟨Bool.false_ne_true, h⟩, fun h => h.elim (fun h => .inl h.1) And.right⟩

/-! ## The first fault -/

/-- What the parser checks, in its order : a place where it raises an error of its own, a number
and its bounds, or the order of a range. -/
inductive Reading where
  | fault
  | numeral (t : Text) (low high : ℕ)
  | ascending (a b : Text)

namespace Reading

/-- The check passes. -/
def holds : Reading → Bool
  | fault => false
  | numeral t low high =>
    RangeServing.isdigit t &&
      match RangeServing.int t with
      | .ok k => low ≤ k && k ≤ high
      | .error _ => false
  | ascending a b =>
    match RangeServing.int a, RangeServing.int b with
    | .ok m, .ok n => m ≤ n
    | _, _ => false

/-- The check is of a text of digits that `int` does not read. -/
def unread : Reading → Bool
  | numeral t _ _ =>
    RangeServing.isdigit t &&
      match RangeServing.int t with
      | .ok _ => false
      | .error _ => true
  | _ => false

end Reading

/-- The checks of the bounds of an entry. -/
def baseReadings (low high : ℕ) (base : Text) : List Reading :=
  if base = ['*'] then []
  else
    match Text.partition? ['-'] base with
    | some (a, b) => [.numeral a low high, .numeral b low high, .ascending a b]
    | none => [.numeral base low high]

/-- The checks of an entry. Its step comes first. -/
def entryReadings (low high : ℕ) (token : Text) : List Reading :=
  if token = [] then [.fault]
  else
    match Text.partition? ['/'] token with
    | some (base, step) => .numeral step 1 (high - low + 1) :: baseReadings low high base
    | none => baseReadings low high token

/-- The checks of a field. -/
def fieldReadings (low high : ℕ) (raw : Text) : List Reading :=
  (Text.split ',' raw).flatMap (entryReadings low high)

/-- The checks of an expression. -/
def readings (expression : Text) : List Reading :=
  match words expression with
  | [minute, hour, day, month, weekday] =>
    fieldReadings 0 59 minute ++ (fieldReadings 0 23 hour ++ (fieldReadings 1 31 day ++
      (fieldReadings 1 12 month ++ fieldReadings 0 7 weekday)))
  | _ => [.fault]

/-- The first check that does not pass, if there is one. -/
def firstFault (rs : List Reading) : Option Reading := rs.find? fun r => !r.holds

/-- A result fits the checks : it is an error of the kind of the first that does not pass. -/
def Fits {α : Type} (rs : List Reading) : Except ParseError α → Prop
  | .ok _ => firstFault rs = none
  | .error (.backupCron _) => ∃ r, firstFault rs = some r ∧ r.unread = false
  | .error .value => ∃ r, firstFault rs = some r ∧ r.unread = true

section

variable {α β : Type} {rs : List Reading} {low high : ℕ} {sundayAlias : Bool} {t : Text}

theorem Fits.bind {x : Except ParseError α} {f : α → Except ParseError β} (hx : Fits rs x)
    (rs' : List Reading) (hf : ∀ a, x = .ok a → Fits rs' (f a)) : Fits (rs ++ rs') (x >>= f) := by
  have happend : firstFault (rs ++ rs') = (firstFault rs).or (firstFault rs') := List.find?_append
  cases x with
  | ok a =>
    have hnone : firstFault (rs ++ rs') = firstFault rs' := by
      rw [happend, show firstFault rs = none from hx, Option.none_or]
    have hfa := hf a rfl
    show Fits (rs ++ rs') (f a)
    cases hb : f a with
    | ok b =>
      rw [hb] at hfa
      exact hnone.trans hfa
    | error e =>
      rw [hb] at hfa
      cases e with
      | backupCron text => exact hfa.imp fun r h => ⟨hnone.trans h.1, h.2⟩
      | value => exact hfa.imp fun r h => ⟨hnone.trans h.1, h.2⟩
  | error e =>
    have hsome : ∀ r, firstFault rs = some r → firstFault (rs ++ rs') = some r := by
      intro r hr
      rw [happend, hr, Option.some_or]
    cases e with
    | backupCron text => exact hx.imp fun r h => ⟨hsome r h.1, h.2⟩
    | value => exact hx.imp fun r h => ⟨hsome r h.1, h.2⟩

theorem fits_parseNumber : Fits [.numeral t low high] (parseNumber t low high) := by
  have hfirst : ∀ r : Reading, firstFault [r] = if r.holds then none else some r := by
    intro r
    cases hr : r.holds <;> simp [firstFault, List.find?, hr]
  cases hdigit : RangeServing.isdigit t with
  | false => simp [parseNumber, Fits, hfirst, Reading.holds, Reading.unread, hdigit]
  | true =>
    cases hint : RangeServing.int t with
    | error e =>
      simp [parseNumber, Fits, hfirst, Reading.holds, Reading.unread, hdigit, int, hint,
        Except.mapError, bind, Except.bind]
    | ok k =>
      by_cases hin : low ≤ k ∧ k ≤ high
      · simp [parseNumber, Fits, hfirst, Reading.holds, hdigit, int, hint, Except.mapError, hin]
      · simp [parseNumber, Fits, hfirst, Reading.holds, Reading.unread, hdigit, int, hint,
          Except.mapError, hin]

theorem fits_ok {a : α} : Fits [] (Except.ok a : Except ParseError α) := rfl

theorem fits_fault {text : Text} :
    Fits [.fault] (.error (.backupCron text) : Except ParseError α) := ⟨.fault, rfl, rfl⟩

theorem fits_ascending {a b : Text} {m n : ℕ} (ha : Numeral low high a m)
    (hb : Numeral low high b n) : Fits [.ascending a b]
      (if m > n then .error (.backupCron ascendingText) else .ok (m, n)) := by
  have hholds : (Reading.ascending a b).holds = decide (m ≤ n) := by
    simp only [Reading.holds, ha.1.2, hb.1.2]
  split_ifs with hlt
  · have hno : decide (m ≤ n) = false := decide_eq_false (by omega)
    exact ⟨.ascending a b, by simp [firstFault, List.find?, hholds, hno], rfl⟩
  · have hyes : decide (m ≤ n) = true := decide_eq_true (by omega)
    simp [Fits, firstFault, List.find?, hholds, hyes]

theorem fits_parseBase : Fits (baseReadings low high t) (parseBase t low high) := by
  rw [baseReadings, parseBase]
  split_ifs with hstar
  · exact fits_ok
  · cases Text.partition? ['-'] t with
    | none =>
      exact fits_parseNumber.bind [] fun m _ => fits_ok
    | some parts =>
      obtain ⟨a, b⟩ := parts
      refine fits_parseNumber.bind [.numeral b low high, .ascending a b] fun m hm => ?_
      refine fits_parseNumber.bind [.ascending a b] fun n hn => ?_
      exact fits_ascending (parseNumber_eq_ok.1 hm) (parseNumber_eq_ok.1 hn)

theorem fits_parseEntry : Fits (entryReadings low high t) (parseEntry low high t) := by
  have hwhole : ∀ (base : Text) (step : ℕ), Fits (baseReadings low high base) (do
      let (start, stop) ← parseBase base low high
      .ok (⟨start, stop, step⟩ : Entry)) := by
    intro base step
    rw [← List.append_nil (baseReadings low high base)]
    exact fits_parseBase.bind _ fun _ _ => fits_ok
  rw [entryReadings, parseEntry]
  split_ifs with hnil
  · exact fits_fault
  · cases Text.partition? ['/'] t with
    | none => exact hwhole t 1
    | some parts =>
      obtain ⟨base, step⟩ := parts
      exact fits_parseNumber.bind (baseReadings low high base) fun k _ => hwhole base k

theorem fits_foldlM_collect : ∀ (tokens : List Text) (start : Finset ℕ),
    (∀ t ∈ tokens, Text.strip t = t) →
      Fits (tokens.flatMap (entryReadings low high))
        (tokens.foldlM (collect low high sundayAlias) start)
  | [], _, _ => fits_ok
  | t :: tokens, start, hstrip => by
    obtain ⟨ht, htokens⟩ := List.forall_mem_cons.1 hstrip
    have hcollect : Fits (entryReadings low high t)
        (collect low high sundayAlias start t) := by
      rw [collect, ht, ← List.append_nil (entryReadings low high t)]
      exact fits_parseEntry.bind _ fun _ _ => fits_ok
    exact hcollect.bind _ fun _ _ => fits_foldlM_collect tokens _ htokens

theorem fits_parseField {raw : Text} (hsolid : Solid raw) (hlow : low ≤ high) :
    Fits (fieldReadings low high raw) (parseField raw low high sundayAlias) := by
  simp only [fieldReadings, parseField, Text.strip_eq_self hsolid]
  split_ifs with hnil
  · subst hnil
    exact fits_fault
  · have hfold := @fits_foldlM_collect low high sundayAlias (Text.split ',' raw) ∅
      fun _ ht => hsolid.split ht
    rw [← List.append_nil (List.flatMap _ _)]
    refine hfold.bind _ fun values hvalues => ?_
    obtain ⟨f, hf, rfl⟩ := (foldlM_collect_eq_ok _ _ fun _ ht => hsolid.split ht).1 hvalues
    have hne : Entries.values (nameOf sundayAlias) f ≠ ∅ := WrittenField.values_ne_empty hlow hf _
    rw [if_neg (show ¬ List.foldl _ ∅ f = ∅ from hne)]
    exact fits_ok

/-- The result of the parser is of the kind of the first check that does not pass. -/
theorem fits_parse : Fits (readings t) (Schedule.parse t) := by
  have hsolid : ∀ w ∈ words t, Solid w := fun w hw => solid_of_mem_words hw
  rw [readings, Schedule.parse]
  split
  case h_1 minute hour day month weekday hwords =>
    simp only [hwords, List.forall_mem_cons] at hsolid
    obtain ⟨h₁, h₂, h₃, h₄, h₅, -⟩ := hsolid
    refine (fits_parseField h₁ (by decide)).bind _ fun _ _ => ?_
    refine (fits_parseField h₂ (by decide)).bind _ fun _ _ => ?_
    refine (fits_parseField h₃ (by decide)).bind _ fun _ _ => ?_
    refine (fits_parseField h₄ (by decide)).bind _ fun _ _ => ?_
    rw [← List.append_nil (fieldReadings 0 7 weekday)]
    exact (fits_parseField h₅ (by decide)).bind _ fun _ _ => fits_ok
  case h_2 => exact fits_fault

/-- An expression means what it is written for, or is refused with a `BackupCronError`, exactly if
the first fault in it is not a number that `int` does not read. -/
theorem parse_meets_iff (expression : Text) :
    ((∃ text, Schedule.parse expression = .error (.backupCron text)) ∨
        ∃ s c, Schedule.parse expression = .ok s ∧ Written expression c ∧
          ∀ i : Instant, s.matches i = true ↔ c.Matches i.moment) ↔
      ∀ r, firstFault (readings expression) = some r → r.unread = false := by
  have hfits := fits_parse (t := expression)
  cases hparse : Schedule.parse expression with
  | ok s =>
    rw [hparse] at hfits
    obtain ⟨c, hc, hs⟩ := parse_eq_ok.1 hparse
    refine iff_of_true (.inr ⟨s, c, rfl, hc, s.matches_iff hc hs⟩) fun r hr => ?_
    exact absurd (hr.symm.trans hfits) (Option.some_ne_none r)
  | error e =>
    rw [hparse] at hfits
    cases e with
    | backupCron text =>
      obtain ⟨r, hr, hunread⟩ := hfits
      refine iff_of_true (.inl ⟨text, rfl⟩) fun r' hr' => ?_
      rw [← Option.some.inj (hr.symm.trans hr')]
      exact hunread
    | value =>
      obtain ⟨r, hr, hunread⟩ := hfits
      refine iff_of_false ?_ fun h => ?_
      · rintro (⟨text, h⟩ | ⟨s, c, h, -⟩)
        · exact nomatch h
        · exact nomatch h
      · exact Bool.false_ne_true ((h r hr).symm.trans hunread)

/-- A superscript in the first field is a digit that `int` does not read. -/
theorem superscript_raises : ¬∀ expression : Text,
    (∃ text, Schedule.parse expression = .error (.backupCron text)) ∨
      ∃ s c, Schedule.parse expression = .ok s ∧ Written expression c ∧
        ∀ i : Instant, s.matches i = true ↔ c.Matches i.moment := by
  intro h
  have hparse : Schedule.parse "² * * * *" = .error .value := rfl
  rcases h "² * * * *" with ⟨text, h⟩ | ⟨s, c, h, -⟩
  · rw [hparse] at h
    exact nomatch h
  · rw [hparse] at h
    exact nomatch h

end

end BackupCron

end PPBase
