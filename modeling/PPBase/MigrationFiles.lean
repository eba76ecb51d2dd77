import PPBase.Interleaving
import PPBase.Text

/-!
# Writers of migration files

`_write_migration_file` gives a migration the next timestamp of its directory: it lists the
directory, reserves a timestamp by a file that only one writer can create, links the migration
under it, and removes the reservation. `Writer` says which call of a writer comes next and `call`
what that call does, when it goes through and when it raises. Any number of writers take turns on
one directory.

Between the listing and the reservation of a timestamp, another writer may publish a migration of
that timestamp and remove its reservation. `timestamps_distinct` : in every run without that
(`Unraced`), no two migrations that were published have one timestamp, and in every run a writer
that begins after another has returned gets a larger one. `race` is a run with two migrations of one
timestamp.
-/

namespace PPBase

namespace MigrationFiles

/-! ## File names -/

/-- `_.+\.py`, with `.` for any character but a line break -/
def isRest (rest : Text) : Bool :=
  rest.head? = some '_' && decide (".py".toList <:+ rest) && decide (5 ≤ rest.length) &&
    '\n' ∉ rest

/-- The number of the digits before the rest of a name. -/
def leadingNumber? (name : Text) : Option (ℕ × Text) :=
  let digits := name.takeWhile Char.isDigit
  if digits = [] then none else some (Nat.ofDigitChars 10 digits 0, name.dropWhile Char.isDigit)

/-- `_TIMESTAMPED_FILENAME_RE` -/
def migrationTimestamp? (name : Text) : Option ℕ :=
  match leadingNumber? name with
  | some (timestamp, rest) => if isRest rest then some timestamp else none
  | none => none

/-- `_TIMESTAMP_RESERVATION_RE` -/
def reservationTimestamp? (name : Text) : Option ℕ :=
  match (Text.afterPrefix? ".ppbase-migration-" name).bind leadingNumber? with
  | some (timestamp, rest) => if rest = ".reserve".toList then some timestamp else none
  | none => none

/-- `f"{timestamp}{rest}"` -/
def fileName (timestamp : ℕ) (rest : Text) : Text := Nat.toDigits 10 timestamp ++ rest

/-- `f".ppbase-migration-{timestamp}.reserve"` -/
def reservationName (timestamp : ℕ) : Text :=
  (".ppbase-migration-" : Text) ++ Nat.toDigits 10 timestamp ++ (".reserve" : Text)

/-- `_max_reserved_timestamp` -/
def maxReservedTimestamp (directory : List Text) : Option ℕ :=
  (directory.filterMap fun name =>
    (migrationTimestamp? name).or (reservationTimestamp? name)).max?

/-- The timestamp that a writer reserves after a listing. -/
def nextTimestamp (directory : List Text) (requested : ℕ) : ℕ :=
  match maxReservedTimestamp directory with
  | some largest => max requested (largest + 1)
  | none => requested

/-! ## Writers -/

/-- What a writer does once its reservation is removed. -/
inductive Outcome
  | returned | retried | raised
  deriving DecidableEq

/-- A writer, by the call that comes next. -/
inductive Writer
  -- `_reserve_timestamp`
  | list (requested : ℕ) (rest : Text)
  | reserve (timestamp : ℕ) (rest : Text)
  -- the link, the synchronization, the removal of the link after an error, and of the reservation
  | link (timestamp : ℕ) (rest : Text)
  | sync (timestamp : ℕ) (rest : Text)
  | unlink (timestamp : ℕ) (rest : Text)
  | release (timestamp : ℕ) (rest : Text) (outcome : Outcome)
  | returned (timestamp : ℕ) (rest : Text)
  | raised
  deriving DecidableEq

namespace Writer

/-- `_write_migration_file` of a timestamped name, when its temporary file is written. -/
def Starts (w : Writer) : Prop := ∃ requested rest, isRest rest = true ∧ w = list requested rest

/-- After the reservation is removed. -/
def next (timestamp : ℕ) (rest : Text) : Outcome → Writer
  | .returned => returned timestamp rest
  | .retried => list (timestamp + 1) rest
  | .raised => raised

/-- The next call on the directory. A call that raises has done nothing. -/
def call (directory : List Text) (raises : Bool) : Writer → List Text × Writer
  | list requested rest =>
    if raises then (directory, raised)
    else (directory, reserve (nextTimestamp directory requested) rest)
  | reserve timestamp rest =>
    if raises then (directory, raised)
    else if reservationName timestamp ∈ directory then (directory, list (timestamp + 1) rest)
    else (reservationName timestamp :: directory, link timestamp rest)
  | link timestamp rest =>
    if raises then (directory, release timestamp rest .raised)
    else if fileName timestamp rest ∈ directory then (directory, release timestamp rest .retried)
    else (fileName timestamp rest :: directory, sync timestamp rest)
  | sync timestamp rest =>
    if raises then (directory, unlink timestamp rest)
    else (directory, release timestamp rest .returned)
  | unlink timestamp rest =>
    (if raises then directory else directory.filter (· ≠ fileName timestamp rest),
      release timestamp rest .raised)
  | release timestamp rest outcome =>
    if raises then (directory, raised)
    else (directory.filter (· ≠ reservationName timestamp), next timestamp rest outcome)
  | returned timestamp rest => (directory, returned timestamp rest)
  | raised => (directory, raised)

/-- No migration of the timestamp has been published when it is reserved. -/
def Unraced (directory : List Text) : Writer → Prop
  | reserve timestamp _ => reservationName timestamp ∉ directory →
      ∀ name ∈ directory, migrationTimestamp? name ≠ some timestamp
  | _ => True

end Writer

/-- A directory with its writers. -/
abbrev Writers := Pool (List Text) Writer

/-- A writer takes its next step. -/
def Move (P : Writers) (_ : ℕ) (w : Writer) (directory : List Text) (w' : Writer) : Prop :=
  ∃ raises, w.call P.shared raises = (directory, w')

/-- A writer takes its next step, and is not raced. -/
def UnracedMove (P : Writers) (i : ℕ) (w : Writer) (directory : List Text) (w' : Writer) : Prop :=
  w.Unraced P.shared ∧ Move P i w directory w'

/-- Every order of steps of any number of writers. -/
abbrev Run : Writers → Writers → Prop := Pool.Run Writer.Starts Move

/-- Every order of steps in which no writer is raced. -/
abbrev UnracedRun : Writers → Writers → Prop := Pool.Run Writer.Starts UnracedMove

/-! ## Names and timestamps -/

section Names

variable {timestamp : ℕ} {rest : Text}

theorem leadingNumber?_toDigits {c : Char} (hc : c.isDigit = false) :
    leadingNumber? (Nat.toDigits 10 timestamp ++ c :: rest) = some (timestamp, c :: rest) := by
  have hdigits : ∀ d ∈ Nat.toDigits 10 timestamp, d.isDigit = true := fun d hd =>
    Nat.isDigit_of_mem_toDigits (by decide) (by decide) hd
  have hne : Nat.toDigits 10 timestamp ≠ [] := Nat.toDigits_ne_nil
  rw [leadingNumber?, List.takeWhile_append_of_pos hdigits, List.dropWhile_append_of_pos hdigits,
    List.takeWhile_cons, List.dropWhile_cons, hc]
  simp [hne, Nat.ofDigitChars_ten_toDigits]

theorem migrationTimestamp?_fileName (h : isRest rest = true) :
    migrationTimestamp? (fileName timestamp rest) = some timestamp := by
  have hhead : rest.head? = some '_' := by
    simp only [isRest, Bool.and_eq_true, decide_eq_true_eq] at h
    exact h.1.1.1
  obtain ⟨rest, rfl⟩ := List.head?_eq_some_iff.1 hhead
  rw [migrationTimestamp?, fileName, leadingNumber?_toDigits (by decide)]
  exact if_pos h

theorem migrationTimestamp?_reservationName :
    migrationTimestamp? (reservationName timestamp) = none := by
  rw [migrationTimestamp?]
  rfl

theorem reservationTimestamp?_reservationName :
    reservationTimestamp? (reservationName timestamp) = some timestamp := by
  have hprefix : Text.afterPrefix? ".ppbase-migration-" (reservationName timestamp) =
      some (Nat.toDigits 10 timestamp ++ (".reserve" : Text)) :=
    Text.afterPrefix?_eq_some.2 (List.append_assoc _ _ _)
  have hsuffix : (".reserve" : Text) = '.' :: ("reserve" : Text) := by decide
  rw [reservationTimestamp?, hprefix, Option.bind_some, hsuffix,
    leadingNumber?_toDigits (by decide)]
  exact if_pos (by decide)

theorem reservationName_injective {t t' : ℕ} (h : reservationName t = reservationName t') :
    t = t' := by
  have := congrArg reservationTimestamp? h
  rwa [reservationTimestamp?_reservationName, reservationTimestamp?_reservationName,
    Option.some.injEq] at this

theorem fileName_ne_reservationName {t t' : ℕ} (h : isRest rest = true) :
    fileName t rest ≠ reservationName t' := by
  intro he
  have := congrArg migrationTimestamp? he
  rw [migrationTimestamp?_fileName h, migrationTimestamp?_reservationName] at this
  cases this

/-- A new timestamp is larger than those of the migrations that have been listed. -/
theorem lt_nextTimestamp {directory : List Text} {name : Text} {requested : ℕ}
    (hname : name ∈ directory) (h : migrationTimestamp? name = some timestamp) :
    timestamp < nextTimestamp directory requested := by
  have hmem : timestamp ∈ directory.filterMap fun name =>
      (migrationTimestamp? name).or (reservationTimestamp? name) :=
    List.mem_filterMap.2 ⟨name, hname, by rw [h]; rfl⟩
  rw [nextTimestamp, maxReservedTimestamp]
  split
  · rename_i largest hmax
    have := (List.max?_eq_some_iff.1 hmax).2 timestamp hmem
    omega
  · rename_i hmax
    rw [List.max?_eq_none_iff.1 hmax] at hmem
    cases hmem

end Names

/-! ## One call -/

namespace Writer

/-- The timestamp whose reservation the writer has made. -/
def holds : Writer → Option ℕ
  | link timestamp _ | sync timestamp _ | unlink timestamp _ | release timestamp _ _ =>
    some timestamp
  | _ => none

/-- The migration that the writer has published. -/
def published : Writer → Option Text
  | sync timestamp rest | unlink timestamp rest | release timestamp rest .returned
  | returned timestamp rest => some (fileName timestamp rest)
  | _ => none

/-- The timestamp that the writer has chosen. -/
def timestamp? : Writer → Option ℕ
  | reserve timestamp _ | link timestamp _ | sync timestamp _ | unlink timestamp _
  | release timestamp _ _ | returned timestamp _ => some timestamp
  | _ => none

/-- The name of the migration is one of a migration. -/
def Named : Writer → Prop
  | list _ rest | reserve _ rest | link _ rest | sync _ rest | unlink _ rest | release _ rest _
  | returned _ rest => isRest rest = true
  | raised => True

/-- A call that leaves the directory as it is. -/
structure Quiet (w w' : Writer) : Prop where
  holds : w'.holds = none ∨ w'.holds = w.holds
  published : w'.published = none ∨ w'.published = w.published
  unlinked : ∀ timestamp rest, w' ≠ link timestamp rest

variable {directory directory' : List Text} {w w' : Writer} {raises : Bool}

/-- What a call does to the directory. -/
theorem call_cases (h : w.call directory raises = (directory', w')) :
    directory' = directory ∧ Quiet w w' ∨
      ∃ t rest,
        (w = reserve t rest ∧ reservationName t ∉ directory ∧
          directory' = reservationName t :: directory ∧ w' = link t rest) ∨
        (w = link t rest ∧ fileName t rest ∉ directory ∧
          directory' = fileName t rest :: directory ∧ w' = sync t rest) ∨
        (w = unlink t rest ∧ directory' = directory.filter (· ≠ fileName t rest) ∧
          w' = release t rest .raised) ∨
        ∃ outcome, w = release t rest outcome ∧
          directory' = directory.filter (· ≠ reservationName t) ∧ w' = next t rest outcome := by
  have hquiet : ∀ {w'' : Writer}, (directory, w'') = (directory', w') → Quiet w w'' →
      directory' = directory ∧ Quiet w w' := by
    rintro w'' he hw
    cases he
    exact ⟨rfl, hw⟩
  cases w with
  | list requested rest =>
    rw [call] at h
    split_ifs at h
    · exact .inl (hquiet h ⟨.inl rfl, .inl rfl, nofun⟩)
    · exact .inl (hquiet h ⟨.inl rfl, .inl rfl, nofun⟩)
  | reserve t rest =>
    rw [call] at h
    split_ifs at h with hraises hthere
    · exact .inl (hquiet h ⟨.inl rfl, .inl rfl, nofun⟩)
    · exact .inl (hquiet h ⟨.inl rfl, .inl rfl, nofun⟩)
    · cases h
      exact .inr ⟨t, rest, .inl ⟨rfl, hthere, rfl, rfl⟩⟩
  | link t rest =>
    rw [call] at h
    split_ifs at h with hraises hthere
    · exact .inl (hquiet h ⟨.inr rfl, .inl rfl, nofun⟩)
    · exact .inl (hquiet h ⟨.inr rfl, .inl rfl, nofun⟩)
    · cases h
      exact .inr ⟨t, rest, .inr (.inl ⟨rfl, hthere, rfl, rfl⟩)⟩
  | sync t rest =>
    rw [call] at h
    split_ifs at h
    · exact .inl (hquiet h ⟨.inr rfl, .inr rfl, nofun⟩)
    · exact .inl (hquiet h ⟨.inr rfl, .inr rfl, nofun⟩)
  | unlink t rest =>
    rw [call] at h
    split_ifs at h
    · exact .inl (hquiet h ⟨.inr rfl, .inl rfl, nofun⟩)
    · cases h
      exact .inr ⟨t, rest, .inr (.inr (.inl ⟨rfl, rfl, rfl⟩))⟩
  | release t rest outcome =>
    rw [call] at h
    split_ifs at h
    · exact .inl (hquiet h ⟨.inl rfl, .inl rfl, nofun⟩)
    · cases h
      exact .inr ⟨t, rest, .inr (.inr (.inr ⟨outcome, rfl, rfl, rfl⟩))⟩
  | returned t rest => exact .inl (hquiet h ⟨.inr rfl, .inr rfl, nofun⟩)
  | raised => exact .inl (hquiet h ⟨.inr rfl, .inr rfl, nofun⟩)

theorem call_named (h : w.call directory raises = (directory', w')) (hw : w.Named) : w'.Named := by
  cases w with
  | release t rest outcome =>
    rw [call] at h
    split_ifs at h <;> cases h
    · trivial
    · cases outcome with
      | raised => trivial
      | returned | retried => exact hw
  | raised =>
    cases h
    trivial
  | returned t rest =>
    cases h
    exact hw
  | list | reserve | link | sync | unlink =>
    rw [call] at h
    split_ifs at h <;> cases h <;> first | exact hw | trivial

end Writer

/-- A published name carries the timestamp of its writer. -/
theorem migrationTimestamp?_published {w : Writer} {name : Text} (hw : w.Named)
    (h : w.published = some name) :
    ∃ timestamp, w.timestamp? = some timestamp ∧ migrationTimestamp? name = some timestamp := by
  cases w with
  | sync t rest | unlink t rest | returned t rest =>
    cases h
    exact ⟨t, rfl, migrationTimestamp?_fileName hw⟩
  | release t rest outcome =>
    cases outcome with
    | returned =>
      cases h
      exact ⟨t, rfl, migrationTimestamp?_fileName hw⟩
    | retried | raised => cases h
  | list | reserve | link | raised => cases h

/-! ## Published migrations stay -/

/-- What has been published is there, by one writer each, and so is what was there before. -/
structure Owned (d₀ : List Text) (P : Writers) : Prop where
  named : ∀ w ∈ P.procs, w.Named
  there : ∀ w ∈ P.procs, ∀ name, w.published = some name → name ∈ P.shared ∧ name ∉ d₀
  apart : P.procs.Pairwise fun w w' => ∀ name, w.published = some name → w'.published ≠ some name
  initial : ∀ name ∈ d₀, ∀ t, migrationTimestamp? name = some t → name ∈ P.shared

section Owned

variable {d₀ : List Text} {P : Writers} {i : ℕ} {w w' : Writer} {d' : List Text}

theorem Owned.named_of_call (h : Owned d₀ P) (hw : P.procs[i]? = some w) {raises : Bool}
    (hcall : w.call P.shared raises = (d', w')) : w'.Named :=
  Writer.call_named hcall (h.named w (List.mem_of_getElem? hw))

/-- The state after one writer has moved, from what becomes of its migration and of the others. -/
theorem Owned.of_move (h : Owned d₀ P) (hw : P.procs[i]? = some w) (hnamed : w'.Named)
    (hkeeps : ∀ name ∈ P.shared, ∀ t, migrationTimestamp? name = some t →
      name ∈ d' ∨ w.published = some name ∧ w'.published = none)
    (hpublished : ∀ name, w'.published = some name → name ∈ d' ∧
      (w.published = some name ∨ name ∉ P.shared)) : Owned d₀ ⟨d', P.procs.set i w'⟩ := by
  obtain ⟨hwnamed, hnamed'⟩ := (Pool.forall_procs hw).1 h.named
  obtain ⟨hwthere, hthere⟩ := (Pool.forall_procs hw).1 h.there
  have hsymm : ∀ {w w' : Writer}, (∀ name, w.published = some name → w'.published ≠ some name) →
      ∀ name, w'.published = some name → w.published ≠ some name :=
    fun h name hw' hw => h name hw hw'
  obtain ⟨hwapart, hapart⟩ := (Pool.pairwise_procs hsymm hw).1 h.apart
  have htimestamp : ∀ q ∈ P.procs.eraseIdx i, ∀ name, q.published = some name →
      ∃ t, migrationTimestamp? name = some t := by
    intro q hq name hname
    obtain ⟨t, -, ht⟩ := migrationTimestamp?_published (hnamed' q hq) hname
    exact ⟨t, ht⟩
  refine ⟨(Pool.forall_set w' hw).2 ⟨hnamed, hnamed'⟩, (Pool.forall_set w' hw).2 ⟨?_, ?_⟩,
    (Pool.pairwise_set hsymm w' hw).2 ⟨?_, hapart⟩, ?_⟩
  · intro name hname
    obtain ⟨hin, hold⟩ := hpublished name hname
    refine ⟨hin, ?_⟩
    rcases hold with hold | hold
    · exact (hwthere name hold).2
    · obtain ⟨t, -, ht⟩ := migrationTimestamp?_published hnamed hname
      exact fun hmem => hold (h.initial name hmem t ht)
  · intro q hq name hname
    obtain ⟨hin, hnew⟩ := hthere q hq name hname
    obtain ⟨t, ht⟩ := htimestamp q hq name hname
    refine ⟨(hkeeps name hin t ht).resolve_right fun hgone => ?_, hnew⟩
    exact hwapart q hq name hgone.1 hname
  · intro q hq name hname hq'
    rcases (hpublished name hname).2 with hold | hold
    · exact hwapart q hq name hold hq'
    · exact hold (hthere q hq name hq').1
  · intro name hname t ht
    refine (hkeeps name (h.initial name hname t ht) t ht).resolve_right fun hgone => ?_
    exact (hwthere name hgone.1).2 hname

theorem owned_start : Owned d₀ ⟨d₀, []⟩ :=
  ⟨nofun, nofun, .nil, fun _ h _ _ => h⟩

theorem Owned.step {Q : Writers} (h : Owned d₀ P) (hstep : Pool.Step Writer.Starts Move P Q) :
    Owned d₀ Q := by
  cases hstep with
  | @arrive p hp =>
    obtain ⟨requested, rest, hrest, rfl⟩ := hp
    refine ⟨List.forall_mem_append.2 ⟨h.named, List.forall_mem_singleton.2 hrest⟩,
      List.forall_mem_append.2 ⟨h.there, List.forall_mem_singleton.2 nofun⟩,
      List.pairwise_append.2 ⟨h.apart, List.pairwise_singleton _ _, ?_⟩, h.initial⟩
    intro w _ p hp name _ hname
    rw [List.mem_singleton.1 hp] at hname
    cases hname
  | @move i w w' d' hw hmove =>
    obtain ⟨raises, hcall⟩ := hmove
    have hnamed := h.named_of_call hw hcall
    have hwnamed := h.named w (List.mem_of_getElem? hw)
    have hwthere := h.there w (List.mem_of_getElem? hw)
    rcases Writer.call_cases hcall with ⟨rfl, hquiet⟩ | ⟨t, rest, hcases⟩
    · refine h.of_move hw hnamed (fun name hin _ _ => .inl hin) fun name hname => ?_
      rcases hquiet.published with hnone | hsame
      · rw [hnone] at hname
        cases hname
      · rw [hsame] at hname
        exact ⟨(hwthere name hname).1, .inl hname⟩
    · rcases hcases with ⟨rfl, -, rfl, rfl⟩ | ⟨rfl, hfree, rfl, rfl⟩ | ⟨rfl, rfl, rfl⟩ |
        ⟨outcome, rfl, rfl, rfl⟩
      · exact h.of_move hw hnamed (fun name hin _ _ => .inl (List.mem_cons_of_mem _ hin)) nofun
      · refine h.of_move hw hnamed (fun name hin _ _ => .inl (List.mem_cons_of_mem _ hin)) ?_
        rintro name ⟨⟩
        exact ⟨List.mem_cons_self, .inr hfree⟩
      · refine h.of_move hw hnamed (fun name hin _ _ => ?_) nofun
        by_cases hname : name = fileName t rest
        · exact .inr ⟨by rw [hname]; rfl, rfl⟩
        · exact .inl (List.mem_filter.2 ⟨hin, decide_eq_true hname⟩)
      · have hstays : ∀ name ∈ P.shared, ∀ t', migrationTimestamp? name = some t' →
            name ∈ P.shared.filter (· ≠ reservationName t) := by
          intro name hin t' ht'
          refine List.mem_filter.2 ⟨hin, decide_eq_true fun hname => ?_⟩
          rw [hname, migrationTimestamp?_reservationName] at ht'
          cases ht'
        refine h.of_move hw hnamed (fun name hin t' ht' => .inl (hstays name hin t' ht')) ?_
        intro name hname
        cases outcome with
        | returned =>
          cases hname
          exact ⟨hstays _ (hwthere _ rfl).1 t (migrationTimestamp?_fileName hwnamed), .inl rfl⟩
        | retried | raised => cases hname

theorem Owned.run {Q : Writers} (h : Owned d₀ P) (hrun : Run P Q) : Owned d₀ Q :=
  hrun.invariant Owned.step h

end Owned

/-! ## Reservations -/

/-- The timestamp of a writer that holds its reservation is its own. -/
structure Reserved (d₀ : List Text) (P : Writers) : Prop where
  held : ∀ w ∈ P.procs, ∀ t, w.holds = some t → reservationName t ∈ P.shared
  alone : P.procs.Pairwise fun w w' => ∀ t, w.holds = some t → w'.holds ≠ some t
  free : ∀ w ∈ P.procs, ∀ t rest, w = .link t rest →
    ∀ name ∈ P.shared, migrationTimestamp? name ≠ some t
  distinct : ∀ m ∈ P.shared, ∀ n ∈ P.shared, ∀ t, migrationTimestamp? m = some t →
    migrationTimestamp? n = some t → m ∉ d₀ → m = n

section Reserved

variable {d₀ : List Text} {P Q : Writers} {i : ℕ} {w w' : Writer} {d' : List Text}

theorem reserved_start : Reserved d₀ ⟨d₀, []⟩ :=
  ⟨nofun, .nil, nofun, fun _ hm _ _ _ _ _ hnew => absurd hm hnew⟩

/-- The state after one writer has moved, from what becomes of the reservations and migrations. -/
theorem Reserved.of_move (h : Reserved d₀ P) (hw : P.procs[i]? = some w)
    (hheld : ∀ t, w'.holds = some t → reservationName t ∈ d' ∧
      (w.holds = some t ∨ reservationName t ∉ P.shared))
    (hothers : ∀ t, reservationName t ∈ P.shared → reservationName t ∈ d' ∨ w.holds = some t)
    (hfree : ∀ t rest, w' = .link t rest → ∀ name ∈ d', migrationTimestamp? name ≠ some t)
    (hnew : ∀ name ∈ d', ∀ t, migrationTimestamp? name = some t →
      name ∈ P.shared ∨ ∃ rest, w = .link t rest) (hone : ∀ m ∈ d', ∀ n ∈ d', m ∉ P.shared →
        n ∉ P.shared → m = n) : Reserved d₀ ⟨d', P.procs.set i w'⟩ := by
  obtain ⟨hwheld, hqheld⟩ := (Pool.forall_procs hw).1 h.held
  obtain ⟨hwfree, hqfree⟩ := (Pool.forall_procs hw).1 h.free
  have hsymm : ∀ {w w' : Writer}, (∀ t, w.holds = some t → w'.holds ≠ some t) →
      ∀ t, w'.holds = some t → w.holds ≠ some t := fun h t hw' hw => h t hw hw'
  obtain ⟨hwalone, halone⟩ := (Pool.pairwise_procs hsymm hw).1 h.alone
  refine ⟨(Pool.forall_set w' hw).2 ⟨fun t ht => (hheld t ht).1, ?_⟩,
    (Pool.pairwise_set hsymm w' hw).2 ⟨?_, halone⟩, (Pool.forall_set w' hw).2 ⟨hfree, ?_⟩, ?_⟩
  · intro q hq t ht
    exact (hothers t (hqheld q hq t ht)).resolve_right fun hwt => hwalone q hq t hwt ht
  · intro q hq t ht hqt
    rcases (hheld t ht).2 with hwt | hgone
    · exact hwalone q hq t hwt hqt
    · exact hgone (hqheld q hq t hqt)
  · rintro q hq t rest rfl name hname ht
    rcases hnew name hname t ht with hold | ⟨rest', rfl⟩
    · exact hqfree _ hq t rest rfl name hold ht
    · exact hwalone _ hq t rfl rfl
  · intro m hm n hn t hmt hnt hm₀
    by_cases hmold : m ∈ P.shared
    · by_cases hnold : n ∈ P.shared
      · exact h.distinct m hmold n hnold t hmt hnt hm₀
      · obtain ⟨rest, rfl⟩ := (hnew n hn t hnt).resolve_left hnold
        exact absurd hmt (hwfree t rest rfl m hmold)
    · by_cases hnold : n ∈ P.shared
      · obtain ⟨rest, rfl⟩ := (hnew m hm t hmt).resolve_left hmold
        exact absurd hnt (hwfree t rest rfl n hnold)
      · exact hone m hm n hn hmold hnold

theorem Reserved.step (howned : Owned d₀ P) (h : Reserved d₀ P)
    (hstep : Pool.Step Writer.Starts UnracedMove P Q) : Reserved d₀ Q := by
  cases hstep with
  | @arrive p hp =>
    obtain ⟨requested, rest, hrest, rfl⟩ := hp
    refine ⟨List.forall_mem_append.2 ⟨h.held, List.forall_mem_singleton.2 nofun⟩,
      List.pairwise_append.2 ⟨h.alone, List.pairwise_singleton _ _, ?_⟩,
      List.forall_mem_append.2 ⟨h.free, List.forall_mem_singleton.2 nofun⟩, h.distinct⟩
    intro w _ p hp t _ ht
    rw [List.mem_singleton.1 hp] at ht
    cases ht
  | @move i w w' d' hw hmove =>
    obtain ⟨hunraced, raises, hcall⟩ := hmove
    have hwnamed := howned.named w (List.mem_of_getElem? hw)
    have hwheld := h.held w (List.mem_of_getElem? hw)
    have hwfree := h.free w (List.mem_of_getElem? hw)
    rcases Writer.call_cases hcall with ⟨rfl, hquiet⟩ | ⟨t, rest, hcases⟩
    · refine h.of_move hw ?_ (fun _ => .inl) ?_ (fun _ hin _ _ => .inl hin)
        fun m hm _ _ hnew => absurd hm hnew
      · intro t ht
        rcases hquiet.holds with hnone | hsame
        · rw [hnone] at ht
          cases ht
        · rw [hsame] at ht
          exact ⟨hwheld t ht, .inl ht⟩
      · exact fun t rest hlink => absurd hlink (hquiet.unlinked t rest)
    · rcases hcases with ⟨rfl, hfree, rfl, rfl⟩ | ⟨rfl, hfree, rfl, rfl⟩ | ⟨rfl, rfl, rfl⟩ |
        ⟨outcome, rfl, rfl, rfl⟩
      · -- the reservation is made while there is no migration of the timestamp
        have hnone : ∀ {t'}, migrationTimestamp? (reservationName t) ≠ some t' := by
          intro t' ht'
          rw [migrationTimestamp?_reservationName] at ht'
          cases ht'
        refine h.of_move hw ?_ (fun _ hin => .inl (List.mem_cons_of_mem _ hin)) ?_ ?_ ?_
        · rintro t' ⟨⟩
          exact ⟨List.mem_cons_self, .inr hfree⟩
        · rintro t' rest' ⟨⟩
          exact List.forall_mem_cons.2 ⟨hnone, hunraced hfree⟩
        · intro name hname t' ht'
          rcases List.mem_cons.1 hname with rfl | hname
          · exact absurd ht' hnone
          · exact .inl hname
        · intro m hm n hn hmnew hnnew
          rw [(List.mem_cons.1 hm).resolve_right hmnew, (List.mem_cons.1 hn).resolve_right hnnew]
      · refine h.of_move hw ?_ (fun _ hin => .inl (List.mem_cons_of_mem _ hin)) nofun ?_ ?_
        · rintro t' ⟨⟩
          exact ⟨List.mem_cons_of_mem _ (hwheld t rfl), .inl rfl⟩
        · intro name hname t' ht'
          rcases List.mem_cons.1 hname with rfl | hname
          · rw [migrationTimestamp?_fileName hwnamed, Option.some.injEq] at ht'
            exact .inr ⟨rest, by rw [ht']⟩
          · exact .inl hname
        · intro m hm n hn hmnew hnnew
          rw [(List.mem_cons.1 hm).resolve_right hmnew, (List.mem_cons.1 hn).resolve_right hnnew]
      · have hkeeps : ∀ t', reservationName t' ∈ P.shared →
            reservationName t' ∈ P.shared.filter (· ≠ fileName t rest) := fun t' hin =>
          List.mem_filter.2 ⟨hin, decide_eq_true (fileName_ne_reservationName hwnamed).symm⟩
        refine h.of_move hw ?_ (fun t' hin => .inl (hkeeps t' hin)) nofun
          (fun _ hin _ _ => .inl (List.mem_of_mem_filter hin))
          fun m hm _ _ hnew => absurd (List.mem_of_mem_filter hm) hnew
        rintro t' ⟨⟩
        exact ⟨hkeeps t (hwheld t rfl), .inl rfl⟩
      · refine h.of_move hw ?_ ?_ ?_ (fun _ hin _ _ => .inl (List.mem_of_mem_filter hin))
          fun m hm _ _ hnew => absurd (List.mem_of_mem_filter hm) hnew
        · intro t' ht'
          cases outcome <;> cases ht'
        · intro t' hin
          by_cases ht : t' = t
          · exact .inr (by rw [ht]; rfl)
          · refine .inl (List.mem_filter.2 ⟨hin, decide_eq_true fun he => ?_⟩)
            exact ht (reservationName_injective he)
        · intro t' rest' hlink
          cases outcome <;> cases hlink

end Reserved

/-! ## Order -/

/-- A writer chooses its timestamp by a listing. -/
theorem call_timestamp {directory directory' : List Text} {w w' : Writer} {raises : Bool} {t : ℕ}
    (h : w.call directory raises = (directory', w')) (ht : w'.timestamp? = some t) :
    w.timestamp? = some t ∨ ∃ requested, t = nextTimestamp directory requested := by
  cases w with
  | list requested rest =>
    rw [Writer.call] at h
    split_ifs at h <;> cases h
    · cases ht
    · cases ht
      exact .inr ⟨requested, rfl⟩
  | release t' rest outcome =>
    rw [Writer.call] at h
    split_ifs at h <;> cases h
    · cases ht
    · cases outcome with
      | returned => exact .inl ht
      | retried | raised => cases ht
  | returned | raised =>
    cases h
    exact .inl ht
  | reserve | link | sync | unlink =>
    rw [Writer.call] at h
    split_ifs at h <;> cases h <;> first | exact .inl ht | cases ht

namespace Writer

/-- The writer raises an error, and what it has published is gone. -/
def withdrawn : Writer → Bool
  | release _ _ .raised | raised => true
  | _ => false

variable {directory directory' : List Text} {w w' : Writer} {raises : Bool} {name : Text}

/-- What is published stays, or is withdrawn. -/
theorem call_published (h : w.call directory raises = (directory', w'))
    (hw : w.published = some name) : w'.published = some name ∨ w'.withdrawn = true := by
  cases w with
  | sync t rest =>
    rw [call] at h
    split_ifs at h <;> cases h <;> exact .inl hw
  | unlink t rest =>
    cases h
    exact .inr rfl
  | release t rest outcome =>
    rw [call] at h
    split_ifs at h <;> cases h
    · exact .inr rfl
    · cases outcome with
      | returned => exact .inl hw
      | retried | raised => cases hw
  | returned t rest =>
    cases h
    exact .inl hw
  | list | reserve | link | raised => cases hw

theorem call_withdrawn (h : w.call directory raises = (directory', w'))
    (hw : w.withdrawn = true) : w'.withdrawn = true := by
  cases w with
  | release t rest outcome =>
    rw [call] at h
    split_ifs at h <;> cases h
    · rfl
    · cases outcome with
      | raised => rfl
      | returned | retried => cases hw
  | raised =>
    cases h
    rfl
  | list | reserve | link | sync | unlink | returned => cases hw

end Writer

/-- A writer has published a migration. As long as that is there, the writers from a place on have
larger timestamps. -/
structure Later (i : ℕ) (name : Text) (t n : ℕ) (P : Writers) : Prop where
  writer : ∃ w, P.procs[i]? = some w ∧ (w.published = some name ∨ w.withdrawn = true)
  larger : ∀ w, P.procs[i]? = some w → w.published = some name →
    ∀ (j : ℕ) v t', n ≤ j → P.procs[j]? = some v → v.timestamp? = some t' → t < t'

theorem published_of_withdrawn {w : Writer} (h : w.withdrawn = true) : w.published = none := by
  cases w with
  | release t rest outcome => cases outcome <;> first | rfl | cases h
  | raised => rfl
  | list | reserve | link | sync | unlink | returned => cases h

theorem Later.step {d₀ : List Text} {P Q : Writers} {i t n : ℕ} {name : Text}
    (howned : Owned d₀ P) (hname : migrationTimestamp? name = some t) (h : Later i name t n P)
    (hstep : Pool.Step Writer.Starts Move P Q) : Later i name t n Q := by
  obtain ⟨w₀, hw₀, hstate⟩ := h.writer
  have hi := (List.getElem?_eq_some_iff.1 hw₀).1
  cases hstep with
  | @arrive p hp =>
    obtain ⟨requested, rest', -, rfl⟩ := hp
    have hold : (P.procs ++ [.list requested rest'])[i]? = P.procs[i]? :=
      List.getElem?_append_left hi
    refine ⟨⟨w₀, hold.trans hw₀, hstate⟩, fun w hw hpublished j v t' hj hv ht' => ?_⟩
    rcases Pool.mem_of_getElem?_append hv with hv | rfl
    · exact h.larger w (hold.symm.trans hw) hpublished j v t' hj hv ht'
    · cases ht'
  | @move k w w' d' hw hmove =>
    obtain ⟨raises, hcall⟩ := hmove
    -- if the migration is there after the step, it was there before
    have hstays : ∀ v, (P.procs.set k w')[i]? = some v →
        (v.published = some name ∨ v.withdrawn = true) ∧
          (v.published = some name → w₀.published = some name) := by
      intro v hv
      rcases Pool.of_getElem?_set hv with ⟨rfl, rfl⟩ | ⟨-, hv⟩
      · obtain rfl := Option.some.inj (hw.symm.trans hw₀)
        refine ⟨hstate.elim (Writer.call_published hcall) fun hgone =>
          .inr (Writer.call_withdrawn hcall hgone), fun hpublished => hstate.resolve_right ?_⟩
        intro hgone
        rw [published_of_withdrawn (Writer.call_withdrawn hcall hgone)] at hpublished
        cases hpublished
      · obtain rfl := Option.some.inj (hv.symm.trans hw₀)
        exact ⟨hstate, id⟩
    refine ⟨?_, fun v hv hpublished j q t' hj hq ht' => ?_⟩
    · obtain ⟨v, hv⟩ : ∃ v, (P.procs.set k w')[i]? = some v :=
        ⟨_, List.getElem?_eq_getElem (by rwa [List.length_set])⟩
      exact ⟨v, hv, (hstays v hv).1⟩
    · have hbefore := (hstays v hv).2 hpublished
      have hlarger := h.larger w₀ hw₀ hbefore
      rcases Pool.of_getElem?_set hq with ⟨rfl, rfl⟩ | ⟨-, hq⟩
      · rcases call_timestamp hcall ht' with hold | ⟨requested, rfl⟩
        · exact hlarger k w t' hj hw hold
        · exact lt_nextTimestamp
            (howned.there _ (List.mem_of_getElem? hw₀) name hbefore).1 hname
      · exact hlarger j q t' hj hq ht'

/-- A writer that has returned stays. -/
theorem returned_step {P Q : Writers} {i t : ℕ} {rest : Text}
    (h : P.procs[i]? = some (.returned t rest)) (hstep : Pool.Step Writer.Starts Move P Q) :
    Q.procs[i]? = some (.returned t rest) := by
  have hi := (List.getElem?_eq_some_iff.1 h).1
  cases hstep with
  | arrive hp => rw [List.getElem?_append_left hi, h]
  | @move k w w' d' hw hmove =>
    obtain ⟨raises, hcall⟩ := hmove
    by_cases hk : k = i
    · rw [hk, h] at hw
      cases hw
      cases hcall
      rw [hk, List.getElem?_set_self hi]
    · rw [List.getElem?_set_ne hk, h]

/-- Every unraced step is a step. -/
theorem UnracedRun.run {P Q : Writers} (h : UnracedRun P Q) : Run P Q := by
  induction h with
  | refl => exact .refl
  | tail _ hstep ih =>
    cases hstep with
    | arrive hp => exact ih.tail (.arrive hp)
    | move hw hmove => exact ih.tail (.move hw hmove.2)

/-- In every run in which no writer is raced, no two migrations have one timestamp, but for those
that were there before, and no two writers return the same. In every run, a writer that begins after
another has published gets a larger timestamp, unless the other one has withdrawn its migration. -/
theorem timestamps_distinct (d₀ : List Text) :
    (∀ P, UnracedRun ⟨d₀, []⟩ P →
      (∀ m ∈ P.shared, ∀ n ∈ P.shared, ∀ t, migrationTimestamp? m = some t →
        migrationTimestamp? n = some t → m ∉ d₀ → m = n) ∧
      ∀ (i j t t' : ℕ) rest rest', P.procs[i]? = some (.returned t rest) →
        P.procs[j]? = some (.returned t' rest') → fileName t rest ∈ P.shared ∧ (t = t' → i = j)) ∧
    ∀ P Q, Run ⟨d₀, []⟩ P → Run P Q → ∀ (i j t t' : ℕ) name w v, P.procs[i]? = some w →
      w.published = some name → migrationTimestamp? name = some t →
      ((∃ rest, w = .returned t rest) ∨ ∃ w', Q.procs[i]? = some w' ∧ w'.published ≠ none) →
      P.procs.length ≤ j → Q.procs[j]? = some v → v.timestamp? = some t' → t < t' := by
  constructor
  · intro P hrun
    have hboth : Owned d₀ P ∧ Reserved d₀ P := by
      refine hrun.invariant (I := fun P => Owned d₀ P ∧ Reserved d₀ P)
        (fun ⟨howned, hreserved⟩ hstep => ⟨?_, ?_⟩) ⟨owned_start, reserved_start⟩
      · exact howned.run (UnracedRun.run (.single hstep))
      · exact hreserved.step howned hstep
    obtain ⟨howned, hreserved⟩ := hboth
    refine ⟨hreserved.distinct, fun i j t t' rest rest' hi hj => ?_⟩
    have hmem := List.mem_of_getElem? hi
    have hmem' := List.mem_of_getElem? hj
    obtain ⟨hthere, hnew⟩ := howned.there _ hmem _ rfl
    refine ⟨hthere, ?_⟩
    rintro rfl
    have hname := hreserved.distinct _ hthere _ (howned.there _ hmem' _ rfl).1 t
      (migrationTimestamp?_fileName (howned.named _ hmem))
      (migrationTimestamp?_fileName (howned.named _ hmem')) hnew
    have hapart := List.pairwise_iff_getElem.1 howned.apart
    obtain ⟨hi, hi'⟩ := List.getElem?_eq_some_iff.1 hi
    obtain ⟨hj, hj'⟩ := List.getElem?_eq_some_iff.1 hj
    rcases Nat.lt_trichotomy i j with hlt | heq | hlt
    · refine absurd ?_ (hapart i j hi hj hlt (fileName t rest) (by rw [hi']; rfl))
      rw [hj', hname]
      rfl
    · exact heq
    · refine absurd ?_ (hapart j i hj hi hlt (fileName t rest') (by rw [hj']; rfl))
      rw [hi', ← hname]
      rfl
  · intro P Q hP hPQ i j t t' name w v hw hpublished hname hthere hlength hv ht'
    have howned := owned_start.run hP
    have hlater : Owned d₀ Q ∧ Later i name t P.procs.length Q := by
      refine hPQ.invariant (I := fun Q => Owned d₀ Q ∧ Later i name t P.procs.length Q)
        (fun ⟨howned, hlater⟩ hstep => ⟨howned.step hstep, hlater.step howned hname hstep⟩)
        ⟨howned, ⟨w, hw, .inl hpublished⟩, fun _ _ _ j v t' hj hv _ => ?_⟩
      rw [List.getElem?_eq_none hj] at hv
      cases hv
    obtain ⟨w', hw', hstate⟩ := hlater.2.writer
    refine hlater.2.larger w' hw' (hstate.resolve_right fun hgone => ?_) j v t' hlength hv ht'
    rcases hthere with ⟨rest, rfl⟩ | ⟨w'', hw'', hne⟩
    · have hreturned := hPQ.invariant (I := fun Q => Q.procs[i]? = some (.returned t rest))
        (fun h hstep => returned_step h hstep) hw
      rw [hreturned] at hw'
      cases hw'
      cases hgone
    · obtain rfl := Option.some.inj (hw'.symm.trans hw'')
      exact hne (published_of_withdrawn hgone)

/-! ## Two writers -/

/-- A call of one writer that goes through. -/
def turn (P : Writers) (i : ℕ) : Writers :=
  match P.procs[i]? with
  | some w => ⟨(w.call P.shared false).1, P.procs.set i (w.call P.shared false).2⟩
  | none => P

instance {directory : List Text} {w : Writer} : Decidable (w.Unraced directory) := by
  cases w <;> unfold Writer.Unraced <;> infer_instance

/-- No writer is raced when they take their turns. -/
def unraced (P : Writers) : List ℕ → Bool
  | [] => true
  | i :: turns => decide (∀ w ∈ P.procs[i]?, w.Unraced P.shared) && unraced (turn P i) turns

theorem run_turns : ∀ (turns : List ℕ) (P : Writers), Run P (turns.foldl turn P)
  | [], _ => .refl
  | i :: turns, P => by
    refine Relation.ReflTransGen.trans ?_ (run_turns turns (turn P i))
    rw [turn]
    split
    · rename_i w hw
      exact .single (.move hw ⟨false, rfl⟩)
    · exact .refl

theorem unracedRun_turns : ∀ (turns : List ℕ) (P : Writers), unraced P turns = true →
    UnracedRun P (turns.foldl turn P)
  | [], _, _ => .refl
  | i :: turns, P, h => by
    rw [unraced, Bool.and_eq_true, decide_eq_true_eq] at h
    refine Relation.ReflTransGen.trans ?_ (unracedRun_turns turns (turn P i) h.2)
    rw [turn]
    split
    · rename_i w hw
      exact .single (.move hw ⟨h.1 w hw, false, rfl⟩)
    · exact .refl

/-- Two migrations for the same second, before any call on an empty directory. -/
def twoWriters : Writers := ⟨[], [.list 1 "_a.py", .list 1 "_b.py"]⟩

theorem unracedRun_twoWriters : UnracedRun ⟨[], []⟩ twoWriters :=
  .tail (.single (.arrive ⟨1, "_a.py", by decide, rfl⟩)) (.arrive ⟨1, "_b.py", by decide, rfl⟩)

/-- The second writer lists the directory before the first has published, and reserves its
timestamp after the first has removed its reservation. -/
theorem race : ∃ P, Run ⟨[], []⟩ P ∧ P.procs[0]? = some (.returned 1 "_a.py") ∧
    P.procs[1]? = some (.returned 1 "_b.py") ∧ P.shared = [fileName 1 "_b.py", fileName 1 "_a.py"] :=
  ⟨_, unracedRun_twoWriters.run.trans (run_turns [0, 1, 0, 0, 0, 0, 1, 1, 1, 1] twoWriters),
    by decide⟩

/-- The first writer alone, when it has returned. -/
def oneReturned : Writers := [0, 0, 0, 0, 0].foldl turn ⟨[], [.list 1 "_a.py"]⟩

theorem unracedRun_oneReturned : UnracedRun ⟨[], []⟩ oneReturned :=
  .trans (.single (.arrive ⟨1, "_a.py", by decide, rfl⟩)) (unracedRun_turns _ _ (by decide))

/-- The second writer after it. -/
theorem timestamps_distinct_twoWriters :
    let Q := [1, 1, 1, 1, 1].foldl turn
      ⟨oneReturned.shared, oneReturned.procs ++ [.list 1 "_b.py"]⟩
    fileName 1 "_a.py" ∈ Q.shared ∧ (1 = 2 → 0 = 1) ∧ 1 < 2 := by
  intro Q
  have hrun : UnracedRun oneReturned Q :=
    .trans (.single (.arrive ⟨1, "_b.py", by decide, rfl⟩)) (unracedRun_turns _ _ (by decide))
  obtain ⟨hdistinct, hlater⟩ := timestamps_distinct []
  obtain ⟨hthere, hapart⟩ := (hdistinct Q (unracedRun_oneReturned.trans hrun)).2 0 1 1 2
    "_a.py" "_b.py" (by decide) (by decide)
  exact ⟨hthere, hapart, hlater oneReturned Q unracedRun_oneReturned.run hrun.run 0 1 1 2 (fileName 1 "_a.py")
    (.returned 1 "_a.py") (.returned 2 "_b.py") (by decide) rfl (by decide) (.inl ⟨_, rfl⟩)
    (by decide) (by decide) rfl⟩

end MigrationFiles

end PPBase
