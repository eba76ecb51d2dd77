import PPBase.FieldTypes

/-!
# The errors of field validation

A bad value should be reported as an error of its field. `contract_iff` : the only exception that
`validate_field_value` raises for a value is `FieldValidationError`, exactly if the value and the
options of the field are `Checkable` : the conversions that the validator makes before a check
stops it have results. `huge_number_escapes` : an integer beyond the floats, sent for a number
field, raises an `OverflowError`.
-/

namespace PPBase

namespace FieldTypes

open Failing

/-! ## Results that are values or errors of the field -/

section

variable {α β : Type}

/-- There is a result. -/
def Works (x : Except PyError α) : Prop := ∃ a, x = .ok a

/-- No exception escapes but errors of the field. -/
def OnlyFieldErrors (x : Except Raised α) : Prop := ∀ e, x ≠ .error (.other e)

@[simp] theorem works_ok (a : α) : Works (Except.ok a : Except PyError α) := ⟨a, rfl⟩

@[simp] theorem not_works_error (e : PyError) : ¬Works (Except.error e : Except PyError α) :=
  fun ⟨_, h⟩ => nomatch h

@[simp] theorem onlyFieldErrors_ok (a : α) : OnlyFieldErrors (Except.ok a : Except Raised α) :=
  fun _ h => nomatch h

@[simp] theorem onlyFieldErrors_field (name code message : PyText) :
    OnlyFieldErrors (Except.error (.field name code message) : Except Raised α) :=
  fun _ h => nomatch h

@[simp] theorem not_onlyFieldErrors_other (e : PyError) :
    ¬OnlyFieldErrors (Except.error (.other e) : Except Raised α) := fun h => h e rfl

theorem onlyFieldErrors_bind {x : Except Raised α} {k : α → Except Raised β} :
    OnlyFieldErrors (x >>= k) ↔ OnlyFieldErrors x ∧ ∀ a, x = .ok a → OnlyFieldErrors (k a) := by
  cases x with
  | ok a =>
    rw [ok_bind]
    refine ⟨fun h => ⟨onlyFieldErrors_ok a, fun b hb => Except.ok.inj hb ▸ h⟩, fun h => h.2 a rfl⟩
  | error e =>
    have hbind : (Except.error e >>= k : Except Raised β) = .error e := rfl
    rw [hbind]
    constructor
    · exact fun h => ⟨fun e' he' => h e' (by rw [Except.error.inj he']), fun a ha => nomatch ha⟩
    · exact fun h e' he' => h.1 e' (by rw [Except.error.inj he'])

theorem onlyFieldErrors_call {x : Except PyError α} : OnlyFieldErrors (call x) ↔ Works x := by
  cases x with
  | ok a => exact iff_of_true (onlyFieldErrors_ok a) (works_ok a)
  | error e => exact iff_of_false (not_onlyFieldErrors_other e) (not_works_error e)

/-- A call and what depends on its result. -/
theorem onlyFieldErrors_call_bind {x : Except PyError α} {k : α → Except Raised β} :
    OnlyFieldErrors (call x >>= k) ↔ ∃ a, x = .ok a ∧ OnlyFieldErrors (k a) := by
  rw [onlyFieldErrors_bind, onlyFieldErrors_call]
  constructor
  · rintro ⟨⟨a, ha⟩, h⟩
    exact ⟨a, ha, h a (call_eq_ok.2 ha)⟩
  · rintro ⟨a, ha, h⟩
    refine ⟨⟨a, ha⟩, fun b hb => ?_⟩
    obtain rfl := Except.ok.inj (ha.symm.trans (call_eq_ok.1 hb))
    exact h

/-- A check and what comes after it. -/
theorem onlyFieldErrors_then {x : Except Raised Unit} {y : Except Raised β} :
    OnlyFieldErrors (x >>= fun _ => y) ↔ OnlyFieldErrors x ∧ (x = .ok () → OnlyFieldErrors y) := by
  rw [onlyFieldErrors_bind]
  exact and_congr_right fun _ => ⟨fun h => h (), fun h _ => h⟩

/-- A check before the value is returned. -/
theorem onlyFieldErrors_then_ok {x : Except Raised Unit} {b : β} :
    OnlyFieldErrors (x >>= fun _ => .ok b) ↔ OnlyFieldErrors x := by
  rw [onlyFieldErrors_then]
  exact and_iff_left fun _ => onlyFieldErrors_ok b

end

section

variable {φ : Type} {P : Python φ} {f : FieldDefinition φ}

@[simp] theorem onlyFieldErrors_raise {α : Type} (code message : String) :
    OnlyFieldErrors (f.raise code message : Except Raised α) := onlyFieldErrors_field _ _ _

@[simp] theorem onlyFieldErrors_raiseRequired {α : Type} :
    OnlyFieldErrors (f.raiseRequired : Except Raised α) := onlyFieldErrors_field _ _ _

variable {code before after what : String} {option v : JsonValue φ} {s : PyText}

theorem onlyFieldErrors_raiseWith {α : Type} :
    OnlyFieldErrors (f.raiseWith P code before option after : Except Raised α) ↔
      Works (strJson P option) := by
  unfold FieldDefinition.raiseWith
  rw [onlyFieldErrors_call_bind]
  exact exists_congr fun a => and_iff_left (onlyFieldErrors_field _ _ _)

theorem raiseWith_ne_ok {α : Type} {a : α} : f.raiseWith P code before option after ≠ .ok a := by
  intro h
  obtain ⟨_, _, h⟩ := bind_eq_ok.1 h
  cases h

/-! ## Bounds, limits and patterns -/

/-- The bound is an integer, and it can be shown if it fails the check. -/
def BoundCheckable (P : Python φ) (option : JsonValue φ) (fails : ℤ → Bool) : Prop :=
  option = .null ∨ ∃ n, toInt P option = .ok n ∧ (fails n = true → Works (strJson P option))

/-- The check against the bound passes. -/
def BoundPasses (P : Python φ) (option : JsonValue φ) (fails : ℤ → Bool) : Prop :=
  option = .null ∨ ∃ n, toInt P option = .ok n ∧ fails n = false

theorem checkBound_of_ne_null (h : option ≠ .null) (fails : ℤ → Bool) (code before after : String) :
    checkBound P f option fails code before after =
      (call (toInt P option) >>= fun bound =>
        if fails bound then f.raiseWith P code before option after else .ok ()) := by
  cases option with
  | null => exact absurd rfl h
  | _ => rfl

theorem onlyFieldErrors_checkBound {fails : ℤ → Bool} :
    OnlyFieldErrors (checkBound P f option fails code before after) ↔
      BoundCheckable P option fails := by
  by_cases hnull : option = .null
  · subst hnull
    exact iff_of_true (onlyFieldErrors_ok ()) (Or.inl rfl)
  · rw [checkBound_of_ne_null hnull, onlyFieldErrors_call_bind, BoundCheckable, or_iff_right hnull]
    refine exists_congr fun n => and_congr_right fun _ => ?_
    split_ifs with hfails
    · rw [onlyFieldErrors_raiseWith]
      exact ⟨fun h _ => h, fun h => h hfails⟩
    · exact iff_of_true (onlyFieldErrors_ok ()) fun h => absurd h hfails

theorem checkBound_eq_ok {fails : ℤ → Bool} :
    checkBound P f option fails code before after = .ok () ↔ BoundPasses P option fails := by
  by_cases hnull : option = .null
  · subst hnull
    exact iff_of_true rfl (Or.inl rfl)
  · rw [checkBound_of_ne_null hnull, bind_eq_ok, BoundPasses, or_iff_right hnull]
    refine exists_congr fun n => and_congr call_eq_ok ?_
    split_ifs with hfails
    · exact iff_of_false raiseWith_ne_ok fun h => by rw [hfails] at h; cases h
    · exact iff_of_true rfl (Bool.eq_false_iff.2 hfails)

/-- The pattern is found in the text, or there is none. -/
def PatternPasses (P : Python φ) (f : FieldDefinition φ) (s : PyText) : Prop :=
  truthyJson P (f.option "pattern") = true → searchPattern P (f.option "pattern") s = .ok true

/-- The pattern can be searched. -/
def PatternCheckable (P : Python φ) (f : FieldDefinition φ) (s : PyText) : Prop :=
  truthyJson P (f.option "pattern") = true → Works (searchPattern P (f.option "pattern") s)

theorem onlyFieldErrors_checkPattern :
    OnlyFieldErrors (checkPattern P f (f.option "pattern") s) ↔ PatternCheckable P f s := by
  unfold checkPattern PatternCheckable
  split_ifs with htruthy
  · rw [onlyFieldErrors_call_bind]
    refine ⟨fun ⟨b, hb, _⟩ _ => ⟨b, hb⟩, fun h => ?_⟩
    obtain ⟨b, hb⟩ := h htruthy
    refine ⟨b, hb, ?_⟩
    split_ifs
    · exact onlyFieldErrors_ok ()
    · -- a pattern that was searched is a text
      rw [onlyFieldErrors_raiseWith]
      unfold searchPattern at hb
      split at hb
      · rename_i p hp
        rw [hp]
        exact works_ok p
      · cases hb
  · exact iff_of_true (onlyFieldErrors_ok ()) fun h => absurd h htruthy

theorem checkPattern_eq_ok :
    checkPattern P f (f.option "pattern") s = .ok () ↔ PatternPasses P f s := by
  unfold checkPattern PatternPasses
  split_ifs with htruthy
  · rw [bind_eq_ok]
    constructor
    · rintro ⟨b, hb, h⟩ _
      split_ifs at h with hfound
      · rw [← hfound]
        exact call_eq_ok.1 hb
      · exact absurd h raiseWith_ne_ok
    · exact fun h => ⟨true, call_eq_ok.2 (h htruthy), if_pos rfl⟩
  · exact iff_of_true rfl fun h => absurd h htruthy

/-- The bounds and the pattern of a text can be checked, as far as the checks go. -/
def PlainCheckable (P : Python φ) (f : FieldDefinition φ) (min max : JsonValue φ)
    (v : PyValue φ) : Prop :=
  ∃ s, strOrEmpty P v = .ok s ∧ (s ≠ [] →
    BoundCheckable P min (fun n => decide ((s.length : ℤ) < n)) ∧
    (BoundPasses P min (fun n => decide ((s.length : ℤ) < n)) →
      BoundCheckable P max (fun n => decide (n < (s.length : ℤ))) ∧
      (BoundPasses P max (fun n => decide (n < (s.length : ℤ))) → PatternCheckable P f s)))

/-- A text is checked if it is not blank. -/
theorem onlyFieldErrors_unless_blank {x : Except Raised (PyValue φ)} {w : PyValue φ} :
    OnlyFieldErrors (if s = [] then if f.required then f.raiseRequired else .ok w else x) ↔
      (s ≠ [] → OnlyFieldErrors x) := by
  by_cases hs : s = []
  · rw [if_pos hs]
    refine iff_of_true ?_ fun h => absurd hs h
    split_ifs <;> simp
  · rw [if_neg hs]
    exact ⟨fun h _ => h, fun h => h hs⟩

theorem onlyFieldErrors_validatePlain {min max : JsonValue φ} {v : PyValue φ} :
    OnlyFieldErrors (validatePlain P f min max v) ↔ PlainCheckable P f min max v := by
  unfold validatePlain PlainCheckable
  rw [onlyFieldErrors_call_bind]
  refine exists_congr fun s => and_congr_right fun _ => ?_
  rw [onlyFieldErrors_unless_blank, onlyFieldErrors_then, onlyFieldErrors_checkBound,
    checkBound_eq_ok, onlyFieldErrors_then, onlyFieldErrors_checkBound, checkBound_eq_ok,
    onlyFieldErrors_then_ok, onlyFieldErrors_checkPattern]

/-! ## Sizes -/

/-- The size can be checked, if there is a largest one. -/
def SizeCheckable (P : Python φ) (f : FieldDefinition φ) (size : Except PyError ℕ) : Prop :=
  isUnlimited P (f.option "maxSize") = false → ∃ n, size = .ok n ∧
    BoundCheckable P (f.option "maxSize") fun bound => decide (bound < (n : ℤ))

theorem onlyFieldErrors_checkSize {size : Except PyError ℕ} :
    OnlyFieldErrors (checkSize P f size) ↔ SizeCheckable P f size := by
  unfold checkSize SizeCheckable
  split_ifs with hunlimited
  · exact iff_of_true (onlyFieldErrors_ok ()) fun h => absurd (hunlimited.symm.trans h) (by simp)
  · rw [onlyFieldErrors_call_bind]
    simp only [onlyFieldErrors_checkBound]
    exact ⟨fun h _ => h, fun h => h (Bool.eq_false_iff.2 hunlimited)⟩

/-- The text of an editor has a size that can be checked. -/
def EditorCheckable (P : Python φ) (f : FieldDefinition φ) (v : PyValue φ) : Prop :=
  ∃ s, strOrEmpty P v = .ok s ∧ (s ≠ [] → SizeCheckable P f (encodedLength s))

theorem onlyFieldErrors_validateEditor {v : PyValue φ} :
    OnlyFieldErrors (validateEditor P f v) ↔ EditorCheckable P f v := by
  unfold validateEditor EditorCheckable
  rw [onlyFieldErrors_call_bind]
  refine exists_congr fun s => and_congr_right fun _ => ?_
  rw [onlyFieldErrors_unless_blank, onlyFieldErrors_then_ok, onlyFieldErrors_checkSize]

/-- A JSON text can be read without a failure of the reader, and its size can be checked. -/
def DocumentCheckable (P : Python φ) (f : FieldDefinition φ) (v : JsonValue φ) : Prop :=
  v ≠ .null → ∃ r, readJson P v = .ok r ∧
    SizeCheckable P f ((P.dumps r).map fun t => (t.map Char.utf8Size).sum)

theorem onlyFieldErrors_validateJson :
    OnlyFieldErrors (validateJson P f (.json v)) ↔ DocumentCheckable P f v := by
  unfold DocumentCheckable
  by_cases hv : v = .null
  · subst hv
    refine iff_of_true ?_ fun h => absurd rfl h
    rw [validateJson]
    split_ifs <;> simp
  · rw [validateJson_of_ne_null hv, onlyFieldErrors_call_bind]
    simp only [onlyFieldErrors_then_ok, onlyFieldErrors_checkSize]
    exact ⟨fun h _ => h, fun h => h hv⟩

/-! ## Numbers -/

/-- The limit is a number, and it can be shown if it fails the check. -/
def LimitCheckable (P : Python φ) (option : JsonValue φ) (fails : FloatKind → Bool) : Prop :=
  option = .null ∨ ∃ x, toFloat P option = .ok x ∧
    (fails (P.kind x) = true → Works (strJson P option))

/-- The check against the limit passes. -/
def LimitPasses (P : Python φ) (option : JsonValue φ) (fails : FloatKind → Bool) : Prop :=
  option = .null ∨ ∃ x, toFloat P option = .ok x ∧ fails (P.kind x) = false

theorem checkLimit_of_ne_null (h : option ≠ .null) (fails : FloatKind → Bool) (code before : String) :
    checkLimit P f option fails code before =
      (call (toFloat P option) >>= fun limit =>
        if fails (P.kind limit) then f.raiseWith P code before option "." else .ok ()) := by
  cases option with
  | null => exact absurd rfl h
  | _ => rfl

theorem onlyFieldErrors_checkLimit {fails : FloatKind → Bool} :
    OnlyFieldErrors (checkLimit P f option fails code before) ↔ LimitCheckable P option fails := by
  by_cases hnull : option = .null
  · subst hnull
    exact iff_of_true (onlyFieldErrors_ok ()) (Or.inl rfl)
  · rw [checkLimit_of_ne_null hnull, onlyFieldErrors_call_bind, LimitCheckable,
      or_iff_right hnull]
    refine exists_congr fun x => and_congr_right fun _ => ?_
    split_ifs with hfails
    · rw [onlyFieldErrors_raiseWith]
      exact ⟨fun h _ => h, fun h => h hfails⟩
    · exact iff_of_true (onlyFieldErrors_ok ()) fun h => absurd h hfails

theorem checkLimit_eq_ok {fails : FloatKind → Bool} :
    checkLimit P f option fails code before = .ok () ↔ LimitPasses P option fails := by
  by_cases hnull : option = .null
  · subst hnull
    exact iff_of_true rfl (Or.inl rfl)
  · rw [checkLimit_of_ne_null hnull, bind_eq_ok, LimitPasses, or_iff_right hnull]
    refine exists_congr fun x => and_congr call_eq_ok ?_
    split_ifs with hfails
    · exact iff_of_false raiseWith_ne_ok fun h => by rw [hfails] at h; cases h
    · exact iff_of_true rfl (Bool.eq_false_iff.2 hfails)

/-- A whole number, where it has to be one. -/
def WholePasses (P : Python φ) (f : FieldDefinition φ) (q : ℚ) : Prop :=
  truthyJson P (f.option "onlyInt" (.bool false)) = true → (trunc q : ℚ) = q

/-- The limits of a number can be checked, as far as the checks go. -/
def LimitsCheckable (P : Python φ) (f : FieldDefinition φ) (q : ℚ) : Prop :=
  LimitCheckable P (f.option "min") (fun n => FloatKind.lt (.finite q) n) ∧
    (LimitPasses P (f.option "min") (fun n => FloatKind.lt (.finite q) n) →
      LimitCheckable P (f.option "max") fun n => FloatKind.lt n (.finite q))

/-- The float that a value stands for, which is zero for a blank one. -/
def StandsFor (P : Python φ) (v : JsonValue φ) (x : φ) : Prop :=
  (v = .null ∨ isBlank P v = true) ∧ x = P.zero ∨
    v ≠ .null ∧ isBlank P v = false ∧ toFloat P v = .ok x

/-- The value does not exceed the floats, and the limits of its number can be checked. -/
def NumberCheckable (P : Python φ) (f : FieldDefinition φ) (v : JsonValue φ) : Prop :=
  toFloat P v ≠ .error .overflowError ∧ ∀ x q, StandsFor P v x → P.kind x = .finite q →
    ¬(f.required = true ∧ q = 0) → WholePasses P f q → LimitsCheckable P f q

theorem onlyFieldErrors_checkWhole (onlyInt : Bool) {x : φ} {q : ℚ} (hx : P.kind x = .finite q) :
    OnlyFieldErrors (checkWhole P f onlyInt q) ∧
      (checkWhole P f onlyInt q = .ok () ↔ (onlyInt = true → (trunc q : ℚ) = q)) := by
  cases onlyInt with
  | false => exact ⟨onlyFieldErrors_ok (), iff_of_true rfl fun h => nomatch h⟩
  | true =>
    obtain ⟨y, hy, hkind⟩ := P.ofInt_trunc x q hx
    have hwhole : checkWhole P f true q = if (trunc q : ℚ) = q then .ok ()
        else f.raise "validation_only_int" "Must be an integer value." := by
      have hfloat : call (intToFloat P (trunc q)) = .ok y := by
        rw [intToFloat, hy]
        rfl
      rw [checkWhole, if_pos rfl, hfloat, ok_bind, hkind]
      simp only [FloatKind.finite.injEq]
    rw [hwhole]
    constructor
    · split_ifs <;> simp
    · split_ifs with heq
      · exact iff_of_true rfl fun _ => heq
      · exact iff_of_false (fun h => nomatch h) fun h => heq (h rfl)

theorem numberOf_of_ne_null (h : v ≠ .null) :
    numberOf P f (.json v) = if isBlank P v then .ok P.zero else match toFloat P v with
      | .ok x => .ok x
      | .error .overflowError => .error (.other .overflowError)
      | .error _ => f.raise "validation_not_a_number" "Must be a valid number." := by
  cases v with
  | null => exact absurd rfl h
  | _ => rfl

theorem numberOf_eq_ok {x : φ} : numberOf P f (.json v) = .ok x ↔ StandsFor P v x := by
  unfold StandsFor
  by_cases hnull : v = .null
  · subst hnull
    constructor
    · exact fun h => Or.inl ⟨Or.inl rfl, (Except.ok.inj h).symm⟩
    · rintro (⟨-, rfl⟩ | ⟨h, -⟩)
      · rfl
      · exact absurd rfl h
  rw [numberOf_of_ne_null hnull, or_iff_right hnull, and_iff_right hnull]
  cases hblank : isBlank P v with
  | true =>
    rw [if_pos rfl, and_iff_right rfl, or_iff_left fun h => Bool.noConfusion h.1]
    exact ⟨fun h => (Except.ok.inj h).symm, fun h => by rw [h]⟩
  | false =>
    rw [if_neg Bool.false_ne_true, and_iff_right rfl, or_iff_right fun h => Bool.noConfusion h.1]
    cases toFloat P v with
    | ok y => exact ⟨fun h => congrArg _ (Except.ok.inj h), fun h => congrArg _ (Except.ok.inj h)⟩
    | error e =>
      refine iff_of_false (fun h => ?_) (by rintro ⟨⟩)
      cases e <;> cases h

theorem onlyFieldErrors_numberOf :
    OnlyFieldErrors (numberOf P f (.json v)) ↔ toFloat P v ≠ .error .overflowError := by
  by_cases hnull : v = .null
  · subst hnull
    exact iff_of_true (onlyFieldErrors_ok _) fun h => nomatch h
  rw [numberOf_of_ne_null hnull]
  split_ifs with hblank
  · refine iff_of_true (onlyFieldErrors_ok _) ?_
    cases v with
    | str s => rw [toFloat]; split <;> simp
    | _ => cases hblank
  · cases toFloat P v with
    | ok x => simp
    | error e => cases e <;> simp

theorem onlyFieldErrors_validateNumber :
    OnlyFieldErrors (validateNumber P f (.json v)) ↔ NumberCheckable P f v := by
  unfold validateNumber NumberCheckable
  rw [onlyFieldErrors_bind, onlyFieldErrors_numberOf]
  simp only [numberOf_eq_ok]
  refine and_congr_right fun _ => forall_congr' fun x => ?_
  cases hkind : P.kind x with
  | nan => simp
  | inf b => simp
  | finite q =>
    dsimp only
    by_cases hrequired : f.required = true ∧ q = 0
    · rw [if_pos hrequired]
      exact iff_of_true (fun _ => onlyFieldErrors_raiseRequired) fun q' _ hq' hnot => by
        rw [← FloatKind.finite.inj hq'] at hnot
        exact absurd hrequired hnot
    · obtain ⟨hwhole, hpasses⟩ := onlyFieldErrors_checkWhole (f := f)
        (truthyJson P (f.option "onlyInt" (.bool false))) hkind
      rw [if_neg hrequired, onlyFieldErrors_then, and_iff_right hwhole, hpasses,
        onlyFieldErrors_then, onlyFieldErrors_checkLimit, checkLimit_eq_ok,
        onlyFieldErrors_then_ok, onlyFieldErrors_checkLimit]
      constructor
      · intro h q' hx hq' _
        rw [← FloatKind.finite.inj hq']
        exact h hx
      · exact fun h hx => h q hx rfl hrequired

/-- The coordinate does not exceed the floats. -/
def CoordinateCheckable (P : Python φ) (ms : List (PyText × JsonValue φ)) (key : String) : Prop :=
  toFloat P ((Dict.get? ms (lit key)).getD (.int 0)) ≠ .error .overflowError

/-- The coordinates of a point do not exceed the floats, as far as they are read. -/
def PointCheckable (P : Python φ) (v : JsonValue φ) : Prop :=
  ∀ ms, v = .obj ms → CoordinateCheckable P ms "lon" ∧
    (Works (toFloat P ((Dict.get? ms (lit "lon")).getD (.int 0))) →
      CoordinateCheckable P ms "lat")

theorem onlyFieldErrors_coordinate {ms : List (PyText × JsonValue φ)} {key : String} :
    OnlyFieldErrors (coordinate P f ms key) ↔ CoordinateCheckable P ms key := by
  unfold coordinate CoordinateCheckable
  cases toFloat P ((Dict.get? ms (lit key)).getD (.int 0)) with
  | ok x => simp
  | error e => cases e <;> simp

theorem coordinate_eq_ok {ms : List (PyText × JsonValue φ)} {key : String} {x : φ} :
    coordinate P f ms key = .ok x ↔ toFloat P ((Dict.get? ms (lit key)).getD (.int 0)) = .ok x := by
  unfold coordinate
  cases toFloat P ((Dict.get? ms (lit key)).getD (.int 0)) with
  | ok y => exact ⟨fun h => congrArg _ (Except.ok.inj h), fun h => congrArg _ (Except.ok.inj h)⟩
  | error e => cases e <;> exact iff_of_false (fun h => nomatch h) fun h => nomatch h

theorem onlyFieldErrors_validateGeoPoint :
    OnlyFieldErrors (validateGeoPoint P f (.json v)) ↔ PointCheckable P v := by
  cases v with
  | obj ms =>
    have hpoint : PointCheckable P (.obj ms) ↔ CoordinateCheckable P ms "lon" ∧
        (Works (toFloat P ((Dict.get? ms (lit "lon")).getD (.int 0))) →
          CoordinateCheckable P ms "lat") :=
      ⟨fun h => h ms rfl, fun h ms' hms => Json.obj.inj hms ▸ h⟩
    rw [hpoint, validateGeoPoint, onlyFieldErrors_bind, onlyFieldErrors_coordinate]
    refine and_congr_right fun _ => ?_
    constructor
    · rintro h ⟨x, hx⟩
      exact onlyFieldErrors_coordinate.1 (onlyFieldErrors_bind.1 (h x (coordinate_eq_ok.2 hx))).1
    · intro h x hx
      rw [onlyFieldErrors_bind, onlyFieldErrors_coordinate]
      refine ⟨h ⟨x, coordinate_eq_ok.1 hx⟩, fun y _ => ?_⟩
      split_ifs <;> simp
  | null =>
    refine iff_of_true ?_ fun ms hms => nomatch hms
    rw [validateGeoPoint]
    split_ifs <;> simp
  | _ => exact iff_of_true (onlyFieldErrors_raise _ _) fun ms hms => nomatch hms

/-! ## Addresses -/

/-- The domains of an option can be gone through, if there are any. -/
def DomainsCheckable (P : Python φ) (f : FieldDefinition φ) (key : String) : Prop :=
  truthyJson P (f.optionOr P key (.arr [])) = true → Works (iterTexts (f.optionOr P key (.arr [])))

/-- The domain is among those of an option, if there are any. -/
def AmongOnly (P : Python φ) (f : FieldDefinition φ) (domain : PyText) : Prop :=
  truthyJson P (f.optionOr P "onlyDomains" (.arr [])) = true →
    ∃ texts, iterTexts (f.optionOr P "onlyDomains" (.arr [])) = .ok texts ∧
      domain ∈ texts.map P.lower

theorem onlyFieldErrors_checkOnlyDomains {domain : PyText} :
    OnlyFieldErrors (checkOnlyDomains P f domain code what) ↔
      DomainsCheckable P f "onlyDomains" := by
  unfold checkOnlyDomains DomainsCheckable
  dsimp only
  split_ifs with htruthy
  · rw [onlyFieldErrors_call_bind]
    refine ⟨fun h _ => h.imp fun _ h => h.1, fun h => ?_⟩
    obtain ⟨texts, htexts⟩ := h htruthy
    refine ⟨texts, htexts, ?_⟩
    split_ifs <;> simp
  · exact iff_of_true (onlyFieldErrors_ok ()) fun h => absurd h htruthy

theorem checkOnlyDomains_eq_ok {domain : PyText} :
    checkOnlyDomains P f domain code what = .ok () ↔ AmongOnly P f domain := by
  unfold checkOnlyDomains AmongOnly
  dsimp only
  split_ifs with htruthy
  · rw [bind_eq_ok]
    constructor
    · rintro ⟨texts, htexts, h⟩ _
      refine ⟨texts, call_eq_ok.1 htexts, ?_⟩
      by_contra hnot
      rw [if_neg hnot] at h
      cases h
    · intro h
      obtain ⟨texts, htexts, hmem⟩ := h htruthy
      exact ⟨texts, call_eq_ok.2 htexts, if_pos hmem⟩
  · exact iff_of_true rfl fun h => absurd h htruthy

theorem onlyFieldErrors_checkExceptDomains {domain : PyText} :
    OnlyFieldErrors (checkExceptDomains P f domain code what) ↔
      DomainsCheckable P f "exceptDomains" := by
  unfold checkExceptDomains DomainsCheckable
  dsimp only
  split_ifs with htruthy
  · rw [onlyFieldErrors_call_bind]
    refine ⟨fun h _ => h.imp fun _ h => h.1, fun h => ?_⟩
    obtain ⟨texts, htexts⟩ := h htruthy
    refine ⟨texts, htexts, ?_⟩
    split_ifs <;> simp
  · exact iff_of_true (onlyFieldErrors_ok ()) fun h => absurd h htruthy

/-- The domains of a well-formed address can be checked, as far as the checks go. -/
def AddressCheckable (P : Python φ) (f : FieldDefinition φ) (isWellFormed : PyText → Bool)
    (domain : PyText → PyText) (v : PyValue φ) : Prop :=
  ∃ s, strOrEmpty P v = .ok s ∧ (strip P s ≠ [] → isWellFormed (strip P s) = true →
    DomainsCheckable P f "onlyDomains" ∧
      (AmongOnly P f (domain (strip P s)) → DomainsCheckable P f "exceptDomains"))

theorem onlyFieldErrors_validateAddress {isWellFormed : PyText → Bool} {domain : PyText → PyText}
    {message domainCode : String} {v : PyValue φ} :
    OnlyFieldErrors (validateAddress P f isWellFormed domain code message domainCode what v) ↔
      AddressCheckable P f isWellFormed domain v := by
  unfold validateAddress AddressCheckable
  rw [onlyFieldErrors_call_bind]
  refine exists_congr fun s => and_congr_right fun _ => ?_
  dsimp only
  rw [onlyFieldErrors_unless_blank]
  refine imp_congr_right fun _ => ?_
  split_ifs with hform
  · rw [onlyFieldErrors_then, onlyFieldErrors_checkOnlyDomains, checkOnlyDomains_eq_ok,
      onlyFieldErrors_then_ok, onlyFieldErrors_checkExceptDomains]
    exact ⟨fun h _ => h, fun h => h hform⟩
  · exact iff_of_true (onlyFieldErrors_raise _ _) fun h => absurd h hform

/-! ## Dates -/

/-- The limit is a datetime, naive or aware as the other one is. -/
def DateLimitCheckable (P : Python φ) (option : JsonValue φ) (t : DateTime) : Prop :=
  truthyJson P option = true → ∃ s limit, strJson P option = .ok s ∧ parseIso P s = .ok limit ∧
    t.aware = limit.aware

/-- The check against the limit passes. -/
def DateLimitPasses (P : Python φ) (option : JsonValue φ)
    (fails : DateTime → Except PyError Bool) : Prop :=
  truthyJson P option = true → ∃ s limit, strJson P option = .ok s ∧ parseIso P s = .ok limit ∧
    fails limit = .ok false

theorem works_lt {a b : DateTime} : Works (a.lt b) ↔ a.aware = b.aware := by
  unfold DateTime.lt
  split_ifs with h
  · exact iff_of_true (works_ok _) h
  · exact iff_of_false (not_works_error _) h

theorem onlyFieldErrors_checkDate {t : DateTime} {fails : DateTime → Except PyError Bool}
    (hfails : ∀ limit, Works (fails limit) ↔ t.aware = limit.aware) :
    OnlyFieldErrors (checkDate P f option fails code before) ↔ DateLimitCheckable P option t := by
  unfold checkDate DateLimitCheckable
  split_ifs with htruthy
  · rw [onlyFieldErrors_call_bind]
    constructor
    · rintro ⟨s, hs, h⟩ _
      obtain ⟨limit, hlimit, h⟩ := onlyFieldErrors_call_bind.1 h
      obtain ⟨b, hb, -⟩ := onlyFieldErrors_call_bind.1 h
      exact ⟨s, limit, hs, hlimit, (hfails limit).1 ⟨b, hb⟩⟩
    · intro h
      obtain ⟨s, limit, hs, hlimit, haware⟩ := h htruthy
      obtain ⟨b, hb⟩ := (hfails limit).2 haware
      refine ⟨s, hs, onlyFieldErrors_call_bind.2 ⟨limit, hlimit,
        onlyFieldErrors_call_bind.2 ⟨b, hb, ?_⟩⟩⟩
      split_ifs
      · exact onlyFieldErrors_raiseWith.2 ⟨s, hs⟩
      · exact onlyFieldErrors_ok ()
  · exact iff_of_true (onlyFieldErrors_ok ()) fun h => absurd h htruthy

theorem checkDate_eq_ok {fails : DateTime → Except PyError Bool} :
    checkDate P f option fails code before = .ok () ↔ DateLimitPasses P option fails := by
  unfold checkDate DateLimitPasses
  split_ifs with htruthy
  · constructor
    · intro h _
      obtain ⟨s, hs, h⟩ := bind_eq_ok.1 h
      obtain ⟨limit, hlimit, h⟩ := bind_eq_ok.1 h
      obtain ⟨b, hb, h⟩ := bind_eq_ok.1 h
      refine ⟨s, limit, call_eq_ok.1 hs, call_eq_ok.1 hlimit, ?_⟩
      split_ifs at h with hfailed
      · exact absurd h raiseWith_ne_ok
      · rw [call_eq_ok.1 hb, Bool.eq_false_iff.2 hfailed]
    · intro h
      obtain ⟨s, limit, hs, hlimit, hpass⟩ := h htruthy
      rw [call_eq_ok.2 hs, ok_bind, call_eq_ok.2 hlimit, ok_bind, call_eq_ok.2 hpass, ok_bind,
        if_neg Bool.false_ne_true]
  · exact iff_of_true rfl fun h => absurd h htruthy

/-- The text of a value is that of a datetime. -/
def IsDate (P : Python φ) (v : JsonValue φ) (t : DateTime) : Prop :=
  v ≠ .null ∧ ∃ s, strJson P v = .ok s ∧ strip P s ≠ [] ∧ parseIso P (strip P s) = .ok t

/-- The value has a text, and the limits of its datetime can be checked, as far as the checks
go. -/
def DateCheckable (P : Python φ) (f : FieldDefinition φ) (v : JsonValue φ) : Prop :=
  (v ≠ .null → Works (strJson P v)) ∧ ∀ t, IsDate P v t →
    DateLimitCheckable P (f.option "min") t ∧
      (DateLimitPasses P (f.option "min") (fun limit => t.lt limit) →
        DateLimitCheckable P (f.option "max") t)

theorem dateOf_of_ne_null (h : v ≠ .null) :
    dateOf P f (.json v) = (call (strJson P v) >>= fun s =>
      if strip P s = [] then .ok none
      else
        match parseIso P (strip P s) with
        | .ok t => .ok (some t)
        | .error _ => f.raise "validation_invalid_date" "Must be a valid datetime string.") := by
  cases v with
  | null => exact absurd rfl h
  | _ => rfl

theorem dateOf_eq_some {t : DateTime} : dateOf P f (.json v) = .ok (some t) ↔ IsDate P v t := by
  unfold IsDate
  by_cases hnull : v = .null
  · subst hnull
    exact iff_of_false (fun h => nomatch Except.ok.inj h) fun h => h.1 rfl
  rw [dateOf_of_ne_null hnull, bind_eq_ok, and_iff_right hnull]
  refine exists_congr fun s => and_congr call_eq_ok ?_
  split_ifs with hblank
  · exact iff_of_false (fun h => nomatch Except.ok.inj h) fun h => h.1 hblank
  · rw [and_iff_right hblank]
    cases parseIso P (strip P s) with
    | ok t' =>
      exact ⟨fun h => congrArg _ (Option.some.inj (Except.ok.inj h)), fun h =>
        congrArg (fun t => Except.ok (some t)) (Except.ok.inj h)⟩
    | error e => exact iff_of_false (fun h => nomatch h) fun h => nomatch h

theorem onlyFieldErrors_dateOf :
    OnlyFieldErrors (dateOf P f (.json v)) ↔ (v ≠ .null → Works (strJson P v)) := by
  by_cases hnull : v = .null
  · subst hnull
    exact iff_of_true (onlyFieldErrors_ok _) fun h => absurd rfl h
  rw [dateOf_of_ne_null hnull, onlyFieldErrors_call_bind]
  refine ⟨fun ⟨s, hs, _⟩ _ => ⟨s, hs⟩, fun h => ?_⟩
  obtain ⟨s, hs⟩ := h hnull
  refine ⟨s, hs, ?_⟩
  split_ifs
  · exact onlyFieldErrors_ok _
  · cases parseIso P (strip P s) <;> simp

theorem onlyFieldErrors_validateDate :
    OnlyFieldErrors (validateDate P f (.json v)) ↔ DateCheckable P f v := by
  unfold validateDate DateCheckable
  rw [onlyFieldErrors_bind, onlyFieldErrors_dateOf]
  refine and_congr_right fun _ => ?_
  have hlimits : ∀ t : DateTime, OnlyFieldErrors (checkDate P f (f.option "min")
      (fun limit => t.lt limit) "validation_min_date_constraint" "Must be >= " >>= fun _ =>
        checkDate P f (f.option "max") (fun limit => limit.lt t) "validation_max_date_constraint"
          "Must be <= " >>= fun _ => (.ok (.datetime t) : Except Raised (PyValue φ))) ↔
      DateLimitCheckable P (f.option "min") t ∧
        (DateLimitPasses P (f.option "min") (fun limit => t.lt limit) →
          DateLimitCheckable P (f.option "max") t) := by
    intro t
    rw [onlyFieldErrors_then, onlyFieldErrors_checkDate (t := t) fun limit => works_lt,
      checkDate_eq_ok, onlyFieldErrors_then_ok,
      onlyFieldErrors_checkDate (t := t) fun limit => works_lt.trans eq_comm]
  simp only [← dateOf_eq_some (f := f)]
  constructor
  · exact fun h t ht => (hlimits t).1 (h (some t) ht)
  · intro h date hdate
    cases date with
    | none => dsimp only; split_ifs <;> simp
    | some t => exact (hlimits t).2 (h t hdate)

/-- The value has a text. -/
def Texts (P : Python φ) (v : JsonValue φ) : Prop := v ≠ .null → Works (strJson P v)

theorem onlyFieldErrors_validateAutodate :
    OnlyFieldErrors (validateAutodate P (.json v)) ↔ Texts P v := by
  by_cases hnull : v = .null
  · subst hnull
    exact iff_of_true (onlyFieldErrors_ok _) fun h => absurd rfl h
  · have hdef : validateAutodate P (.json v) = (call (strJson P v) >>= fun s =>
        .ok (.json (.str s))) := by
      cases v with
      | null => exact absurd rfl hnull
      | _ => rfl
    rw [hdef, onlyFieldErrors_call_bind]
    exact ⟨fun ⟨s, hs, _⟩ _ => ⟨s, hs⟩, fun h => (h hnull).imp fun s hs =>
      ⟨hs, onlyFieldErrors_ok _⟩⟩

/-! ## Selections -/

/-- Where values are given, one can ask whether a text is among them. -/
def AllowedCheckable (P : Python φ) (f : FieldDefinition φ) (s : PyText) : Prop :=
  truthyJson P (f.optionOr P "values" (.arr [])) = true →
    Works (isIn s (f.optionOr P "values" (.arr [])))

/-- The text is among the values, where some are given. -/
def AllowedPasses (P : Python φ) (f : FieldDefinition φ) (s : PyText) : Prop :=
  truthyJson P (f.optionOr P "values" (.arr [])) = true →
    isIn s (f.optionOr P "values" (.arr [])) = .ok true

theorem onlyFieldErrors_checkAllowed :
    OnlyFieldErrors (checkAllowed P f s) ↔ AllowedCheckable P f s := by
  unfold checkAllowed AllowedCheckable
  dsimp only
  split_ifs with htruthy
  · rw [onlyFieldErrors_call_bind]
    refine ⟨fun ⟨b, hb, _⟩ _ => ⟨b, hb⟩, fun h => (h htruthy).imp fun b hb => ⟨hb, ?_⟩⟩
    split_ifs <;> simp
  · exact iff_of_true (onlyFieldErrors_ok ()) fun h => absurd h htruthy

theorem checkAllowed_eq_ok : checkAllowed P f s = .ok () ↔ AllowedPasses P f s := by
  unfold checkAllowed AllowedPasses
  dsimp only
  split_ifs with htruthy
  · rw [bind_eq_ok]
    constructor
    · rintro ⟨b, hb, h⟩ _
      split_ifs at h with hfound
      rw [call_eq_ok.1 hb, hfound]
    · exact fun h => ⟨true, call_eq_ok.2 (h htruthy), if_pos rfl⟩
  · exact iff_of_true rfl fun h => absurd h htruthy

/-- The texts can be checked, as far as the checks go. -/
def AllAllowedCheckable (P : Python φ) (f : FieldDefinition φ) (values : List PyText) : Prop :=
  ∀ s ∈ values.head?, AllowedCheckable P f s

/-- Whether a text is among the values can be asked for every text or for none. -/
theorem allowedCheckable_congr {t : PyText} : AllowedCheckable P f s ↔ AllowedCheckable P f t := by
  unfold AllowedCheckable
  refine imp_congr_right fun _ => ?_
  cases f.optionOr P "values" (.arr []) <;>
    first
      | exact iff_of_true (works_ok _) (works_ok _)
      | exact iff_of_false (not_works_error _) (not_works_error _)

variable {values : List PyText}

theorem onlyFieldErrors_forM :
    OnlyFieldErrors (values.forM (checkAllowed P f)) ↔ AllAllowedCheckable P f values := by
  induction values with
  | nil => exact iff_of_true (onlyFieldErrors_ok ()) fun s hs => nomatch hs
  | cons s values ih =>
    have hhead : AllAllowedCheckable P f (s :: values) ↔ AllowedCheckable P f s := by
      simp [AllAllowedCheckable]
    have hcons : (s :: values).forM (checkAllowed P f) =
        (checkAllowed P f s >>= fun _ => values.forM (checkAllowed P f)) := rfl
    rw [hhead, hcons, onlyFieldErrors_then, onlyFieldErrors_checkAllowed, ih]
    exact and_iff_left_of_imp fun h _ t _ => allowedCheckable_congr.1 h

/-- The number of values can be checked. -/
def CountCheckable (P : Python φ) (f : FieldDefinition φ) (values : List PyText) : Prop :=
  ∃ b, isLessThan P (maxSelect P f) values.length = .ok b ∧
    (b = true → Works (strJson P (maxSelect P f)))

/-- The number of values is not too large. -/
def CountPasses (P : Python φ) (f : FieldDefinition φ) (values : List PyText) : Prop :=
  isLessThan P (maxSelect P f) values.length = .ok false

theorem onlyFieldErrors_checkCount :
    OnlyFieldErrors (checkCount P f values what) ↔ CountCheckable P f values := by
  unfold checkCount CountCheckable
  rw [onlyFieldErrors_call_bind]
  refine exists_congr fun b => and_congr_right fun _ => ?_
  split_ifs with hmany
  · rw [onlyFieldErrors_raiseWith]
    exact ⟨fun h _ => h, fun h => h hmany⟩
  · exact iff_of_true (onlyFieldErrors_ok ()) fun h => absurd h hmany

theorem checkCount_eq_ok : checkCount P f values what = .ok () ↔ CountPasses P f values := by
  unfold checkCount CountPasses
  rw [bind_eq_ok]
  constructor
  · rintro ⟨b, hb, h⟩
    split_ifs at h with hmany
    · exact absurd h raiseWith_ne_ok
    · rw [call_eq_ok.1 hb, Bool.eq_false_iff.2 hmany]
  · exact fun h => ⟨false, call_eq_ok.2 h, if_neg Bool.false_ne_true⟩

/-- The number of values of a list can be checked, unless a blank one is refused. -/
def ListCheckable (P : Python φ) (f : FieldDefinition φ) (values : List PyText) : Prop :=
  ¬(f.required = true ∧ values = []) → CountCheckable P f values

theorem onlyFieldErrors_unless_empty {x : Except Raised (PyValue φ)} :
    OnlyFieldErrors (if f.required ∧ values = [] then f.raiseRequired else x) ↔
      (¬(f.required = true ∧ values = []) → OnlyFieldErrors x) := by
  by_cases h : f.required = true ∧ values = []
  · rw [if_pos h]
    exact iff_of_true onlyFieldErrors_raiseRequired fun hnot => absurd h hnot
  · rw [if_neg h]
    exact ⟨fun hx _ => hx, fun hx => hx h⟩

/-- The selected values have texts and can be checked, as far as the checks go. -/
def SelectCheckable (P : Python φ) (f : FieldDefinition φ) (v : PyValue φ) : Prop :=
  ∃ isMulti, isMoreThan P (maxSelect P f) 1 = .ok isMulti ∧
    if isMulti then ∃ values, selectList P v = .ok values ∧
      (¬(f.required = true ∧ values = []) → CountCheckable P f (dedupe values) ∧
        (CountPasses P f (dedupe values) → AllAllowedCheckable P f (dedupe values)))
    else ∃ s, strOrEmpty P v = .ok s ∧ (s ≠ [] → AllowedCheckable P f s)

theorem onlyFieldErrors_validateSelect {v : PyValue φ} :
    OnlyFieldErrors (validateSelect P f v) ↔ SelectCheckable P f v := by
  unfold validateSelect SelectCheckable
  rw [onlyFieldErrors_call_bind]
  refine exists_congr fun isMulti => and_congr_right fun _ => ?_
  cases isMulti with
  | true =>
    rw [if_pos rfl, if_pos rfl, onlyFieldErrors_call_bind]
    refine exists_congr fun values => and_congr_right fun _ => ?_
    rw [onlyFieldErrors_unless_empty, onlyFieldErrors_then, onlyFieldErrors_checkCount,
      checkCount_eq_ok, onlyFieldErrors_then_ok, onlyFieldErrors_forM]
  | false =>
    rw [if_neg Bool.false_ne_true, if_neg Bool.false_ne_true, onlyFieldErrors_call_bind]
    refine exists_congr fun s => and_congr_right fun _ => ?_
    rw [onlyFieldErrors_unless_blank, onlyFieldErrors_then_ok, onlyFieldErrors_checkAllowed]

/-- The names have texts, and the number of references can be checked. -/
def FileCheckable (P : Python φ) (f : FieldDefinition φ) (v : PyValue φ) : Prop :=
  ∃ isMulti, isMoreThan P (maxSelect P f) 1 = .ok isMulti ∧ ∃ values, textList P v = .ok values ∧
    (isMulti = true → (∀ s ∈ values, isRemote P s = true ∨ isReference s = true) →
      ListCheckable P f values)

theorem onlyFieldErrors_validateFile {v : PyValue φ} :
    OnlyFieldErrors (validateFile P f v) ↔ FileCheckable P f v := by
  unfold validateFile FileCheckable
  rw [onlyFieldErrors_call_bind]
  refine exists_congr fun isMulti => and_congr_right fun _ => ?_
  rw [onlyFieldErrors_call_bind]
  refine exists_congr fun values => and_congr_right fun _ => ?_
  rw [validateReferences]
  by_cases hrefs : (values.all fun s => isRemote P s || isReference s) = true
  · rw [if_pos hrefs, ok_bind]
    cases isMulti with
    | true =>
      rw [if_pos rfl, onlyFieldErrors_unless_empty, onlyFieldErrors_then_ok,
        onlyFieldErrors_checkCount]
      exact ⟨fun h _ _ => h, fun h => h rfl (all_references_iff.1 hrefs)⟩
    | false =>
      rw [if_neg Bool.false_ne_true]
      refine iff_of_true ?_ fun h => nomatch h
      split_ifs <;> simp
  · rw [if_neg hrefs]
    exact iff_of_true (onlyFieldErrors_raise _ _) fun _ h => absurd (all_references_iff.2 h) hrefs

/-- The ids have texts, and their number can be checked. -/
def RelationCheckable (P : Python φ) (f : FieldDefinition φ) (v : PyValue φ) : Prop :=
  ∃ isMulti, isMoreThan P (maxSelect P f) 1 = .ok isMulti ∧
    if isMulti then ∃ values, textList P v = .ok values ∧ ListCheckable P f values
    else Works (strOrEmpty P v)

theorem onlyFieldErrors_validateRelation {v : PyValue φ} :
    OnlyFieldErrors (validateRelation P f v) ↔ RelationCheckable P f v := by
  unfold validateRelation RelationCheckable
  rw [onlyFieldErrors_call_bind]
  refine exists_congr fun isMulti => and_congr_right fun _ => ?_
  cases isMulti with
  | true =>
    rw [if_pos rfl, if_pos rfl, onlyFieldErrors_call_bind]
    refine exists_congr fun values => and_congr_right fun _ => ?_
    rw [onlyFieldErrors_unless_empty, onlyFieldErrors_then_ok, onlyFieldErrors_checkCount]
    rfl
  | false =>
    rw [if_neg Bool.false_ne_true, if_neg Bool.false_ne_true, onlyFieldErrors_call_bind]
    refine exists_congr fun s => and_iff_left ?_
    split_ifs <;> simp

/-! ## The contract -/

/-- What a validator converts before a check stops it can be converted. -/
def Checkable (P : Python φ) (f : FieldDefinition φ) (v : JsonValue φ) : Prop :=
  match f.type with
  | .text => PlainCheckable P f (f.option "min") (f.option "max") (.json v)
  | .password => PlainCheckable P f (f.option "min" (.int 8)) (f.option "max" (.int 71)) (.json v)
  | .editor => EditorCheckable P f (.json v)
  | .number => NumberCheckable P f v
  | .bool => True
  | .email => AddressCheckable P f (isEmail P)
      (fun s => P.lower (s.reverse.takeWhile (· ≠ .scalar '@')).reverse) (.json v)
  | .url => AddressCheckable P f (isUrl P) (fun s => P.lower (P.hostname s)) (.json v)
  | .date => DateCheckable P f v
  | .autodate => Texts P v
  | .select => SelectCheckable P f (.json v)
  | .file => FileCheckable P f (.json v)
  | .relation => RelationCheckable P f (.json v)
  | .json => DocumentCheckable P f v
  | .geoPoint => PointCheckable P v

/-- A value gives a value or an error of its field, exactly if it is checkable. -/
theorem contract_iff (P : Python φ) (f : FieldDefinition φ) (v : JsonValue φ) :
    (∀ e, validateFieldValue P f (.json v) ≠ .error (.other e)) ↔ Checkable P f v := by
  show OnlyFieldErrors (validateFieldValue P f (.json v)) ↔ _
  unfold validateFieldValue Checkable
  cases f.type with
  | text => exact onlyFieldErrors_validatePlain
  | editor => exact onlyFieldErrors_validateEditor
  | number => exact onlyFieldErrors_validateNumber
  | bool =>
    refine iff_of_true ?_ trivial
    dsimp only
    unfold validateBool
    split_ifs <;> simp
  | email => exact onlyFieldErrors_validateAddress
  | url => exact onlyFieldErrors_validateAddress
  | date => exact onlyFieldErrors_validateDate
  | autodate => exact onlyFieldErrors_validateAutodate
  | select => exact onlyFieldErrors_validateSelect
  | file => exact onlyFieldErrors_validateFile
  | relation => exact onlyFieldErrors_validateRelation
  | json => exact onlyFieldErrors_validateJson
  | password => exact onlyFieldErrors_validatePlain
  | geoPoint => exact onlyFieldErrors_validateGeoPoint

end

/-! ## A number that is no float -/

def countField : FieldDefinition PlainFloat where
  name := lit "count"
  type := .number

/-- No float is as large as the number. -/
theorem ofInt_huge {i : ℤ} (hi : 10 ^ 400 = i) : Python.plain.ofInt i = none := by
  have hbound : doubleBound ≤ (10 : ℚ) ^ 400 := by
    calc doubleBound = 2 ^ 1024 := rfl
      _ ≤ 2 ^ (3 * 342) := pow_le_pow_right₀ (by norm_num) (by norm_num)
      _ = (2 ^ 3) ^ 342 := pow_mul 2 3 342
      _ ≤ 10 ^ 342 := pow_le_pow_left₀ (by norm_num) (by norm_num) 342
      _ ≤ 10 ^ 400 := pow_le_pow_right₀ (by norm_num) (by norm_num)
  have hcast : (i : ℚ) = (10 : ℚ) ^ 400 := by rw [← hi, Int.cast_pow, Int.cast_ofNat]
  refine dif_neg (not_lt.2 ?_)
  rw [hcast, abs_of_nonneg (by positivity)]
  exact hbound

/-- A number field lets the `OverflowError` of an integer escape. -/
theorem numberOf_int {φ : Type} (P : Python φ) (f : FieldDefinition φ) {i : ℤ}
    (h : P.ofInt i = none) :
    numberOf P f (.json (.int i)) = .error (.other .overflowError) := by
  have hfloat : toFloat P (.int i) = .error .overflowError := by
    rw [toFloat, intToFloat, h]
  rw [numberOf, if_neg (by simp [isBlank]), hfloat]
  exact fun h => nomatch h

/-- An integer beyond the floats is no error of the field. -/
theorem huge_number_escapes :
    ¬∀ e, validateFieldValue .plain countField (.json (.int (10 ^ 400))) ≠ .error (.other e) := by
  intro h
  generalize hi : (10 ^ 400 : ℤ) = i at h
  refine h .overflowError ?_
  show validateNumber .plain countField _ = _
  rw [validateNumber, numberOf_int .plain countField (ofInt_huge hi)]
  rfl

end FieldTypes

end PPBase
