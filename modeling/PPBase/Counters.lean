import Mathlib.Algebra.BigOperators.Group.List.Basic
import Mathlib.Tactic.Linarith
import Mathlib.Tactic.Ring
import PPBase.Updates

/-!
# Number modifiers under concurrency

What the keys `field+`, `+field` and `field-` add to a number field (`increment`), and what
`update_record` writes for them : the value of the row it has read, to which it adds one number
after the other as doubles. The `UPDATE` sets the column to that value. So the committed increments
add up if no call rounds a sum, and every `UPDATE` of the field finds the value its call has read
(`adds_up`).
-/

namespace PPBase

namespace Counters

open RecordStore Files Updates

/-! ## One update -/

/-- The options `_validate_number` reads. -/
structure NumberOptions where
  required : Bool := false
  onlyInt : Bool := false
  min : Option Rat := none
  max : Option Rat := none

/-- `float(value)` of `_validate_number`, where blank values are 0. -/
def numberValue (rt : Runtime) : Value → Option Rat
  | .null => some 0
  | .num q => double q
  | .bool b => some (if b then 1 else 0)
  | .text s => if Text.strip s = [] then some 0 else rt.float s
  | _ => none

/-- `_validate_number` -/
def validateNumber (rt : Runtime) (o : NumberOptions) (v : Value) : Except FieldError Value :=
  match numberValue rt v with
  | none => .error ⟨"validation_not_a_number", "Must be a valid number."⟩
  | some q =>
    if o.required ∧ q = 0 then .error .required
    else if o.onlyInt ∧ q ≠ q.floor then
      .error ⟨"validation_only_int", "Must be an integer value."⟩
    else if o.min.any (q < ·) then
      .error ⟨"validation_min_number_constraint",
        "Must be >= ".toList ++ rt.str (.num (o.min.getD 0)) ++ ".".toList⟩
    else if o.max.any (· < q) then
      .error ⟨"validation_max_number_constraint",
        "Must be <= ".toList ++ rt.str (.num (o.max.getD 0)) ++ ".".toList⟩
    else .ok (.num q)

/-- The number in a column. -/
def number : Value → Rat
  | .num q => q
  | _ => 0

/-- No rounding changes the number. -/
def IsDouble (q : Rat) : Prop := double q = some q

/-- A column of a number field. -/
def IsNumber (v : Value) : Prop := v = .null ∨ ∃ q, v = .num q ∧ IsDouble q

/-- The number that a modifier key asks to add or to remove, before it is rounded. -/
def amount (rt : Runtime) : Value → Rat
  | .num q => q
  | .bool b => if b then 1 else 0
  | .text s => (rt.float s).getD 0
  | _ => 0

/-- What one key of the payload adds to the field. -/
def stepOf (rt : Runtime) (k : Text) (e : Text × Value) : Rat :=
  match parseModifierKey e.1 with
  | (name, some m) =>
    if name = k then (if m = .remove then -amount rt e.2 else amount rt e.2) else 0
  | (_, none) => 0

/-- What the payload adds to the field. -/
def increment (rt : Runtime) (k : Text) (data : Row) : Rat := (data.map (stepOf rt k)).sum

/-- No number of the field's keys is rounded, and neither is a sum of them and the value before. -/
def Exact (rt : Runtime) (k : Text) : Rat → Row → Prop
  | _, [] => True
  | q, e :: data =>
    ((∃ m, parseModifierKey e.1 = (k, some m)) →
      IsDouble (amount rt e.2) ∧ IsDouble (q + stepOf rt k e)) ∧ Exact rt k (q + stepOf rt k e) data

/-- The payload has no plain key of the field. -/
def OnlyModifiers (k : Text) (data : Row) : Prop :=
  ∀ e ∈ data, e.1 ≠ "id".toList → parseModifierKey e.1 ≠ (k, none)

/-- A number field of the collection. A table has no two columns of one name. -/
structure IsCounter (c : Collection) (f : Field) : Prop where
  field : c.fieldMap.get? f.name = some f
  type : f.type = .number
  own : f.name ∉ systemColumns c

section

variable {w : Writer} {rt : Runtime} {c : Collection} {f : Field} {row data state state' : Row}
  {files : Dict Text (List Upload)} {e : Text × Value} {v : Value}

theorem IsNumber.isDouble (h : IsNumber v) : IsDouble (number v) := by
  rcases h with rfl | ⟨q, rfl, hq⟩
  · show double 0 = some 0
    decide +kernel
  · exact hq

theorem validateNumber_eq {o : NumberOptions} {v' : Value} (hv : IsNumber v)
    (h : validateNumber rt o v = .ok v') : v' = .num (number v) := by
  have hvalue : numberValue rt v = some (number v) := by
    rcases hv with rfl | ⟨q, rfl, hq⟩
    · rfl
    · exact hq
  unfold validateNumber at h
  rw [hvalue] at h
  dsimp only at h
  split_ifs at h
  exact (Except.ok.inj h).symm

theorem eq_of_sameValue {v' : Value} (hv : IsNumber v) (hv' : IsNumber v')
    (h : sameValue v v' = true) : v = v' := by
  rcases hv with rfl | ⟨q, rfl, -⟩ <;> rcases hv' with rfl | ⟨q', rfl, -⟩ <;>
    exact of_decide_eq_true h

theorem floatOr0_eq (h : IsNumber v) : floatOr0 rt v = .ok (number v) := by
  rcases h with rfl | ⟨q, rfl, hq⟩
  · rfl
  · unfold floatOr0
    dsimp only
    rw [show double q = some q from hq]
    rfl

/-- What `float` makes of a payload value that is not rounded. -/
theorem eq_amount {d : Rat} (h : floatOr0 rt v = .ok d) (hv : IsDouble (amount rt v)) :
    d = amount rt v := by
  cases v with
  | num q =>
    unfold floatOr0 at h
    dsimp only at h
    rw [show double q = some q from hv] at h
    exact (Except.ok.inj h).symm
  | text s =>
    unfold floatOr0 at h
    unfold amount
    dsimp only at h ⊢
    cases hs : rt.float s with
    | none => rw [hs] at h; cases h
    | some q =>
      rw [hs] at h
      exact (Except.ok.inj h).symm
  | null | bool => exact (Except.ok.inj h).symm
  | _ => cases h

/-- A field's state while the payload is applied. -/
def At (k : Text) (state : Row) (q : Rat) : Prop :=
  ∃ v, state.get? k = some v ∧ IsNumber v ∧ number v = q

variable {k : Text} {q : Rat} {d : Draft}

theorem stepOf_eq_zero (h : ∀ m, parseModifierKey e.1 ≠ (k, some m)) : stepOf rt k e = 0 := by
  unfold stepOf
  split
  · rename_i name m hparse
    refine if_neg ?_
    rintro rfl
    exact h m hparse
  · rfl

theorem applyKey_at (hf : IsCounter c f) (hs : At f.name state q)
    (honly : e.1 ≠ "id".toList → parseModifierKey e.1 ≠ (f.name, none))
    (hexact : (∃ m, parseModifierKey e.1 = (f.name, some m)) → IsDouble (amount rt e.2) ∧ IsDouble (q + stepOf rt f.name e))
    (h : applyKey rt c state e = .ok state') : At f.name state' (q + stepOf rt f.name e) := by
  have hsame : ∀ {state'' : Row}, state''.get? f.name = state.get? f.name →
      (∀ m, parseModifierKey e.1 ≠ (f.name, some m)) →
      At f.name state'' (q + stepOf rt f.name e) := by
    intro state'' hget hparse
    rw [stepOf_eq_zero hparse, add_zero]
    unfold At
    rw [hget]
    exact hs
  unfold applyKey at h
  split_ifs at h with hid
  · obtain rfl := Except.ok.inj h
    refine hsame rfl fun m hparse => ?_
    rw [hid, show parseModifierKey "id".toList = ("id".toList, none) from by decide] at hparse
    have hnone : none = some m := congrArg Prod.snd hparse
    cases hnone
  replace honly := honly hid
  rcases hparse : parseModifierKey e.1 with ⟨name, m⟩
  rw [hparse] at h honly
  by_cases hname : name = f.name
  · subst hname
    obtain ⟨m, rfl⟩ : ∃ m', m = some m' :=
      Option.ne_none_iff_exists'.1 fun hm => honly (by rw [hm])
    dsimp only at h
    rw [hf.field] at h
    dsimp only at h
    rw [if_neg (by rw [hf.type]; decide)] at h
    obtain ⟨v', hv', rfl⟩ := Failing.map_eq_ok.1 h
    obtain ⟨v, hv, hnum, rfl⟩ := hs
    unfold applyModifier at hv'
    rw [if_pos hf.type, show getKey state f.name = v from by rw [getKey, hv]; rfl,
      floatOr0_eq hnum] at hv'
    obtain ⟨cur, hcur, hv'⟩ := Failing.bind_eq_ok.1 hv'
    obtain rfl := Except.ok.inj hcur
    obtain ⟨d, hd, hv'⟩ := Failing.bind_eq_ok.1 hv'
    obtain ⟨hamount, hsum⟩ := hexact ⟨m, hparse⟩
    obtain rfl := eq_amount hd hamount
    have hstep : (if m = .remove then number v - amount rt e.2 else number v + amount rt e.2) =
        number v + stepOf rt f.name e := by
      unfold stepOf
      rw [hparse]
      dsimp only
      rw [if_pos rfl]
      split_ifs
      · exact sub_eq_add_neg _ _
      · rfl
    rw [hstep, show double _ = some _ from hsum] at hv'
    obtain rfl := Except.ok.inj hv'
    exact ⟨_, Dict.get?_set_self _ _ _, Or.inr ⟨_, rfl, hsum⟩, rfl⟩
  · refine hsame ?_ fun m' heq => hname (congrArg Prod.fst (hparse.symm.trans heq))
    have hset : ∀ v, (state.set name v).get? f.name = state.get? f.name :=
      fun v => Dict.get?_set_ne _ _ hname
    dsimp only at h
    split at h
    · rw [Except.ok.inj h]
    · split_ifs at h
      · rw [Except.ok.inj h]
      · split at h
        · obtain ⟨v, -, rfl⟩ := Failing.map_eq_ok.1 h
          exact hset v
        · obtain rfl := Except.ok.inj h
          exact hset _

theorem applyKeys_at (hf : IsCounter c f) (hs : At f.name state q)
    (honly : OnlyModifiers f.name data) (hexact : Exact rt f.name q data)
    (h : data.foldlM (applyKey rt c) state = .ok state') :
    At f.name state' (q + increment rt f.name data) := by
  induction data generalizing state q with
  | nil =>
    obtain rfl := Except.ok.inj h
    rwa [increment, List.map_nil, List.sum_nil, add_zero]
  | cons e data ih =>
    rw [List.foldlM_cons] at h
    obtain ⟨mid, hmid, h⟩ := Failing.bind_eq_ok.1 h
    have hnext := ih (applyKey_at hf hs (honly e List.mem_cons_self) hexact.1 hmid)
      (fun x hx => honly x (List.mem_cons_of_mem _ hx)) hexact.2 h
    rwa [add_assoc] at hnext

theorem applyUploads_at (hf : IsCounter c f) (hs : At f.name state q) {u : Text × List Upload}
    (h : applyUploads w rt c state u = .ok state') : At f.name state' q := by
  have hsame : state'.get? f.name = state.get? f.name := by
    unfold applyUploads at h
    dsimp only at h
    split at h
    · rw [Except.ok.inj h]
    · rename_i g hg
      have hname : (parseModifierKey u.1).1 ≠ f.name := by
        intro hname
        unfold fileField? at hg
        rw [hname, hf.field, Option.filter_eq_some_iff] at hg
        have htype : f.type = .file := of_decide_eq_true (Option.some.inj hg.1 ▸ hg.2)
        rw [hf.type] at htype
        cases htype
      have hset : ∀ v, (state.set (parseModifierKey u.1).1 v).get? f.name = state.get? f.name :=
        fun v => Dict.get?_set_ne _ _ hname
      split_ifs at h
      · split at h
        · obtain ⟨v, -, rfl⟩ := Failing.map_eq_ok.1 h
          exact hset v
        · obtain ⟨v, -, rfl⟩ := Failing.map_eq_ok.1 h
          exact hset v
        · obtain rfl := Except.ok.inj h
          exact hset _
      · rw [Except.ok.inj h]
  unfold At
  rw [hsame]
  exact hs

/-- The state of a field, before the payload is applied. -/
theorem get?_initialState (hf : c.fieldMap.get? f.name = some f) (htype : f.type ≠ .autodate) :
    (initialState c row).get? f.name = some (getKey row f.name) := by
  unfold initialState
  generalize c.fieldMap = fields at hf
  induction fields with
  | nil => cases hf
  | cons e fields ih =>
    obtain ⟨k, g⟩ := e
    rw [Dict.get?_cons] at hf
    by_cases hk : k = f.name
    · rw [if_pos hk] at hf
      obtain rfl := Option.some.inj hf
      rw [List.filterMap_cons, if_neg htype]
      exact (if_pos hk).trans (by rw [hk])
    · rw [if_neg hk] at hf
      rw [List.filterMap_cons]
      split_ifs
      · exact ih hf
      · exact (if_neg hk).trans (ih hf)

theorem fieldState_at (hf : IsCounter c f) (hrow : IsNumber (getKey row f.name))
    (honly : OnlyModifiers f.name data) (hexact : Exact rt f.name (number (getKey row f.name)) data)
    (h : fieldState w rt c row data files = .ok state) :
    At f.name state (number (getKey row f.name) + increment rt f.name data) := by
  unfold fieldState at h
  obtain ⟨mid, hmid, h⟩ := Failing.bind_eq_ok.1 h
  have hstart : At f.name (initialState c row) (number (getKey row f.name)) :=
    ⟨_, get?_initialState hf.field (by rw [hf.type]; decide), hrow, rfl⟩
  refine Failing.foldlM_invariant (P := fun s : Row => At f.name s _) ?_
    (applyKeys_at hf hstart honly hexact hmid) h
  exact fun u _ s s' hs hstep => applyUploads_at hf hs hstep

theorem nodup_fieldMap (c : Collection) : c.fieldMap.keys.Nodup := by
  unfold Collection.fieldMap
  suffices h : ∀ (fs : List Field) (d : Dict Text Field), d.keys.Nodup →
      (fs.foldl (fun d f => d.set f.name f) d).keys.Nodup from h c.schema [] List.nodup_nil
  intro fs
  induction fs with
  | nil => exact fun _ hd => hd
  | cons f fs ih => exact fun d hd => ih _ (Dict.nodup_keys_set hd _ _)

theorem nodup_initialState (c : Collection) (row : Row) : (initialState c row).keys.Nodup := by
  refine (nodup_fieldMap c).sublist ?_
  unfold initialState
  generalize c.fieldMap = fields
  induction fields with
  | nil => exact List.Sublist.refl _
  | cons e fields ih =>
    rw [List.filterMap_cons]
    by_cases he : e.2.type = .autodate
    · rw [if_pos he]
      exact ih.cons _
    · rw [if_neg he]
      exact ih.cons_cons _

/-- A state has one value of a field. -/
theorem nodup_fieldState (h : fieldState w rt c row data files = .ok state) : state.keys.Nodup := by
  unfold fieldState at h
  obtain ⟨mid, hmid, h⟩ := Failing.bind_eq_ok.1 h
  have hkeys : mid.keys.Nodup := by
    refine Failing.foldlM_invariant (P := fun s : Row => s.keys.Nodup) ?_ (nodup_initialState c row) hmid
    intro e _ s s' hs hstep
    unfold applyKey at hstep
    split_ifs at hstep
    · exact Except.ok.inj hstep ▸ hs
    dsimp only at hstep
    split at hstep
    · exact Except.ok.inj hstep ▸ hs
    · split_ifs at hstep
      · exact Except.ok.inj hstep ▸ hs
      · split at hstep
        · obtain ⟨v, -, rfl⟩ := Failing.map_eq_ok.1 hstep
          exact Dict.nodup_keys_set hs _ _
        · exact Except.ok.inj hstep ▸ Dict.nodup_keys_set hs _ _
  refine Failing.foldlM_invariant (P := fun s : Row => s.keys.Nodup) ?_ hkeys h
  intro u _ s s' hs hstep
  unfold applyUploads at hstep
  dsimp only at hstep
  split at hstep
  · exact Except.ok.inj hstep ▸ hs
  · split_ifs at hstep
    · split at hstep
      · obtain ⟨v, -, rfl⟩ := Failing.map_eq_ok.1 hstep
        exact Dict.nodup_keys_set hs _ _
      · obtain ⟨v, -, rfl⟩ := Failing.map_eq_ok.1 hstep
        exact Dict.nodup_keys_set hs _ _
      · exact Except.ok.inj hstep ▸ Dict.nodup_keys_set hs _ _
    · exact Except.ok.inj hstep ▸ hs

/-- A field whose value has changed is written as `validate_field_value` returns it. -/
theorem get?_changedColumns {k : Text} {g : Field} (hg : c.fieldMap.get? k = some g)
    (htype : g.type ≠ .autodate) : ∀ {state : Row} (d : Draft), state.keys.Nodup →
      state.get? k = some v → (state.foldl (changedColumn w c row) d).errors = [] →
      sameValue v (getKey row k) = true ∧
          (state.foldl (changedColumn w c row) d).columns.get? k = d.columns.get? k ∨
        ∃ v', w.checkField g v = .ok v' ∧
          (state.foldl (changedColumn w c row) d).columns.get? k = some v'
  | [], _, _, hv, _ => by cases hv
  | (k', v₀) :: state, d, hnd, hv, herrors => by
    rw [List.foldl_cons] at herrors ⊢
    rw [Dict.get?_cons] at hv
    have hnd' := List.nodup_cons.1 hnd
    by_cases hk : k' = k
    · subst hk
      rw [if_pos rfl] at hv
      obtain rfl := Option.some.inj hv
      have hrest : ∀ d, (state.foldl (changedColumn w c row) d).columns.get? k' = d.columns.get? k' :=
        fun d => changedColumns_other d fun x hx hxk => absurd (List.mem_map.2 ⟨x, hx, hxk⟩) hnd'.1
      rw [hrest]
      have hgrows := Draft.Grows.foldl (f := changedColumn w c row) grows_changedColumn
        state (changedColumn w c row d (k', v₀))
      replace herrors := hgrows.errors herrors
      unfold changedColumn at herrors ⊢
      rw [hg] at herrors ⊢
      dsimp only at herrors ⊢
      split_ifs at herrors ⊢ with hsame
      · exact Or.inl ⟨hsame.resolve_left htype, rfl⟩
      · cases hcheck : w.checkField g v₀ with
        | error err =>
          rw [hcheck] at herrors
          exact absurd herrors errors_addError
        | ok v' => exact Or.inr ⟨v', rfl, Dict.get?_set_self _ _ _⟩
    · rw [if_neg hk] at hv
      have hhead : (changedColumn w c row d (k', v₀)).columns.get? k = d.columns.get? k := by
        refine @changedColumns_other w c row k [(k', v₀)] d fun x hx hxk => absurd ?_ hk
        exact (congrArg Prod.fst (List.mem_singleton.1 hx)).symm.trans hxk
      rw [← hhead]
      exact get?_changedColumns hg htype _ hnd'.2 hv herrors

theorem noAuthKey (h : k ∉ systemColumns c) (hauth : c.type = .auth) : NoAuthKey data k := by
  unfold systemColumns at h
  dsimp only at h
  rw [if_pos hauth] at h
  refine ⟨?_, ?_, ?_, ?_⟩
  · rintro (rfl | rfl)
    · exact absurd (by decide) h
    · exact absurd (by decide) h
  · rintro rfl
    exact absurd (by decide) h
  · rintro rfl
    exact absurd (by decide) h
  · rintro rfl
    exact absurd (by decide) h

/-- The column that a creation writes for a field. -/
theorem get?_writtenFields {payload : Row} (hf : c.fieldMap.get? k = some f)
    (hwritten : writesField c f = true)
    (herrors : (c.schema.foldl (fieldColumn w c payload) d).errors = []) :
    ∃ v, w.checkField f (getKey payload k) = .ok v ∧
      (c.schema.foldl (fieldColumn w c payload) d).columns.get? k = some v := by
  have hlast : ∀ fs : List Field,
      (fs.foldl (fun (d : Dict Text Field) f => d.set f.name f) []).get? k = some f →
      (fs.foldl (fieldColumn w c payload) d).errors = [] →
      ∃ v, w.checkField f (getKey payload k) = .ok v ∧
        (fs.foldl (fieldColumn w c payload) d).columns.get? k = some v := by
    intro fs
    induction fs using List.reverseRecOn with
    | nil => exact fun h => by cases h
    | append_singleton fs g ih =>
      rw [List.foldl_append, List.foldl_append]
      intro hg herrors
      rw [List.foldl_cons, List.foldl_nil] at hg herrors ⊢
      rw [Dict.get?_set] at hg
      split_ifs at hg with hname
      · obtain rfl := Option.some.inj hg
        subst hname
        unfold fieldColumn at herrors ⊢
        rw [if_pos hwritten] at herrors ⊢
        cases hv : w.checkField g (getKey payload g.name) with
        | error e =>
          rw [hv] at herrors
          exact absurd herrors errors_addError
        | ok v => exact ⟨v, rfl, Dict.get?_set_self _ _ _⟩
      · obtain ⟨v, hv, hcolumn⟩ := ih hg ((grows_fieldColumn payload _ g).errors herrors)
        refine ⟨v, hv, ?_⟩
        rw [← hcolumn]
        unfold fieldColumn
        split_ifs
        · split
          · exact Dict.get?_set_ne _ _ hname
          · rfl
        · rfl
  exact hlast c.schema hf herrors

/-- The columns of an update before those of the fields. -/
theorem get?_startedColumns (hk : k ∉ systemColumns c)
    (h : (if c.type = .auth then authUpdates w rt c data ⟨[("updated", .time w.now)], []⟩ else .ok ⟨[("updated", .time w.now)], []⟩) = .ok d) :
    d.columns.get? k = none := by
  have hstart : Dict.get? [("updated".toList, Value.time w.now)] k = none := by
    refine if_neg fun heq => hk ?_
    rw [← heq]
    exact List.mem_append_left _ (by decide)
  split_ifs at h with hauth
  · rw [authUpdates_other h (noAuthKey hk hauth)]
    exact hstart
  · rw [← Except.ok.inj h]
    exact hstart

/-- The key of a taken column is no modifier. -/
theorem plain_of_taken {key : Text} (h : key ∈ updateTakenKeys c data) (m : KeyModifier) :
    parseModifierKey key ≠ (k, some m) := by
  have hplain : ∀ key ∈ (["password_hash", "token_key", "password", "passwordConfirm", "email",
      "email_visibility", "verified", "emailVisibility"] : List Text),
      (parseModifierKey key).2 = none := by decide
  have hmem : key ∈ (["password_hash", "token_key", "password", "passwordConfirm", "email",
      "email_visibility", "verified", "emailVisibility"] : List Text) := by
    unfold updateTakenKeys at h
    dsimp only at h
    split_ifs at h
    · exact h
    · rw [List.append_nil] at h
      exact List.mem_append_left ["emailVisibility".toList] h
    · cases h
  intro hparse
  have hnone := hplain _ hmem
  rw [hparse] at hnone
  cases hnone

/-- Without the entries of a plain key, the payload adds the same. -/
theorem increment_del {key : Text} (h : ∀ m, parseModifierKey key ≠ (k, some m)) (data : Row) :
    increment rt k (Dict.del data key) = increment rt k data := by
  unfold increment Dict.del
  induction data with
  | nil => rfl
  | cons e data ih =>
    rw [List.map_cons, List.sum_cons, ← ih]
    by_cases he : e.1 = key
    · rw [List.filter_cons_of_neg (by simpa using he), stepOf_eq_zero (he ▸ h), zero_add]
    · rw [List.filter_cons_of_pos (by simpa using he), List.map_cons, List.sum_cons]

theorem exact_del {key : Text} (h : ∀ m, parseModifierKey key ≠ (k, some m))
    (hexact : Exact rt k q data) : Exact rt k q (Dict.del data key) := by
  unfold Dict.del
  induction data generalizing q with
  | nil => trivial
  | cons e data ih =>
    obtain ⟨hhead, htail⟩ := hexact
    by_cases he : e.1 = key
    · rw [List.filter_cons_of_neg (by simpa using he)]
      rw [stepOf_eq_zero (he ▸ h), add_zero] at htail
      exact ih htail
    · rw [List.filter_cons_of_pos (by simpa using he)]
      exact ⟨hhead, ih htail⟩

theorem exact_taken (hexact : Exact rt k q data) :
    Exact rt k q ((updateTakenKeys c data).foldl Dict.del data) ∧
      increment rt k ((updateTakenKeys c data).foldl Dict.del data) = increment rt k data := by
  have htaken : ∀ key ∈ updateTakenKeys c data, ∀ m, parseModifierKey key ≠ (k, some m) :=
    fun key hkey => plain_of_taken hkey
  generalize updateTakenKeys c data = keys at htaken
  induction keys generalizing data with
  | nil => exact ⟨hexact, rfl⟩
  | cons key keys ih =>
    have hkey := htaken key List.mem_cons_self
    have hrest := ih (exact_del hkey hexact) fun key' hkey' => htaken key' (List.mem_cons_of_mem _ hkey')
    exact ⟨hrest.1, hrest.2.trans (increment_del hkey data)⟩

/-- What an update writes for a number field its payload only modifies. -/
theorem updateDraft_number (hf : IsCounter c f) {o : NumberOptions}
    (hcheck : w.checkField f = validateNumber rt o) (hrow : IsNumber (getKey row f.name))
    (honly : OnlyModifiers f.name data) (hexact : Exact rt f.name (number (getKey row f.name)) data)
    (h : updateDraft w rt c row data files = .ok d) (herrors : d.errors = []) :
    d.columns.get? f.name = none ∧ increment rt f.name data = 0 ∨
      d.columns.get? f.name =
          some (.num (number (getKey row f.name) + increment rt f.name data)) ∧
        IsDouble (number (getKey row f.name) + increment rt f.name data) := by
  unfold updateDraft at h
  obtain ⟨d₁, h₁, h⟩ := Failing.bind_eq_ok.1 h
  obtain ⟨state, hstate, h⟩ := Failing.bind_eq_ok.1 h
  obtain rfl := Except.ok.inj h
  have hsystem : d₁.columns.get? f.name = none := get?_startedColumns hf.own h₁
  have honly' : OnlyModifiers f.name ((updateTakenKeys c data).foldl Dict.del data) :=
    fun e he => honly e (Dict.mem_foldl_del.1 he).1
  obtain ⟨htaken, hincrement⟩ := exact_taken (c := c) hexact
  obtain ⟨v, hv, hnum, hvalue⟩ := fieldState_at hf hrow honly' htaken hstate
  rw [hincrement] at hvalue
  have hstart : (updateUploadErrors w c files d₁).columns.get? f.name = none := by
    unfold updateUploadErrors
    rw [uploadErrors_columns, hsystem]
  rcases get?_changedColumns hf.field (by rw [hf.type]; decide) _ (nodup_fieldState hstate) hv herrors
    with ⟨hsame, hcol⟩ | ⟨v', hv', hcol⟩
  · refine Or.inl ⟨hcol.trans hstart, ?_⟩
    rw [eq_of_sameValue hnum hrow hsame] at hvalue
    linarith
  · right
    rw [hcheck] at hv'
    rw [hcol, validateNumber_eq hnum hv', hvalue]
    exact ⟨rfl, hvalue ▸ hnum.isDouble⟩

/-- The only column of an update without changes. -/
theorem eq_updated (h : Draft.Grows ⟨[("updated", .time w.now)], []⟩ d)
    (hlen : d.columns.length ≤ 1) (hk : d.columns.get? k = some v) : k = "updated" := by
  have hupdated := h.has (Dict.has_iff_mem_keys.2 (List.mem_cons_self (a := "updated".toList)))
  match hcolumns : d.columns, hlen with
  | [], _ => rw [hcolumns] at hk; cases hk
  | [e], _ =>
    rw [hcolumns] at hk hupdated
    rw [Dict.has_iff_mem_keys] at hupdated
    have hmem : k ∈ Dict.keys [e] := Dict.has_iff_mem_keys.1 (by unfold Dict.has; rw [hk]; rfl)
    exact (List.mem_singleton.1 hmem).trans (List.mem_singleton.1 hupdated).symm

/-- What a call writes for a number field its payload only modifies. -/
theorem work_number {K : Storage.Codec} {x : Call} {W : Work} (hf : IsCounter c f) {o : NumberOptions}
    (hcheck : x.writer.checkField f = validateNumber rt o) (hrow : IsNumber (getKey row f.name))
    (honly : OnlyModifiers f.name x.data)
    (hexact : Exact rt f.name (number (getKey row f.name)) x.data) (h : work K rt c x row = some W) :
    W.row = row ∧ (W.columns.get? f.name = none ∧ increment rt f.name x.data = 0 ∨
      W.columns.get? f.name =
          some (.num (number (getKey row f.name) + increment rt f.name x.data)) ∧
        IsDouble (number (getKey row f.name) + increment rt f.name x.data)) := by
  obtain ⟨d, state, hd, herrors, ⟨hlen, rfl⟩ | ⟨-, rfl⟩⟩ := exists_of_work h
  · refine ⟨rfl, Or.inl ⟨rfl, ?_⟩⟩
    refine (updateDraft_number hf hcheck hrow honly hexact hd herrors).elim And.right fun hcol => ?_
    refine absurd ?_ hf.own
    rw [eq_updated (grows_updateDraft hd) hlen hcol.1]
    exact List.mem_append_left _ (by decide)
  · exact ⟨rfl, updateDraft_number hf hcheck hrow honly hexact hd herrors⟩

end

/-! ## All of them -/

/-- The field in the committed row. -/
def cell (db : Db) (c : Collection) (id : Text) (f : Field) : Value :=
  getKey ((db.rowById c.name id).getD []) f.name

/-- A call on the record, of which the field's keys are modifiers. -/
structure Modifies (rt : Runtime) (id : Text) (f : Field) (x : Call) : Prop where
  id : x.id = id
  modifiers : OnlyModifiers f.name x.data
  checks : ∃ o, x.writer.checkField f = validateNumber rt o

/-- The transaction has committed. -/
def hasCommitted : Phase → Bool
  | .committed _ _ | .ended true => true
  | _ => false

/-- What the committed calls add. -/
def total (rt : Runtime) (f : Field) (s : State) : Rat :=
  (s.procs.map fun r => if hasCommitted r.phase then increment rt f.name r.call.data else 0).sum

/-- An `UPDATE` of the field finds the value its call has read. -/
def Finds (c : Collection) (f : Field) (s : State) (r r' : Running) : Prop :=
  ∀ W, r.phase = .saved W → r'.phase = .updated W → W.columns.has f.name = true →
    number (cell s.shared.db c r.call.id f) = number (getKey W.row f.name)

/-- A call that computes what it writes rounds no sum. -/
def Unrounded (rt : Runtime) (f : Field) (r r' : Running) : Prop :=
  ∀ row W, r.phase = .read row → r'.phase = .saved W →
    Exact rt f.name (number (getKey row f.name)) r.call.data

/-- What is known of a call by how far it is. -/
structure Works (rt : Runtime) (f : Field) (r : Running) : Prop where
  read : ∀ row, r.phase = .read row → IsNumber (getKey row f.name)
  work : ∀ W, r.phase = .saved W ∨ r.phase.pending = some W →
    W.columns.keys.Nodup ∧ "id".toList ∉ W.columns.keys ∧
      (W.columns.get? f.name = none ∧ increment rt f.name r.call.data = 0 ∨
        W.columns.get? f.name =
            some (.num (number (getKey W.row f.name) + increment rt f.name r.call.data)) ∧
          IsDouble (number (getKey W.row f.name) + increment rt f.name r.call.data))

/-- A new call on the record. -/
def Calls (rt : Runtime) (id : Text) (f : Field) (r : Running) : Prop :=
  Starts r ∧ Modifies rt id f r.call

def MovesFound (K : Storage.Codec) (rt : Runtime) (c : Collection) (f : Field) (s : State) (i : ℕ)
    (r : Running) (S' : Shared) (r' : Running) : Prop :=
  Moves K rt c s i r S' r' ∧ Finds c f s r r' ∧ Unrounded rt f r r'

/-- The committed increments have been added to the field. -/
structure Sums (rt : Runtime) (c : Collection) (id : Text) (f : Field) (q : Rat) (s : State) :
    Prop where
  row : ∃ row, s.shared.db.rowById c.name id = some row
  cell : IsNumber (cell s.shared.db c id f)
  calls : ∀ r ∈ s.procs, Modifies rt id f r.call
  works : ∀ r ∈ s.procs, Works rt f r
  held : ∀ r ∈ s.procs, ∀ W, r.phase.pending = some W → W.columns.has f.name = true →
    number (Counters.cell s.shared.db c id f) = number (getKey W.row f.name)
  locks : s.procs.Pairwise fun r r' => ¬(r.locks id = true ∧ r'.locks id = true)
  total : number (Counters.cell s.shared.db c id f) = q + total rt f s

section

variable {K : Storage.Codec} {rt : Runtime} {c : Collection} {id : Text} {f : Field} {q : Rat}
  {s s' : State} {i : ℕ} {r r' : Running} {S' : Shared}

theorem total_set (h : s.procs[i]? = some r) (hcall : r'.call = r.call) :
    total rt f ⟨S', s.procs.set i r'⟩ = total rt f s
      - (if hasCommitted r.phase then increment rt f.name r.call.data else 0)
      + (if hasCommitted r'.phase then increment rt f.name r.call.data else 0) := by
  unfold total
  rw [((Pool.procs_perm h).map _).sum_eq, ((Pool.set_perm r' h).map _).sum_eq, List.map_cons,
    List.map_cons, List.sum_cons, List.sum_cons, hcall]
  ring

/-- A step that leaves the rows alone. -/
theorem Sums.of_db_eq (h : Sums rt c id f q s) (hr : s.procs[i]? = some r) (hcall : r'.call = r.call)
    (hdb : S'.db = s.shared.db) (hsame : hasCommitted r'.phase = hasCommitted r.phase)
    (hworks : Works rt f r')
    (hheld : ∀ W, r'.phase.pending = some W → W.columns.has f.name = true →
      number (Counters.cell s.shared.db c id f) = number (getKey W.row f.name))
    (hlocks : r'.locks id = true → ∀ p ∈ s.procs.eraseIdx i, p.locks id = false) :
    Sums rt c id f q ⟨S', s.procs.set i r'⟩ where
  row := hdb ▸ h.row
  cell := hdb ▸ h.cell
  calls := (Pool.forall_set r' hr).2
    ⟨hcall ▸ h.calls r (List.mem_of_getElem? hr), ((Pool.forall_procs hr).1 h.calls).2⟩
  works := (Pool.forall_set r' hr).2 ⟨hworks, ((Pool.forall_procs hr).1 h.works).2⟩
  held := hdb ▸ (Pool.forall_set r' hr).2 ⟨hheld, ((Pool.forall_procs hr).1 h.held).2⟩
  locks := by
    refine (Pool.pairwise_set (fun hpq h' => hpq h'.symm) r' hr).2 ⟨?_, ?_⟩
    · rintro p hp ⟨hr', hp'⟩
      rw [hlocks hr' p hp] at hp'
      cases hp'
    · exact ((Pool.pairwise_procs (fun hpq h' => hpq h'.symm) hr).1 h.locks).2
  total := by
    rw [total_set hr hcall, hsame, hdb, h.total]
    ring

variable {W : Work}

theorem locks_of_pending (h : r.phase.pending = some W) (hid : r.call.id = id) (hW : W.columns ≠ []) :
    r.locks id = true := by
  unfold Running.locks
  rw [h, Option.any_some, decide_eq_true hid, decide_eq_true hW]
  rfl

theorem locks_iff : r.locks id = true ↔
    r.call.id = id ∧ ∃ W, r.phase.pending = some W ∧ W.columns ≠ [] := by
  unfold Running.locks
  rw [Bool.and_eq_true, decide_eq_true_iff, Option.any_eq_true]
  simp

/-- The row once the update is written. -/
theorem rowById_written {db : Db} {x : Call} {row : Row} (hid : "id".toList ∉ W.columns.keys)
    (hrow : db.rowById c.name x.id = some row) :
    (written c db x W).rowById c.name x.id = some (Dict.update row W.columns) := by
  have hfound : row.get? "id" = some (.text x.id) := by simpa using List.find?_some hrow
  unfold written
  rw [Db.rowById_updateRow_eq hid, hrow, Option.map_some, if_pos hfound]

/-- The field once the update is written. -/
theorem cell_written {db : Db} {x : Call} {row : Row} (hid : "id".toList ∉ W.columns.keys)
    (hnd : W.columns.keys.Nodup) (hrow : db.rowById c.name x.id = some row) :
    cell (written c db x W) c x.id f = (W.columns.get? f.name).getD (cell db c x.id f) := by
  unfold cell
  rw [rowById_written hid hrow, hrow]
  unfold getKey
  rw [Option.getD_some, Option.getD_some, Dict.get?_update hnd]
  cases W.columns.get? f.name <;> rfl

/-- The commit adds the increment. -/
theorem Sums.commit {final : Location → Bool} (h : Sums rt c id f q s) (hr : s.procs[i]? = some r)
    (hphase : r.phase = .referenced W final) (hcall : r'.call = r.call)
    (hphase' : r'.phase = .committed W final) :
    Sums rt c id f q
      ⟨{ s.shared with db := written c s.shared.db r.call W }, s.procs.set i r'⟩ := by
  have hmem := List.mem_of_getElem? hr
  have hpending : r.phase.pending = some W := by rw [hphase]; rfl
  obtain ⟨hnd, hkeys, hcolumn⟩ := (h.works r hmem).work W (Or.inr hpending)
  obtain rfl := (h.calls r hmem).id
  obtain ⟨row, hrow⟩ := h.row
  have hcell := cell_written (f := f) hkeys hnd hrow
  have hadds : number (Counters.cell (written c s.shared.db r.call W) c r.call.id f) =
      number (Counters.cell s.shared.db c r.call.id f) + increment rt f.name r.call.data := by
    rw [hcell]
    rcases hcolumn with ⟨hnone, hzero⟩ | ⟨hsome, -⟩
    · rw [hnone, hzero, add_zero]
      rfl
    · rw [hsome, h.held r hmem W hpending (by unfold Dict.has; rw [hsome]; rfl)]
      rfl
  have hothers : ∀ p ∈ s.procs.eraseIdx i, ∀ W', p.phase.pending = some W' →
      W'.columns.has f.name = true → written c s.shared.db r.call W = s.shared.db := by
    intro p hp W' hW' hhas
    by_cases hW : W.columns = []
    · unfold written
      rw [hW, updateRow_nil]
    · have hfree := ((Pool.pairwise_procs (fun hpq h' => hpq h'.symm) hr).1 h.locks).1 p hp
      have hne : W'.columns ≠ [] := fun hnil => by rw [hnil] at hhas; cases hhas
      refine absurd ⟨locks_of_pending hpending rfl hW, locks_of_pending hW' ?_ hne⟩ hfree
      exact (h.calls p ((Pool.procs_perm hr).mem_iff.2 (List.mem_cons_of_mem _ hp))).id
  refine ⟨⟨_, rowById_written hkeys hrow⟩, ?_, ?_, ?_, ?_, ?_, ?_⟩
  · show IsNumber (Counters.cell (written c s.shared.db r.call W) c r.call.id f)
    rw [hcell]
    rcases hcolumn with ⟨hnone, -⟩ | ⟨hsome, hdouble⟩
    · rw [hnone]
      exact h.cell
    · rw [hsome]
      exact Or.inr ⟨_, rfl, hdouble⟩
  · exact (Pool.forall_set r' hr).2 ⟨hcall ▸ h.calls r hmem, ((Pool.forall_procs hr).1 h.calls).2⟩
  · refine (Pool.forall_set r' hr).2 ⟨⟨?_, ?_⟩, ((Pool.forall_procs hr).1 h.works).2⟩
    · intro row' hread
      rw [hphase'] at hread
      cases hread
    · intro W' hW'
      rw [hphase'] at hW'
      rcases hW' with hW' | hW' <;> cases hW'
  · refine (Pool.forall_set r' hr).2 ⟨?_, ?_⟩
    · intro W' hW'
      rw [hphase'] at hW'
      cases hW'
    · intro p hp W' hW' hhas
      show number (Counters.cell (written c s.shared.db r.call W) c r.call.id f) = _
      rw [hothers p hp W' hW' hhas]
      exact ((Pool.forall_procs hr).1 h.held).2 p hp W' hW' hhas
  · refine (Pool.pairwise_set (fun hpq h' => hpq h'.symm) r' hr).2 ⟨?_, ?_⟩
    · rintro p - ⟨hlocks, -⟩
      obtain ⟨-, W', hW', -⟩ := locks_iff.1 hlocks
      rw [hphase'] at hW'
      cases hW'
    · exact ((Pool.pairwise_procs (fun hpq h' => hpq h'.symm) hr).1 h.locks).2
  · rw [total_set hr hcall, hphase, hphase']
    show number (Counters.cell (written c s.shared.db r.call W) c r.call.id f) = _
    rw [hadds, h.total]
    simp only [hasCommitted, if_true, Bool.false_eq_true, if_false]
    ring

theorem Sums.arrive (h : Sums rt c id f q s) (hr : Starts r) (hcall : Modifies rt id f r.call) :
    Sums rt c id f q ⟨s.shared, s.procs ++ [r]⟩ := by
  have hphase : r.phase = .begun := hr
  have hforall : ∀ {I : Running → Prop}, (∀ p ∈ s.procs, I p) → I r → ∀ p ∈ s.procs ++ [r], I p := by
    intro I hall hnew p hp
    rcases List.mem_append.1 hp with hp | hp
    · exact hall p hp
    · exact List.mem_singleton.1 hp ▸ hnew
  refine ⟨h.row, h.cell, hforall h.calls hcall, hforall h.works ⟨?_, ?_⟩, hforall h.held ?_, ?_, ?_⟩
  · intro row hread
    rw [hphase] at hread
    cases hread
  · intro W hW
    rw [hphase] at hW
    rcases hW with hW | hW <;> cases hW
  · intro W hW
    rw [hphase] at hW
    cases hW
  · refine List.pairwise_append.2 ⟨h.locks, List.pairwise_singleton _ _, ?_⟩
    rintro p - p' hp' ⟨-, hlocks⟩
    obtain ⟨-, W, hW, -⟩ := locks_iff.1 hlocks
    rw [List.mem_singleton.1 hp', hphase] at hW
    cases hW
  · rw [h.total]
    unfold Counters.total
    rw [List.map_append, List.sum_append, List.map_singleton, List.sum_singleton, hphase]
    simp [hasCommitted]

theorem Sums.move (hf : IsCounter c f) (hid : c.fieldMap.get? "id" = none)
    (h : Sums rt c id f q s) (hr : s.procs[i]? = some r) (hmove : Moves K rt c s i r S' r')
    (hfinds : Finds c f s r r') (hexact : Unrounded rt f r r') :
    Sums rt c id f q ⟨S', s.procs.set i r'⟩ := by
  have hcall := hmove.1
  have hdoes := does_of_moves hmove
  have hmem := List.mem_of_getElem? hr
  have hmod := h.calls r hmem
  have hworks := h.works r hmem
  have hheld := h.held r hmem
  have hlocks := ((Pool.pairwise_procs (fun hpq h' => hpq h'.symm) hr).1 h.locks).1
  obtain ⟨call, phase⟩ := r
  obtain ⟨call', phase'⟩ := r'
  dsimp only at hcall hdoes hmod
  subst hcall
  -- Where the call holds nothing any more.
  have hidle : ∀ {p : Phase}, (∀ row, p ≠ .read row) → (∀ W, p ≠ .saved W) → p.pending = none →
      S'.db = s.shared.db → hasCommitted p = hasCommitted phase →
      Sums rt c id f q ⟨S', s.procs.set i ⟨call', p⟩⟩ := by
    intro p hread hsaved hpending hdb hsame
    refine h.of_db_eq hr rfl hdb hsame ⟨fun row hp => absurd hp (hread row), ?_⟩ ?_ ?_
    · rintro W (hp | hp)
      · exact absurd hp (hsaved W)
      · exact absurd (hpending.symm.trans hp) nofun
    · exact fun W hp => absurd (hpending.symm.trans hp) nofun
    · intro hlocks
      obtain ⟨-, W, hp, -⟩ := locks_iff.1 hlocks
      exact absurd (hpending.symm.trans hp) nofun
  cases hdoes with
  | stops hp =>
    refine hidle nofun nofun rfl rfl ?_
    rcases hp with rfl | ⟨row, rfl⟩ <;> rfl
  | @reads row hrow =>
    refine h.of_db_eq hr rfl rfl rfl ⟨?_, ?_⟩ nofun ?_
    · intro row' hread
      obtain rfl := Phase.read.inj hread
      have hcell := h.cell
      unfold Counters.cell at hcell
      rwa [← hmod.id, hrow] at hcell
    · rintro W (hp | hp) <;> cases hp
    · intro hl
      obtain ⟨-, W, hp, -⟩ := locks_iff.1 hl
      cases hp
  | @saves row W hfree hW =>
    obtain ⟨o, hcheck⟩ := hmod.checks
    obtain ⟨hrow, hcolumn⟩ := work_number hf hcheck (hworks.read row rfl) hmod.modifiers
      (hexact row W rfl rfl) hW
    refine h.of_db_eq hr rfl rfl rfl ⟨nofun, ?_⟩ nofun ?_
    · rintro W' (hp | hp)
      · obtain rfl := Phase.saved.inj hp
        refine ⟨nodup_columns hW, id_notMem_columns hid hW, ?_⟩
        rw [hrow]
        exact hcolumn
      · cases hp
    · intro hl
      obtain ⟨-, W', hp, -⟩ := locks_iff.1 hl
      cases hp
  | refuses hfree => exact hidle nofun nofun rfl rfl rfl
  | @updates W hwait =>
    refine h.of_db_eq hr rfl rfl rfl ⟨nofun, ?_⟩ ?_ ?_
    · rintro W' (hp | hp)
      · cases hp
      · obtain rfl := Option.some.inj hp
        exact hworks.work W (Or.inl rfl)
    · intro W' hp hhas
      obtain rfl := Option.some.inj hp
      rw [← hmod.id]
      exact hfinds W rfl rfl hhas
    · intro hl p hp
      obtain ⟨-, W', hW', hne⟩ := locks_iff.1 hl
      obtain rfl := Option.some.inj hW'
      rw [← hmod.id]
      exact locks_eq_false hwait hne p hp
  | @reread W =>
    refine h.of_db_eq hr rfl rfl rfl ⟨nofun, ?_⟩ ?_ ?_
    · rintro W' (hp | hp)
      · cases hp
      · exact hworks.work W' (Or.inr hp)
    · exact hheld
    · exact fun hl p hp => Bool.eq_false_iff.2 fun hp' => hlocks p hp ⟨hl, hp'⟩
  | commits => exact h.commit hr rfl rfl rfl
  | clears => exact hidle nofun nofun rfl rfl rfl
  | fails hp =>
    refine hidle nofun nofun rfl rfl ?_
    rcases hp with rfl | hp
    · rfl
    · cases phase <;> first | rfl | cases hp
  | undoes => exact hidle nofun nofun rfl rfl rfl

theorem Sums.step (hf : IsCounter c f) (hid : c.fieldMap.get? "id" = none)
    (h : Sums rt c id f q s)
    (hstep : Pool.Step (Calls rt id f) (MovesFound K rt c f) s s') :
    Sums rt c id f q s' := by
  cases hstep with
  | arrive hstart => exact h.arrive hstart.1 hstart.2
  | move hr hmove => exact h.move hf hid hr hmove.1 hmove.2.1 hmove.2.2

end

/-- In every run in which no call rounds a sum, and each `UPDATE` of the field finds the value its
call has read, the committed increments add up. -/
theorem adds_up (K : Storage.Codec) (rt : Runtime) {c : Collection} {f : Field} {id : Text} {db : Db}
    {row : Row} (files : Cleanup.Store Location (List UInt8)) (hf : IsCounter c f)
    (hid : c.fieldMap.get? "id" = none) (hrow : db.rowById c.name id = some row)
    (hnumber : IsNumber (getKey row f.name)) {s : State}
    (hrun : Pool.Run (Calls rt id f) (MovesFound K rt c f) (start db files) s) :
    number (cell s.shared.db c id f) = number (cell db c id f) + total rt f s := by
  have hcell : IsNumber (cell db c id f) := by
    unfold cell
    rwa [hrow]
  refine (hrun.invariant (I := Sums rt c id f (number (cell db c id f)))
    (fun h hstep => h.step hf hid hstep) ?_).total
  refine ⟨⟨row, hrow⟩, hcell, fun _ h => absurd h List.not_mem_nil,
    fun _ h => absurd h List.not_mem_nil, fun _ h => absurd h List.not_mem_nil, .nil, ?_⟩
  exact (add_zero _).symm

/-- A collection with a number. -/
def countField : Field := { name := "n", type := .number }

def counts : Collection where
  id := "counts"
  name := "counts"
  schema := [countField]

def countRow : Row := [("id", .text "r1"), ("n", .num 0)]

def oneCount : Db := ⟨[counts], [("counts", ⟨["id", "n"], [countRow]⟩)]⟩

/-- A call that adds one. -/
def addOne : Call where
  writer := { Writer.simple with checkField := fun _ => validateNumber .simple {} }
  id := "r1"
  data := [("n+", .num 1)]
  files := []

/-- It has read 0. -/
def addedOne : Work := ⟨countRow, [("updated", .time 0), ("n", .num 1)], [], []⟩

theorem work_addOne : work plainCodec .simple counts addOne countRow = some addedOne ∧
    savedBy .simple counts addOne countRow = [] := by
  decide +kernel

theorem isCounter_countField : IsCounter counts countField := ⟨rfl, rfl, by decide⟩

theorem modifies_addOne : Modifies .simple "r1" countField addOne where
  id := rfl
  modifiers := by
    intro e he _
    obtain rfl := List.mem_singleton.1 he
    decide
  checks := ⟨{}, rfl⟩

/-- The rows once one call, and once both calls have committed. -/
def onceAdded : Db := written counts oneCount addOne addedOne

def twiceAdded : Db := written counts onceAdded addOne addedOne

/-- The references a call reads before it commits. -/
def finalOf (db : Db) : Location → Bool :=
  Storage.references plainCodec .simple (written counts db addOne addedOne)

/-- Calls that share the rows, without files. -/
def sharing (db : Db) (phases : List Phase) : State :=
  ⟨⟨db, fun _ => none, fun _ => false⟩, phases.map fun p => ⟨addOne, p⟩⟩

theorem next_read (db : Db) :
    next plainCodec .simple counts (sharing db []).shared addOne (.read countRow) =
      some ((sharing db []).shared, .saved addedOne) := by
  unfold next
  dsimp only
  rw [work_addOne.1, work_addOne.2]
  rfl

theorem next_committed (db : Db) (final : Location → Bool) :
    next plainCodec .simple counts (sharing db []).shared addOne (.committed addedOne final) =
      some ((sharing db []).shared, .ended true) := by
  have hfiles : Cleanup.clear (sharing db []).shared.files (addedOne.clears final) =
      (sharing db []).shared.files := by
    funext l
    exact ite_self _
  unfold next
  dsimp only
  rw [hfiles]

/-- The step of a call that neither waits nor writes files. -/
theorem moves_addOne {db db' : Db} {phases : List Phase} {i : ℕ} {p p' : Phase}
    (hwait : waits (sharing db phases) i ⟨addOne, p⟩ = false)
    (hnext : next plainCodec .simple counts (sharing db []).shared addOne p =
      some ((sharing db' []).shared, p')) (hread : ∀ row, p = .read row → row = countRow) :
    Moves plainCodec .simple counts (sharing db phases) i ⟨addOne, p⟩ (sharing db' []).shared
      ⟨addOne, p'⟩ := by
  refine ⟨rfl, Or.inl ⟨hwait, ?_, hnext⟩⟩
  intro row hrow e he
  rw [hread row hrow, work_addOne.2] at he
  cases he

/-- A call adds one, with none beside it. -/
theorem one_adds_up : ∃ s, Pool.Run (Calls .simple "r1" countField)
      (MovesFound plainCodec .simple counts countField) (start oneCount fun _ => none) s ∧
    number (cell s.shared.db counts "r1" countField) =
      number (cell oneCount counts "r1" countField) + total .simple countField s ∧
    total .simple countField s = 1 := by
  have hstep : ∀ {db db' : Db} {p p' : Phase}, waits (sharing db [p]) 0 ⟨addOne, p⟩ = false →
      next plainCodec .simple counts (sharing db []).shared addOne p =
        some ((sharing db' []).shared, p') → (∀ row, p = .read row → row = countRow) →
      (∀ W, p = .saved W → W = addedOne ∧ db = oneCount) →
      Pool.Step (Calls .simple "r1" countField) (MovesFound plainCodec .simple counts countField)
        (sharing db [p]) (sharing db' [p']) := by
    intro db db' p p' hwait hnext hread hsaved
    refine .move (i := 0) rfl
      ⟨moves_addOne hwait hnext hread, fun W hW _ _ => ?_, fun row W hrow _ => ?_⟩
    · obtain ⟨rfl, rfl⟩ := hsaved W hW
      show number (cell oneCount counts "r1" countField) = number (getKey addedOne.row countField.name)
      decide +kernel
    · obtain rfl := hread row hrow
      have hone : double 1 = some 1 ∧ double (0 + 1) = some (0 + 1) := by decide +kernel
      exact ⟨fun _ => hone, trivial⟩
  have h₀ : Pool.Step (Calls .simple "r1" countField)
      (MovesFound plainCodec .simple counts countField) (start oneCount fun _ => none)
      (sharing oneCount [.begun]) := by
    have hcalls : Calls .simple "r1" countField ⟨addOne, .begun⟩ := ⟨rfl, modifies_addOne⟩
    exact .arrive hcalls
  have h₁ := @hstep oneCount oneCount .begun (.read countRow) rfl rfl nofun nofun
  have h₂ := @hstep oneCount oneCount (.read countRow) (.saved addedOne) rfl (next_read _)
    (fun row h => (Phase.read.inj h).symm) nofun
  have h₃ := @hstep oneCount oneCount (.saved addedOne) (.updated addedOne) rfl rfl nofun
    (fun W h => ⟨(Phase.saved.inj h).symm, rfl⟩)
  have h₄ := @hstep oneCount oneCount (.updated addedOne) (.referenced addedOne (finalOf oneCount)) rfl rfl
    nofun nofun
  have h₅ := @hstep oneCount onceAdded (.referenced addedOne (finalOf oneCount))
    (.committed addedOne (finalOf oneCount)) rfl rfl nofun nofun
  have hrun := (((((Relation.ReflTransGen.single h₀).tail h₁).tail h₂).tail h₃).tail h₄).tail h₅
  have hnumber : IsNumber (getKey countRow countField.name) :=
    Or.inr ⟨0, rfl, show double 0 = some 0 from by decide +kernel⟩
  refine ⟨_, hrun, ?_, by decide +kernel⟩
  exact adds_up plainCodec .simple (fun _ => none) isCounter_countField rfl rfl hnumber hrun

/-- Two calls that both read 0 before either writes both commit, and add one together. -/
theorem increment_lost : ¬∀ s, Pool.Run (Calls .simple "r1" countField)
    (Moves plainCodec .simple counts) (start oneCount fun _ => none) s →
      (∀ r ∈ s.procs, r.phase = .ended true) →
      number (cell s.shared.db counts "r1" countField) =
        number (cell oneCount counts "r1" countField) + total .simple countField s := by
  intro h
  have hcalls : Calls .simple "r1" countField ⟨addOne, .begun⟩ := ⟨rfl, modifies_addOne⟩
  have a₀ : Pool.Step (Calls .simple "r1" countField) (Moves plainCodec .simple counts)
      (start oneCount fun _ => none) (sharing oneCount [.begun]) := .arrive hcalls
  have a₁ : Pool.Step (Calls .simple "r1" countField) (Moves plainCodec .simple counts)
      (sharing oneCount [.begun]) (sharing oneCount [.begun, .begun]) := .arrive hcalls
  have hfirst : ∀ {db db' : Db} {p p' : Phase} (b : Phase),
      waits (sharing db [p, b]) 0 ⟨addOne, p⟩ = false →
      next plainCodec .simple counts (sharing db []).shared addOne p =
        some ((sharing db' []).shared, p') → (∀ row, p = .read row → row = countRow) →
      Pool.Step (Calls .simple "r1" countField) (Moves plainCodec .simple counts)
        (sharing db [p, b]) (sharing db' [p', b]) :=
    fun b hwait hnext hread => .move (i := 0) rfl (moves_addOne hwait hnext hread)
  have hsecond : ∀ {db db' : Db} {p p' : Phase} (a : Phase),
      waits (sharing db [a, p]) 1 ⟨addOne, p⟩ = false →
      next plainCodec .simple counts (sharing db []).shared addOne p =
        some ((sharing db' []).shared, p') → (∀ row, p = .read row → row = countRow) →
      Pool.Step (Calls .simple "r1" countField) (Moves plainCodec .simple counts)
        (sharing db [a, p]) (sharing db' [a, p']) :=
    fun a hwait hnext hread => .move (i := 1) rfl (moves_addOne hwait hnext hread)
  have f₁ := @hfirst oneCount oneCount .begun (.read countRow) .begun rfl rfl nofun
  have s₁ := @hsecond oneCount oneCount .begun (.read countRow) (.read countRow) rfl rfl nofun
  have f₂ := @hfirst oneCount oneCount (.read countRow) (.saved addedOne) (.read countRow) rfl
    (next_read _) fun row h => (Phase.read.inj h).symm
  have s₂ := @hsecond oneCount oneCount (.read countRow) (.saved addedOne) (.saved addedOne) rfl
    (next_read _) fun row h => (Phase.read.inj h).symm
  have f₃ := @hfirst oneCount oneCount (.saved addedOne) (.updated addedOne) (.saved addedOne) rfl rfl
    nofun
  have f₄ := @hfirst oneCount oneCount (.updated addedOne) (.referenced addedOne (finalOf oneCount))
    (.saved addedOne) rfl rfl nofun
  have f₅ := @hfirst oneCount onceAdded (.referenced addedOne (finalOf oneCount))
    (.committed addedOne (finalOf oneCount)) (.saved addedOne) rfl rfl nofun
  have f₆ := @hfirst onceAdded onceAdded (.committed addedOne (finalOf oneCount)) (.ended true)
    (.saved addedOne) rfl (next_committed _ _) nofun
  have s₃ := @hsecond onceAdded onceAdded (.saved addedOne) (.updated addedOne) (.ended true) rfl rfl
    nofun
  have s₄ := @hsecond onceAdded onceAdded (.updated addedOne)
    (.referenced addedOne (finalOf onceAdded)) (.ended true) rfl rfl nofun
  have s₅ := @hsecond onceAdded twiceAdded (.referenced addedOne (finalOf onceAdded))
    (.committed addedOne (finalOf onceAdded)) (.ended true) rfl rfl nofun
  have s₆ := @hsecond twiceAdded twiceAdded (.committed addedOne (finalOf onceAdded)) (.ended true)
    (.ended true) rfl (next_committed _ _) nofun
  have hrun := ((((((((((((Relation.ReflTransGen.single a₀).tail a₁).tail f₁).tail s₁).tail f₂).tail
    s₂).tail f₃).tail f₄).tail f₅).tail f₆).tail s₃).tail s₄).tail s₅ |>.tail s₆
  have hended : ∀ r ∈ (sharing twiceAdded [.ended true, .ended true]).procs, r.phase = .ended true := by
    intro r hr
    obtain ⟨p, hp, rfl⟩ := List.mem_map.1 hr
    rcases List.mem_cons.1 hp with rfl | hp
    · rfl
    · exact List.mem_singleton.1 hp
  exact absurd (h _ hrun hended) (by decide +kernel)

end Counters

end PPBase
