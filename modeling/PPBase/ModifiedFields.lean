import PPBase.FieldContract
import PPBase.FieldStability
import PPBase.RecordStore

/-!
# Modifiers on fields with one value

`_apply_append`, `_apply_prepend` and `_apply_remove` combine the stored value with those of a
modifier, over the values that the validators take. They give a list for every field that is no
number field (`applyModifier_eq_ok`), and the validation of a text, select or relation field with
one value takes the text of the list. `modified_scalar_iff` : what is stored is blank or what the
field stores for a scalar of the list, exactly if the lists are `Harmless` : the text of the list
is refused, or the last name of a file field is that of a scalar. `appended_text_rendered` : a text
appended to a text is stored as `['a', 'b']`.
-/

namespace PPBase

namespace FieldTypes

open Failing RecordStore

section

variable {φ : Type} (P : Python φ) (f : FieldDefinition φ)

/-- `_coerce_modifier_values` -/
def coerceModifierValues : JsonValue φ → List (JsonValue φ)
  | .arr xs => xs
  | .null | .str [] => []
  | v => [v]

/-- The values of a modifier. -/
def modifierValues : JsonValue φ → List (JsonValue φ)
  | .arr xs => xs
  | .null => []
  | v => [v]

/-- `float(v) if v is not None else 0.0` -/
def floatOrZero : JsonValue φ → Except PyError φ
  | .null => .ok P.zero
  | v => toFloat P v

/-- The number that a modifier makes. -/
def combineNumbers (op : φ → φ → φ) (current new : JsonValue φ) :
    Except PyError (JsonValue φ) := do
  let cur ← floatOrZero P current
  let step ← floatOrZero P new
  .ok (.float (op cur step))

/-- `_apply_append` -/
def applyAppend (current new : JsonValue φ) : Except PyError (JsonValue φ) :=
  if f.type = .number then combineNumbers P P.add current new
  else .ok (.arr (coerceModifierValues current ++ modifierValues new))

/-- `_apply_prepend` -/
def applyPrepend (current new : JsonValue φ) : Except PyError (JsonValue φ) :=
  if f.type = .number then combineNumbers P P.add current new
  else .ok (.arr (modifierValues new ++ coerceModifierValues current))

/-- `[v for v in values if str(v) not in removed]` -/
def without (removed : List PyText) : List (JsonValue φ) → Except PyError (List (JsonValue φ))
  | [] => .ok []
  | v :: values => do
    let s ← strJson P v
    let kept ← without removed values
    .ok (if s ∈ removed then kept else v :: kept)

/-- `_apply_remove` -/
def applyRemove (current new : JsonValue φ) : Except PyError (JsonValue φ) :=
  if f.type = .number then combineNumbers P P.sub current new
  else do
    let removed ← (modifierValues new).mapM (strJson P)
    let kept ← without P removed (coerceModifierValues current)
    .ok (.arr kept)

/-- The helper of a modifier. -/
def applyModifier (m : KeyModifier) : JsonValue φ → JsonValue φ → Except PyError (JsonValue φ) :=
  match m with
  | .append => applyAppend P f
  | .prepend => applyPrepend P f
  | .remove => applyRemove P f

end

section

variable {φ : Type} {P : Python φ} {f : FieldDefinition φ}

/-! ## Lists of values -/

/-- The values with which a modifier leaves a field. -/
def Combined (P : Python φ) (m : KeyModifier) (current new : JsonValue φ)
    (items : List (JsonValue φ)) : Prop :=
  match m with
  | .append => items = coerceModifierValues current ++ modifierValues new
  | .prepend => items = modifierValues new ++ coerceModifierValues current
  | .remove => ∃ removed shown, (modifierValues new).mapM (strJson P) = .ok removed ∧
      (coerceModifierValues current).mapM (strJson P) = .ok shown ∧
      items = (((coerceModifierValues current).zip shown).filter (·.2 ∉ removed)).map Prod.fst

theorem without_eq_ok {removed : List PyText} {values kept : List (JsonValue φ)} :
    without P removed values = .ok kept ↔ ∃ shown, values.mapM (strJson P) = .ok shown ∧
      kept = ((values.zip shown).filter (·.2 ∉ removed)).map Prod.fst := by
  induction values generalizing kept with
  | nil =>
    constructor
    · exact fun h => ⟨[], rfl, (Except.ok.inj h).symm⟩
    · rintro ⟨shown, -, rfl⟩
      rfl
  | cons v values ih =>
    rw [without, bind_eq_ok]
    constructor
    · rintro ⟨s, hs, h⟩
      obtain ⟨rest, hrest, h⟩ := bind_eq_ok.1 h
      obtain ⟨shown, hshown, rfl⟩ := ih.1 hrest
      obtain rfl := Except.ok.inj h
      refine ⟨s :: shown, ?_, ?_⟩
      · exact mapM_eq_ok_iff.2 (.cons hs (mapM_eq_ok_iff.1 hshown))
      · by_cases hmem : s ∈ removed <;> simp [hmem]
    · rintro ⟨shown, hshown, rfl⟩
      obtain ⟨s, shown, hs, hrest, rfl⟩ := List.forall₂_cons_left_iff.1 (mapM_eq_ok_iff.1 hshown)
      refine ⟨s, hs, bind_eq_ok.2 ⟨_, ih.2 ⟨shown, mapM_eq_ok_iff.2 hrest, rfl⟩, ?_⟩⟩
      by_cases hmem : s ∈ removed <;> simp [hmem]

/-- A modifier of a field that is no number field gives the combined list. -/
theorem applyModifier_eq_ok (hf : f.type ≠ .number) {m : KeyModifier}
    {current new v : JsonValue φ} : applyModifier P f m current new = .ok v ↔
      ∃ items, Combined P m current new items ∧ v = .arr items := by
  cases m with
  | append =>
    show applyAppend P f current new = _ ↔ _
    rw [applyAppend, if_neg hf]
    exact ⟨fun h => ⟨_, rfl, (Except.ok.inj h).symm⟩, fun ⟨_, hitems, h⟩ => by rw [h, hitems]⟩
  | prepend =>
    show applyPrepend P f current new = _ ↔ _
    rw [applyPrepend, if_neg hf]
    exact ⟨fun h => ⟨_, rfl, (Except.ok.inj h).symm⟩, fun ⟨_, hitems, h⟩ => by rw [h, hitems]⟩
  | remove =>
    show applyRemove P f current new = _ ↔ _
    rw [applyRemove, if_neg hf, bind_eq_ok]
    constructor
    · rintro ⟨removed, hremoved, h⟩
      obtain ⟨kept, hkept, h⟩ := bind_eq_ok.1 h
      obtain ⟨shown, hshown, heq⟩ := without_eq_ok.1 hkept
      exact ⟨kept, ⟨removed, shown, hremoved, hshown, heq⟩, (Except.ok.inj h).symm⟩
    · rintro ⟨items, ⟨removed, shown, hremoved, hshown, heq⟩, rfl⟩
      exact ⟨removed, hremoved, bind_eq_ok.2 ⟨items, without_eq_ok.2 ⟨shown, hshown, heq⟩, rfl⟩⟩

/-! ## The text of a list is longer than those of its scalars -/

/-- Neither a list nor an object. -/
def IsScalar : JsonValue φ → Prop
  | .arr _ | .obj _ => False
  | _ => True

theorem length_le_intercalate (sep : PyText) {s : PyText} : ∀ {l : List PyText}, s ∈ l →
    s.length ≤ (sep.intercalate l).length
  | [t], h => by
    obtain rfl := List.mem_singleton.1 h
    simp [List.intercalate]
  | t :: u :: l, h => by
    have hcons : sep.intercalate (t :: u :: l) = t ++ sep ++ sep.intercalate (u :: l) := by
      simp [List.intercalate]
    rw [hcons, List.length_append, List.length_append]
    rcases List.mem_cons.1 h with rfl | h
    · omega
    · have := length_le_intercalate sep h
      omega

theorem repr_of_mem {depth : ℕ} : ∀ {xs : List (JsonValue φ)} {items : List PyText},
    reprItems P depth xs = .ok items → ∀ x ∈ xs, ∃ s ∈ items, repr P depth x = .ok s
  | [], _, _, _, hx => nomatch hx
  | y :: ys, items, h, x, hx => by
    rw [reprItems] at h
    obtain ⟨s, hs, h⟩ := bind_eq_ok.1 h
    obtain ⟨rest, hrest, h⟩ := bind_eq_ok.1 h
    obtain rfl := Except.ok.inj h
    rcases List.mem_cons.1 hx with rfl | hx
    · exact ⟨s, List.mem_cons_self, hs⟩
    · obtain ⟨t, ht, hxt⟩ := repr_of_mem hrest x hx
      exact ⟨t, List.mem_cons_of_mem s ht, hxt⟩

variable {s : PyText} {items : List (JsonValue φ)} {w : PyValue φ}

/-- A scalar is shown in a list with all of its text. -/
theorem length_str_le {depth : ℕ} {x : JsonValue φ} (hscalar : IsScalar x) {t : PyText}
    (hs : strOrEmpty P (.json x) = .ok s) (ht : repr P depth x = .ok t) : s.length ≤ t.length := by
  have hsame : repr P P.recursionLimit x = .ok s → repr P P.recursionLimit x = .ok t →
      s.length ≤ t.length := by
    intro hs ht
    rw [Except.ok.inj (hs.symm.trans ht)]
  cases x with
  | null =>
    obtain rfl := Except.ok.inj hs
    exact Nat.zero_le _
  | bool b => cases b <;> exact hsame hs ht
  | int i => exact hsame hs (by rwa [repr] at ht ⊢)
  | float y => exact hsame hs (by rwa [repr] at ht ⊢)
  | str u =>
    obtain rfl := Except.ok.inj hs
    rw [repr] at ht
    obtain rfl := Except.ok.inj ht
    have := P.length_reprStr u
    omega
  | arr xs => exact hscalar.elim
  | obj ms => exact hscalar.elim

theorem length_str_lt {x : JsonValue φ} (hx : x ∈ items) (hscalar : IsScalar x) {t : PyText}
    (hs : strOrEmpty P (.json x) = .ok s) (ht : strJson P (.arr items) = .ok t) :
    s.length < t.length := by
  rw [strJson, repr] at ht
  · split_ifs at ht
    obtain ⟨texts, htexts, ht⟩ := bind_eq_ok.1 ht
    obtain rfl := Except.ok.inj ht
    obtain ⟨u, hu, hxu⟩ := repr_of_mem htexts x hx
    have hle := (length_str_le hscalar hs hxu).trans (length_le_intercalate (lit ", ") hu)
    rw [List.length_append, List.length_append]
    have hopen : (lit "[").length = 1 := rfl
    omega
  · rintro _ ⟨⟩

/-! ## Fields with one value -/

/-- A text field, or a select, relation or file field that takes one value. -/
def SingleValued (P : Python φ) (f : FieldDefinition φ) : Prop :=
  f.type = .text ∨ (f.type = .select ∨ f.type = .relation ∨ f.type = .file) ∧
    isMoreThan P (maxSelect P f) 1 = .ok false

/-- A value by itself, or the values of a list. -/
def members : JsonValue φ → List (JsonValue φ)
  | .arr xs => xs
  | v => [v]

/-- What is stored for a value is blank, or what is stored for one of its scalars. -/
def Fits (P : Python φ) (f : FieldDefinition φ) (v : JsonValue φ) (w : PyValue φ) : Prop :=
  w = .json (.str []) ∨
    ∃ x ∈ members v, IsScalar x ∧ validateFieldValue P f (.json x) = .ok w

/-- A text that is not blank passes the checks of a text, select or relation field. -/
def TextPasses (P : Python φ) (f : FieldDefinition φ) (s : PyText) : Prop :=
  match f.type with
  | .text =>
    BoundPasses P (f.option "min") (fun n => decide ((s.length : ℤ) < n)) ∧
      BoundPasses P (f.option "max") (fun n => decide (n < (s.length : ℤ))) ∧ PatternPasses P f s
  | .select => AllowedPasses P f s
  | _ => True

/-- The names of a file field are references. -/
def AreReferences (P : Python φ) (values : List PyText) : Prop :=
  ∀ s ∈ values, isRemote P s = true ∨ isReference s = true

/-- The text of the list is refused. For a file field, the last name is that of a scalar. -/
def Harmless (P : Python φ) (f : FieldDefinition φ) (items : List (JsonValue φ)) : Prop :=
  if f.type = .file then
    ∀ values, textList P (.json (.arr items)) = .ok values → AreReferences P values →
      ∀ s ∈ values.getLast?, ∃ x ∈ items, IsScalar x ∧ truthyJson P x = true ∧
        strJson P x = .ok s
  else ∀ s, strJson P (.arr items) = .ok s → ¬TextPasses P f s

/-- A validator of the text of a value. -/
theorem text_eq_ok {k : PyText → Except Raised (PyValue φ)} {Passes : PyText → Prop}
    (hk : ∀ s w, k s = .ok w ↔ w = .json (.str s) ∧ (s = [] ∧ f.required = false ∨ s ≠ [] ∧ Passes s))
    {v : PyValue φ} :
    (call (strOrEmpty P v) >>= k) = .ok w ↔ ∃ s, strOrEmpty P v = .ok s ∧ w = .json (.str s) ∧
      (s = [] ∧ f.required = false ∨ s ≠ [] ∧ Passes s) := by
  rw [bind_eq_ok]
  exact exists_congr fun s => and_congr call_eq_ok (hk s w)

/-- A blank text, or one that is checked. -/
theorem unless_blank_eq_ok {x : Except Raised (PyValue φ)} {Passes : PyText → Prop}
    (hx : x = .ok w ↔ w = .json (.str s) ∧ Passes s) :
    (if s = [] then if f.required then f.raiseRequired else .ok (.json (.str s)) else x) = .ok w ↔
      w = .json (.str s) ∧ (s = [] ∧ f.required = false ∨ s ≠ [] ∧ Passes s) := by
  by_cases hs : s = []
  · rw [if_pos hs]
    cases hrequired : f.required with
    | true =>
      rw [if_pos rfl]
      refine iff_of_false (fun h => nomatch h) ?_
      rintro ⟨-, ⟨-, h⟩ | ⟨h, -⟩⟩
      · cases h
      · exact h hs
    | false =>
      rw [if_neg Bool.false_ne_true]
      constructor
      · exact fun h => ⟨(Except.ok.inj h).symm, Or.inl ⟨hs, rfl⟩⟩
      · exact fun h => by rw [h.1]
  · rw [if_neg hs, hx]
    exact and_congr_right fun _ =>
      ⟨fun h => Or.inr ⟨hs, h⟩, fun h => (h.resolve_left fun h => hs h.1).2⟩

/-- A check and what comes after it. -/
theorem then_eq_ok {x : Except Raised Unit} {y : Except Raised (PyValue φ)} :
    (x >>= fun _ => y) = .ok w ↔ x = .ok () ∧ y = .ok w := by
  rw [bind_eq_ok]
  exact ⟨fun ⟨_, hx, hy⟩ => ⟨hx, hy⟩, fun ⟨hx, hy⟩ => ⟨(), hx, hy⟩⟩

theorem returned_iff {w' : PyValue φ} :
    (Except.ok w' : Except Raised (PyValue φ)) = .ok w ↔ w = w' :=
  ⟨fun h => (Except.ok.inj h).symm, fun h => by rw [h]⟩

/-- A text, select or relation field stores the text of a value. -/
theorem validate_text_eq_ok (hf : SingleValued P f) (hfile : f.type ≠ .file) {v : PyValue φ} :
    validateFieldValue P f v = .ok w ↔ ∃ s, strOrEmpty P v = .ok s ∧ w = .json (.str s) ∧
      (s = [] ∧ f.required = false ∨ s ≠ [] ∧ TextPasses P f s) := by
  rcases hf with htype | ⟨htype | htype | htype, hsingle⟩
  · have hpasses : ∀ s, TextPasses P f s ↔
        BoundPasses P (f.option "min") (fun n => decide ((s.length : ℤ) < n)) ∧
          BoundPasses P (f.option "max") (fun n => decide (n < (s.length : ℤ))) ∧
            PatternPasses P f s := by
      intro s
      rw [TextPasses, htype]
    rw [validateFieldValue, htype]
    refine text_eq_ok fun s w => unless_blank_eq_ok ?_
    rw [hpasses, then_eq_ok, checkBound_eq_ok, then_eq_ok, checkBound_eq_ok, then_eq_ok,
      checkPattern_eq_ok, returned_iff, ← and_assoc, ← and_assoc, and_comm, and_assoc]
  · have hpasses : ∀ s, TextPasses P f s ↔ AllowedPasses P f s := by
      intro s
      rw [TextPasses, htype]
    have hcall : call (isMoreThan P (maxSelect P f) 1) = .ok false := call_eq_ok.2 hsingle
    rw [validateFieldValue, htype]
    show validateSelect P f v = .ok w ↔ _
    rw [validateSelect, hcall, ok_bind, if_neg Bool.false_ne_true]
    refine text_eq_ok fun s w => unless_blank_eq_ok ?_
    rw [then_eq_ok, checkAllowed_eq_ok, returned_iff, hpasses, and_comm]
  · have hpasses : ∀ s, TextPasses P f s := by
      intro s
      rw [TextPasses, htype]
      trivial
    have hcall : call (isMoreThan P (maxSelect P f) 1) = .ok false := call_eq_ok.2 hsingle
    rw [validateFieldValue, htype]
    show validateRelation P f v = .ok w ↔ _
    rw [validateRelation, hcall, ok_bind, if_neg Bool.false_ne_true]
    refine text_eq_ok fun s w => ?_
    rw [and_iff_left (hpasses s)]
    split_ifs with hblank
    · refine iff_of_false (by rintro ⟨⟩) ?_
      rintro ⟨-, ⟨-, h⟩ | h⟩
      · rw [hblank.1] at h
        cases h
      · exact h hblank.2
    · rw [returned_iff]
      refine (and_iff_left ?_).symm
      by_cases hs : s = []
      · exact Or.inl ⟨hs, Bool.eq_false_iff.2 fun h => hblank ⟨h, hs⟩⟩
      · exact Or.inr hs
  · exact absurd htype hfile

/-- A file field with one value stores the last name. -/
theorem validate_file_eq_ok (hf : f.type = .file)
    (hsingle : isMoreThan P (maxSelect P f) 1 = .ok false) {v : PyValue φ} :
    validateFieldValue P f v = .ok w ↔ ∃ values, textList P v = .ok values ∧
      AreReferences P values ∧ ¬(f.required = true ∧ values.getLastD [] = []) ∧
      w = .json (.str (values.getLastD [])) := by
  have hcall : call (isMoreThan P (maxSelect P f) 1) = .ok false := call_eq_ok.2 hsingle
  rw [validateFieldValue, hf]
  show validateFile P f v = .ok w ↔ _
  rw [validateFile, hcall, ok_bind, bind_eq_ok]
  refine exists_congr fun values => and_congr call_eq_ok ?_
  rw [validateReferences]
  by_cases h : (values.all fun s => isRemote P s || isReference s) = true
  · have hrefs : AreReferences P values := all_references_iff.1 h
    rw [if_pos h, ok_bind, if_neg Bool.false_ne_true, and_iff_right hrefs]
    by_cases hrequired : f.required = true ∧ values.getLastD [] = []
    · rw [if_pos hrequired]
      exact iff_of_false (by rintro ⟨⟩) fun h => h.1 hrequired
    · rw [if_neg hrequired, returned_iff, and_iff_right hrequired]
  · rw [if_neg h]
    exact iff_of_false (by rintro ⟨⟩) fun h' => h (all_references_iff.2 h'.1)

/-- The names of a scalar : its text, unless it is blank. -/
theorem textList_scalar {x : JsonValue φ} (hx : IsScalar x) {values : List PyText} :
    textList P (.json x) = .ok values ↔ truthyJson P x = true ∧
      (∃ s, strJson P x = .ok s ∧ values = [s]) ∨ truthyJson P x = false ∧ values = [] := by
  have hdef : textList P (.json x) = if truthyJson P x then (strJson P x >>= fun s => .ok [s])
      else .ok [] := by
    cases x with
    | arr xs => exact hx.elim
    | _ => rfl
  rw [hdef]
  cases truthyJson P x with
  | true =>
    rw [if_pos rfl, or_iff_left fun h => Bool.noConfusion h.1]
    refine (bind_eq_ok.trans ?_).trans (and_iff_right rfl).symm
    refine exists_congr fun s => and_congr_right fun _ => ?_
    exact ⟨fun h => (Except.ok.inj h).symm, fun h => by rw [h]⟩
  | false =>
    rw [if_neg Bool.false_ne_true, or_iff_right (fun h => Bool.noConfusion h.1), and_iff_right rfl]
    exact ⟨fun h => (Except.ok.inj h).symm, fun h => by rw [h]⟩

theorem strJson_arr_ne_nil (h : strJson P (.arr items) = .ok s) : s ≠ [] :=
  repr_ne_nil (P := P) (v := .arr items) h

theorem getLastD_of_mem {values : List PyText} (h : s ∈ values.getLast?) :
    values.getLastD [] = s ∧ s ∈ values := by
  rcases List.eq_nil_or_concat values with rfl | ⟨l, t, rfl⟩
  · cases h
  · have hst : t = s := by simpa using h
    simp [hst]

/-- A file field stores the name of a scalar, if it does so for the last of a list. -/
theorem fits_file_iff (hf : f.type = .file) (hsingle : isMoreThan P (maxSelect P f) 1 = .ok false) :
    (∀ w, validateFieldValue P f (.json (.arr items)) = .ok w → Fits P f (.arr items) w) ↔
      Harmless P f items := by
  rw [Harmless, if_pos hf]
  constructor
  · intro h values hvalues hrefs s hs
    obtain ⟨hlast, hmem⟩ := getLastD_of_mem hs
    have hne : s ≠ [] := textList_ne_nil hvalues s hmem
    have hw : validateFieldValue P f (.json (.arr items)) = .ok (.json (.str s)) := by
      refine (validate_file_eq_ok hf hsingle).2 ⟨values, hvalues, hrefs, ?_, by rw [hlast]⟩
      rw [hlast]
      exact fun h => hne h.2
    rcases h _ hw with hblank | ⟨x, hx, hscalar, hxw⟩
    · exact absurd (Json.str.inj (PyValue.json.inj hblank)) hne
    · refine ⟨x, hx, hscalar, ?_⟩
      obtain ⟨names, hnames, -, -, heq⟩ := (validate_file_eq_ok hf hsingle).1 hxw
      have hsame := Json.str.inj (PyValue.json.inj heq)
      rcases (textList_scalar hscalar).1 hnames with ⟨htruthy, t, ht, rfl⟩ | ⟨-, rfl⟩
      · obtain rfl : s = t := hsame
        exact ⟨htruthy, ht⟩
      · exact absurd hsame hne
  · intro h w hw
    obtain ⟨values, hvalues, hrefs, hrequired, rfl⟩ := (validate_file_eq_ok hf hsingle).1 hw
    cases hlast : values.getLast? with
    | none =>
      rw [List.getLast?_eq_none_iff] at hlast
      rw [hlast]
      exact Or.inl rfl
    | some s =>
      obtain ⟨hD, hmem⟩ := getLastD_of_mem (Option.mem_def.2 hlast)
      obtain ⟨x, hx, hscalar, htruthy, hxs⟩ := h values hvalues hrefs s hlast
      refine Or.inr ⟨x, hx, hscalar, (validate_file_eq_ok hf hsingle).2 ⟨[s], ?_, ?_, ?_, ?_⟩⟩
      · exact (textList_scalar hscalar).2 (Or.inl ⟨htruthy, s, hxs, rfl⟩)
      · intro t ht
        obtain rfl := List.mem_singleton.1 ht
        exact hrefs t hmem
      · rwa [hD] at hrequired
      · rw [hD]
        rfl

/-- The text of a list is that of none of its scalars, so a field that stores it is harmed. -/
theorem fits_text_iff (hf : SingleValued P f) (hfile : f.type ≠ .file) :
    (∀ w, validateFieldValue P f (.json (.arr items)) = .ok w → Fits P f (.arr items) w) ↔
      Harmless P f items := by
  rw [Harmless, if_neg hfile]
  constructor
  · intro h s hs hpasses
    have hne : s ≠ [] := strJson_arr_ne_nil hs
    have hw : validateFieldValue P f (.json (.arr items)) = .ok (.json (.str s)) :=
      (validate_text_eq_ok hf hfile).2 ⟨s, hs, rfl, Or.inr ⟨hne, hpasses⟩⟩
    rcases h _ hw with hblank | ⟨x, hx, hscalar, hxw⟩
    · exact hne (Json.str.inj (PyValue.json.inj hblank))
    · obtain ⟨t, ht, heq, -⟩ := (validate_text_eq_ok hf hfile).1 hxw
      obtain rfl : s = t := Json.str.inj (PyValue.json.inj heq)
      exact lt_irrefl _ (length_str_lt hx hscalar ht hs)
  · intro h w hw
    obtain ⟨s, hs, -, hchecks⟩ := (validate_text_eq_ok hf hfile).1 hw
    rcases hchecks with ⟨hnil, -⟩ | ⟨-, hpasses⟩
    · exact absurd hnil (strJson_arr_ne_nil hs)
    · exact absurd hpasses (h s hs)

/-- What a modifier and the validation make of a field with one value is blank or what the field
stores for a scalar, exactly if the lists of the modifier are harmless. -/
theorem modified_scalar_iff (hf : SingleValued P f) (m : KeyModifier)
    (current new : JsonValue φ) :
    (∀ v w, applyModifier P f m current new = .ok v → validateFieldValue P f (.json v) = .ok w →
      Fits P f v w) ↔
    ∀ items, Combined P m current new items → Harmless P f items := by
  have hnumber : f.type ≠ .number := by
    rcases hf with h | ⟨h | h | h, -⟩ <;> simp [h]
  have hfits : ∀ items, (∀ w, validateFieldValue P f (.json (.arr items)) = .ok w →
      Fits P f (.arr items) w) ↔ Harmless P f items := by
    intro items
    by_cases hfile : f.type = .file
    · rcases hf with h | ⟨-, hsingle⟩
      · rw [hfile] at h
        cases h
      · exact fits_file_iff hfile hsingle
    · exact fits_text_iff hf hfile
  constructor
  · intro h items hitems
    exact (hfits items).1 fun w hw =>
      h _ w ((applyModifier_eq_ok hnumber).2 ⟨items, hitems, rfl⟩) hw
  · intro h v w hv hw
    obtain ⟨items, hitems, rfl⟩ := (applyModifier_eq_ok hnumber).1 hv
    exact (hfits items).2 (h items hitems) w hw

end

/-! ## A text appended to a text -/

def titleField : FieldDefinition PlainFloat where
  name := lit "title"
  type := .text

def shortTitleField : FieldDefinition PlainFloat where
  name := lit "title"
  type := .text
  options := [(lit "max", .int 3)]

/-- A text that is appended to another one is stored with brackets and quotes. -/
theorem appended_text_rendered : ¬∀ v w,
    applyModifier .plain titleField .append (.str (lit "a")) (.str (lit "b")) = .ok v →
      validateFieldValue .plain titleField (.json v) = .ok w → Fits .plain titleField v w := by
  intro h
  have hv : applyModifier .plain titleField .append (.str (lit "a")) (.str (lit "b")) =
      .ok (.arr [.str (lit "a"), .str (lit "b")]) := rfl
  have hw : validateFieldValue .plain titleField (.json (.arr [.str (lit "a"), .str (lit "b")])) =
      .ok (.json (.str (lit "['a', 'b']"))) := rfl
  rcases h _ _ hv hw with hblank | ⟨x, hx, -, hxw⟩
  · cases Json.str.inj (PyValue.json.inj hblank)
  · rcases List.mem_cons.1 hx with rfl | hx
    · cases Json.str.inj (PyValue.json.inj (Except.ok.inj hxw))
    · obtain rfl := List.mem_singleton.1 hx
      cases Json.str.inj (PyValue.json.inj (Except.ok.inj hxw))

/-- Where brackets and quotes make the text too long, nothing is stored. -/
theorem short_title_kept :
    Combined .plain .append (.str (lit "a")) (.str (lit "b")) [.str (lit "a"), .str (lit "b")] ∧
    ∀ v w, applyModifier .plain shortTitleField .append (.str (lit "a")) (.str (lit "b")) = .ok v →
      validateFieldValue .plain shortTitleField (.json v) = .ok w →
        Fits .plain shortTitleField v w := by
  refine ⟨rfl, ?_⟩
  refine (modified_scalar_iff (Or.inl rfl) .append (.str (lit "a")) (.str (lit "b"))).2 ?_
  rintro items rfl
  rw [Harmless, if_neg (by decide)]
  intro s hs
  obtain rfl := Except.ok.inj hs
  rintro ⟨-, hmax | ⟨n, hn, hfails⟩, -⟩
  · cases hmax
  · obtain rfl := Except.ok.inj hn
    cases hfails

end FieldTypes

end PPBase
