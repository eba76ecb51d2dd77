import PPBase.FieldTypes

/-!
# Writing a validated value back

A validator turns a value into what is stored, and what was stored may be sent back. `written_back`
: every field takes what its validator returned as it is, but for json fields. A json field reads a
text as the JSON text that it may be, so it reads a text that it has read again, and takes a null
that it has read for a blank (`Rereads`). `stable_iff` : what a validator returned is returned
again exactly if the value is none of these. `quoted_number_reread` : the text `"5"`, with its
quotes, is stored as the text `5`, and this as the number 5.
-/

namespace PPBase

namespace FieldTypes

open Failing

section

variable {φ : Type} {P : Python φ} {f : FieldDefinition φ}

variable {v w : PyValue φ}

/-- Checks of the text of a value keep the text, or another one that they treat alike. -/
theorem text_again {k : PyText → Except Raised (PyValue φ)}
    (hk : ∀ s w, k s = .ok w → ∃ t, w = .json (.str t) ∧ k t = k s)
    (h : (call (strOrEmpty P v) >>= k) = .ok w) : (call (strOrEmpty P w) >>= k) = .ok w := by
  obtain ⟨s, -, hs⟩ := bind_eq_ok.1 h
  obtain ⟨t, rfl, ht⟩ := hk s w hs
  have hstr : call (strOrEmpty P (.json (.str t))) = .ok t := rfl
  rw [hstr, ok_bind, ht, hs]

/-- A last check before a value is returned. -/
theorem eq_of_bind_ok {α : Type} {x : Except Raised α} {w' : PyValue φ}
    (h : (x >>= fun _ => .ok w') = .ok w) : w = w' := by
  obtain ⟨-, -, h⟩ := bind_eq_ok.1 h
  exact (Except.ok.inj h).symm

theorem validatePlain_again {min max : JsonValue φ} (h : validatePlain P f min max v = .ok w) :
    validatePlain P f min max w = .ok w := by
  refine text_again (fun s w hw => ⟨s, ?_, rfl⟩) h
  split_ifs at hw
  · cases hw
  · exact (Except.ok.inj hw).symm
  · obtain ⟨-, -, hw⟩ := bind_eq_ok.1 hw
    obtain ⟨-, -, hw⟩ := bind_eq_ok.1 hw
    exact eq_of_bind_ok hw

theorem validateEditor_again (h : validateEditor P f v = .ok w) : validateEditor P f w = .ok w := by
  refine text_again (fun s w hw => ⟨s, ?_, rfl⟩) h
  split_ifs at hw
  · cases hw
  · exact (Except.ok.inj hw).symm
  · exact eq_of_bind_ok hw

theorem strip_strip (s : PyText) : strip P (strip P s) = strip P s := by
  have hstrip : ∀ t, strip P t = (t.dropWhile P.isSpace).rdropWhile P.isSpace := fun _ => rfl
  have hhead : ((s.dropWhile P.isSpace).rdropWhile P.isSpace).dropWhile P.isSpace =
      (s.dropWhile P.isSpace).rdropWhile P.isSpace := by
    rw [List.dropWhile_eq_self_iff]
    intro hl
    have hprefix := List.rdropWhile_prefix P.isSpace (s.dropWhile P.isSpace)
    have hlen := lt_of_lt_of_le hl hprefix.length_le
    rw [List.IsPrefix.getElem hprefix hl]
    exact List.dropWhile_eq_self_iff.1 (List.dropWhile_idempotent P.isSpace s) hlen
  rw [hstrip (strip P s), hstrip s, hhead, List.rdropWhile_idempotent]

theorem validateAddress_again {isWellFormed : PyText → Bool} {domain : PyText → PyText}
    {code message domainCode what : String}
    (h : validateAddress P f isWellFormed domain code message domainCode what v = .ok w) :
    validateAddress P f isWellFormed domain code message domainCode what w = .ok w := by
  refine text_again (fun s w hw => ⟨strip P s, ?_, ?_⟩) h
  · dsimp only at hw
    split_ifs at hw
    · cases hw
    · exact (Except.ok.inj hw).symm
    · obtain ⟨-, -, hw⟩ := bind_eq_ok.1 hw
      exact eq_of_bind_ok hw
    · cases hw
  · dsimp only
    rw [strip_strip]

/-! ## Numbers -/

/-- What is returned for a number stands for the same number. -/
theorem numberOf_returned {onlyInt : Bool} {x : φ} {q : ℚ} (hx : P.kind x = .finite q)
    (hwhole : checkWhole P f onlyInt q = .ok ()) :
    ∃ y, numberOf P f (.json (if onlyInt then .int (trunc q) else .float x)) = .ok y ∧
      P.kind y = .finite q ∧ (onlyInt = false → y = x) := by
  cases onlyInt with
  | false => exact ⟨x, rfl, hx, fun _ => rfl⟩
  | true =>
    obtain ⟨y, hy, hkind⟩ := bind_eq_ok.1 hwhole
    rw [call_eq_ok] at hy
    refine ⟨y, ?_, ?_, by rintro ⟨⟩⟩
    · simp [numberOf, isBlank, toFloat, hy]
    · by_contra hne
      rw [if_neg hne] at hkind
      cases hkind

theorem validateNumber_again (h : validateNumber P f v = .ok w) : validateNumber P f w = .ok w := by
  obtain ⟨x, -, hx⟩ := bind_eq_ok.1 h
  cases hkind : P.kind x with
  | nan => simp [hkind, FieldDefinition.raise] at hx
  | inf b => simp [hkind, FieldDefinition.raise] at hx
  | finite q =>
    rw [hkind] at hx
    dsimp only at hx
    by_cases hrequired : f.required = true ∧ q = 0
    · rw [if_pos hrequired] at hx
      cases hx
    rw [if_neg hrequired] at hx
    obtain ⟨⟨⟩, hwhole, hx⟩ := bind_eq_ok.1 hx
    obtain ⟨⟨⟩, hmin, hx⟩ := bind_eq_ok.1 hx
    obtain ⟨⟨⟩, hmax, hx⟩ := bind_eq_ok.1 hx
    obtain rfl := Except.ok.inj hx
    obtain ⟨y, hy, hykind, hsame⟩ := numberOf_returned hkind hwhole
    unfold validateNumber
    rw [hy, ok_bind, hykind]
    dsimp only
    rw [if_neg hrequired, hwhole, ok_bind, hmin, ok_bind, hmax, ok_bind]
    cases honly : truthyJson P (f.option "onlyInt" (.bool false)) with
    | true => rfl
    | false => rw [hsame honly]

theorem validateBool_again (h : validateBool P f v = .ok w) : validateBool P f w = .ok w := by
  unfold validateBool at h
  split_ifs at h with hrequired
  · cases h
  · obtain rfl := Except.ok.inj h
    exact if_neg hrequired

/-! ## Dates -/

theorem validateDate_again (h : validateDate P f v = .ok w) : validateDate P f w = .ok w := by
  obtain ⟨t, -, ht⟩ := bind_eq_ok.1 h
  cases t with
  | none =>
    dsimp only at ht
    split_ifs at ht with hrequired
    · cases ht
    · obtain rfl := Except.ok.inj ht
      exact if_neg hrequired
  | some t =>
    have hw : w = .datetime t := by
      obtain ⟨-, -, ht⟩ := bind_eq_ok.1 ht
      exact eq_of_bind_ok ht
    subst hw
    exact ht

theorem validateAutodate_again (h : validateAutodate P v = .ok w) :
    validateAutodate P w = .ok w := by
  have hw : ∃ s, w = .json (.str s) := by
    unfold validateAutodate at h
    split at h
    · exact ⟨_, (Except.ok.inj h).symm⟩
    · exact ⟨_, (Except.ok.inj h).symm⟩
    · obtain ⟨s, -, h⟩ := bind_eq_ok.1 h
      exact ⟨s, (Except.ok.inj h).symm⟩
  obtain ⟨s, rfl⟩ := hw
  rfl

/-! ## Lists -/

theorem mapM_str (values : List PyText) :
    (values.map fun s => (.str s : JsonValue φ)).mapM (strJson P) = .ok values := by
  rw [mapM_eq_ok_iff, List.forall₂_map_left_iff, List.forall₂_same]
  exact fun _ _ => rfl

theorem nodup_dedupe (s : List PyText) : (dedupe s).Nodup := by
  have h : ∀ (s unique : List PyText), unique.Nodup →
      (s.foldl (fun unique v => if v ∈ unique then unique else unique ++ [v]) unique).Nodup := by
    intro s
    induction s with
    | nil => exact fun _ h => h
    | cons v s ih =>
      intro unique hunique
      rw [List.foldl_cons]
      refine ih _ ?_
      split_ifs with hv
      · exact hunique
      · exact hunique.append (List.nodup_singleton v) (by simpa using hv)
  exact h s [] List.nodup_nil

theorem dedupe_of_nodup {s : List PyText} (h : s.Nodup) : dedupe s = s := by
  have hfold : ∀ (s unique : List PyText), (unique ++ s).Nodup →
      s.foldl (fun unique v => if v ∈ unique then unique else unique ++ [v]) unique =
        unique ++ s := by
    intro s
    induction s with
    | nil => exact fun unique _ => (List.append_nil unique).symm
    | cons v s ih =>
      intro unique hunique
      have hv : v ∉ unique := fun hv =>
        (List.disjoint_of_nodup_append hunique) hv List.mem_cons_self
      rw [List.foldl_cons, if_neg hv, ih _ (by rwa [← List.append_cons]), ← List.append_cons]
  exact hfold s [] h

theorem mem_dedupe {s : List PyText} {v : PyText} (h : v ∈ s) : v ∈ dedupe s := by
  have hfold : ∀ (s unique : List PyText), v ∈ unique ∨ v ∈ s →
      v ∈ s.foldl (fun unique v => if v ∈ unique then unique else unique ++ [v]) unique := by
    intro s
    induction s with
    | nil => exact fun unique h => h.resolve_right List.not_mem_nil
    | cons u s ih =>
      intro unique h
      rw [List.foldl_cons]
      refine ih _ ?_
      rcases h with h | h
      · left
        split_ifs
        · exact h
        · exact List.mem_append_left _ h
      · rcases List.mem_cons.1 h with rfl | h
        · left
          split_ifs with hv
          · exact hv
          · exact List.mem_append_right _ List.mem_cons_self
        · exact Or.inr h
  exact hfold s [] (Or.inr h)

theorem eq_nil_of_dedupe {s : List PyText} (h : dedupe s = []) : s = [] := by
  rw [List.eq_nil_iff_forall_not_mem]
  intro v hv
  have hmem := mem_dedupe hv
  rw [h] at hmem
  cases hmem

theorem validateSelect_again (h : validateSelect P f v = .ok w) : validateSelect P f w = .ok w := by
  unfold validateSelect at h ⊢
  obtain ⟨isMulti, hmulti, h⟩ := bind_eq_ok.1 h
  rw [hmulti, ok_bind]
  cases isMulti with
  | true =>
    obtain ⟨values, -, h⟩ := bind_eq_ok.1 h
    split_ifs at h with hrequired
    · cases h
    have hchecks := h
    obtain ⟨-, -, h⟩ := bind_eq_ok.1 h
    obtain rfl := eq_of_bind_ok h
    have hvalues : call (selectList P (texts (dedupe values))) = .ok (dedupe values) :=
      call_eq_ok.2 (mapM_str (dedupe values))
    have hempty : ¬(f.required = true ∧ dedupe values = []) := fun hboth =>
      hrequired ⟨hboth.1, eq_nil_of_dedupe hboth.2⟩
    rw [if_pos rfl, hvalues, ok_bind, if_neg hempty, dedupe_of_nodup (nodup_dedupe values)]
    exact hchecks
  | false =>
    refine text_again (fun s w hw => ⟨s, ?_, rfl⟩) h
    split_ifs at hw
    · cases hw
    · exact (Except.ok.inj hw).symm
    · exact eq_of_bind_ok hw

/-! ## Names and ids -/

theorem repr_ne_nil {depth : ℕ} {v : JsonValue φ} {s : PyText} (h : repr P depth v = .ok s) :
    s ≠ [] := by
  cases v with
  | null =>
    obtain rfl := Except.ok.inj h
    exact List.cons_ne_nil _ _
  | bool b => cases b <;> (obtain rfl := Except.ok.inj h; exact List.cons_ne_nil _ _)
  | int i =>
    rw [repr, strInt] at h
    split_ifs at h with hdigits
    obtain rfl := Except.ok.inj h
    cases i with
    | ofNat n => exact mt List.map_eq_nil_iff.1 Nat.toDigits_ne_nil
    | negSucc n => exact List.cons_ne_nil _ _
  | float x =>
    obtain rfl := Except.ok.inj h
    exact P.reprFloat_ne_nil x
  | str t =>
    obtain rfl := Except.ok.inj h
    have hlen := P.length_reprStr t
    intro hnil
    rw [hnil, List.length_nil] at hlen
    omega
  | arr xs =>
    rw [repr] at h
    split_ifs at h
    obtain ⟨items, -, h⟩ := bind_eq_ok.1 h
    obtain rfl := Except.ok.inj h
    exact List.cons_ne_nil _ _
  | obj ms =>
    rw [repr] at h
    split_ifs at h
    obtain ⟨members, -, h⟩ := bind_eq_ok.1 h
    obtain rfl := Except.ok.inj h
    exact List.cons_ne_nil _ _

theorem strJson_ne_nil {v : JsonValue φ} (hv : truthyJson P v = true) {s : PyText}
    (h : strJson P v = .ok s) : s ≠ [] := by
  cases v with
  | str t =>
    obtain rfl := Except.ok.inj h
    rintro rfl
    cases hv
  | _ => exact repr_ne_nil h

/-- The texts of a list have no blank among them. -/
theorem textList_ne_nil {values : List PyText} (h : textList P v = .ok values) :
    ∀ s ∈ values, s ≠ [] := by
  have hone : ∀ v : PyValue φ, (if truthy P v then do
        let s ← str P v
        .ok [s]
      else .ok []) = Except.ok values → ∀ s ∈ values, s ≠ [] := by
    intro v hv s hs
    split_ifs at hv with htruthy
    · obtain ⟨t, ht, hv⟩ := bind_eq_ok.1 hv
      obtain rfl := Except.ok.inj hv
      obtain rfl := List.mem_singleton.1 hs
      cases v with
      | json v => exact strJson_ne_nil htruthy ht
      | datetime t =>
        obtain rfl := Except.ok.inj ht
        exact P.reprDateTime_ne_nil t
    · obtain rfl := Except.ok.inj hv
      cases hs
  unfold textList at h
  split at h
  · intro s hs
    obtain ⟨x, hx, hxs⟩ := exists_of_forall₂ (mapM_eq_ok_iff.1 h) hs
    exact strJson_ne_nil (List.mem_filter.1 hx).2 hxs
  · exact hone _ h

/-- A list that was returned is read as it is. -/
theorem textList_texts {values : List PyText} (h : ∀ s ∈ values, s ≠ []) :
    textList P (texts values) = .ok values := by
  have hfilter : (values.map fun s => (.str s : JsonValue φ)).filter (truthyJson P) =
      values.map .str := by
    rw [List.filter_eq_self]
    intro x hx
    obtain ⟨s, hs, rfl⟩ := List.mem_map.1 hx
    show (!s.isEmpty) = true
    simpa using h s hs
  show (List.filter (truthyJson P) (values.map .str)).mapM (strJson P) = _
  rw [hfilter, mapM_str]

theorem validateRelation_again (h : validateRelation P f v = .ok w) :
    validateRelation P f w = .ok w := by
  unfold validateRelation at h ⊢
  obtain ⟨isMulti, hmulti, h⟩ := bind_eq_ok.1 h
  rw [hmulti, ok_bind]
  cases isMulti with
  | true =>
    obtain ⟨values, hvalues, h⟩ := bind_eq_ok.1 h
    have hne := textList_ne_nil (call_eq_ok.1 hvalues)
    by_cases hrequired : f.required = true ∧ values = []
    · rw [if_pos hrequired] at h
      cases h
    rw [if_neg hrequired] at h
    have hchecks := h
    obtain rfl := eq_of_bind_ok h
    rw [if_pos rfl, call_eq_ok.2 (textList_texts hne), ok_bind, if_neg hrequired]
    exact hchecks
  | false =>
    refine text_again (fun s w hw => ⟨s, ?_, rfl⟩) h
    split_ifs at hw
    · cases hw
    · exact (Except.ok.inj hw).symm

theorem validateReferences_eq_ok {values values' : List PyText} :
    validateReferences P f values = .ok values' ↔
      (∀ s ∈ values, isRemote P s = true ∨ isReference s = true) ∧ values' = values := by
  unfold validateReferences
  rw [← all_references_iff]
  split_ifs with h
  · exact ⟨fun heq => ⟨h, (Except.ok.inj heq).symm⟩, fun heq => by rw [heq.2]⟩
  · exact iff_of_false (fun heq => nomatch heq) fun heq => h heq.1

theorem validateFile_again (h : validateFile P f v = .ok w) : validateFile P f w = .ok w := by
  unfold validateFile at h ⊢
  obtain ⟨isMulti, hmulti, h₁⟩ := bind_eq_ok.1 h
  obtain ⟨values, hvalues, h₂⟩ := bind_eq_ok.1 h₁
  obtain ⟨values', hvalues', h₃⟩ := bind_eq_ok.1 h₂
  obtain ⟨hrefs, rfl⟩ := validateReferences_eq_ok.1 hvalues'
  have hne := textList_ne_nil (call_eq_ok.1 hvalues)
  rw [hmulti, ok_bind]
  cases isMulti with
  | true =>
    rw [if_pos rfl] at h₃
    by_cases hrequired : f.required = true ∧ values' = []
    · rw [if_pos hrequired] at h₃
      cases h₃
    rw [if_neg hrequired] at h₃
    have hchecks := h₃
    obtain rfl := eq_of_bind_ok h₃
    rw [call_eq_ok.2 (textList_texts hne), ok_bind, hvalues', ok_bind, if_pos rfl,
      if_neg hrequired]
    exact hchecks
  | false =>
    rw [if_neg Bool.false_ne_true] at h₃
    by_cases hrequired : f.required = true ∧ values'.getLastD [] = []
    · rw [if_pos hrequired] at h₃
      cases h₃
    rw [if_neg hrequired] at h₃
    obtain rfl := Except.ok.inj h₃
    -- the last of the names is read as the only one
    have hlast : textList P (.json (.str (values'.getLastD []))) =
        .ok (if values'.getLastD [] = [] then [] else [values'.getLastD []]) := by
      cases values'.getLastD [] <;> rfl
    have hlastRefs : validateReferences P f
        (if values'.getLastD [] = [] then [] else [values'.getLastD []]) =
          .ok (if values'.getLastD [] = [] then [] else [values'.getLastD []]) := by
      refine validateReferences_eq_ok.2 ⟨fun s hs => ?_, rfl⟩
      split_ifs at hs with hnil
      · cases hs
      · obtain rfl := List.mem_singleton.1 hs
        rcases List.eq_nil_or_concat values' with rfl | ⟨l, s, rfl⟩
        · exact absurd rfl hnil
        · exact hrefs _ (by simp)
    rw [call_eq_ok.2 hlast, ok_bind, hlastRefs, ok_bind, if_neg Bool.false_ne_true]
    have hsame : (if values'.getLastD [] = [] then [] else [values'.getLastD []]).getLastD [] =
        values'.getLastD [] := by
      split_ifs with hnil
      · exact hnil.symm
      · rfl
    rw [hsame, if_neg hrequired]

/-! ## JSON and points -/

theorem validateGeoPoint_again (h : validateGeoPoint P f v = .ok w) :
    validateGeoPoint P f w = .ok w := by
  have hpoint : ∀ lon lat : φ, isWithin 180 (P.kind lon) = true →
      isWithin 90 (P.kind lat) = true →
      ¬(f.required = true ∧ P.kind lon = .finite 0 ∧ P.kind lat = .finite 0) →
      validateGeoPoint P f (geoPoint lon lat) = .ok (geoPoint lon lat) := by
    intro lon lat hlon hlat hzero
    have hlonOk : coordinate P f [(lit "lon", .float lon), (lit "lat", .float lat)] "lon" =
        .ok lon := rfl
    have hlatOk : coordinate P f [(lit "lon", .float lon), (lit "lat", .float lat)] "lat" =
        .ok lat := rfl
    unfold validateGeoPoint geoPoint
    dsimp only
    rw [hlonOk, ok_bind, hlatOk, ok_bind, hlon, hlat, Bool.not_true, if_neg Bool.false_ne_true,
      if_neg Bool.false_ne_true, if_neg hzero]
  unfold validateGeoPoint at h
  split at h
  · split_ifs at h with hrequired
    · cases h
    · obtain rfl := Except.ok.inj h
      refine hpoint _ _ ?_ ?_ fun hzero => hrequired hzero.1
      · rw [P.kind_zero]
        rfl
      · rw [P.kind_zero]
        rfl
  · obtain ⟨lon, -, h⟩ := bind_eq_ok.1 h
    obtain ⟨lat, -, h⟩ := bind_eq_ok.1 h
    split_ifs at h with hlon hlat hzero
    · cases h
    · cases h
    · cases h
    · obtain rfl := Except.ok.inj h
      exact hpoint lon lat (by simpa using hlon) (by simpa using hlat) hzero
  · cases h

/-- A text that a json field reads, or for which it lets an exception escape. -/
def IsRead (P : Python φ) (v : JsonValue φ) : Prop :=
  ∃ t, v = .str t ∧ mayBeJson P (strip P t) = true ∧
    P.loads (strip P t) ≠ .error .valueError ∧ P.loads (strip P t) ≠ .error .typeError

theorem length_strip_le (s : PyText) : (strip P s).length ≤ s.length := by
  unfold strip
  rw [List.length_reverse]
  refine (List.dropWhile_suffix _).length_le.trans ?_
  rw [List.length_reverse]
  exact (List.dropWhile_suffix _).length_le

/-- A text that is read never gives itself : a text in quotes is longer than what it stands for. -/
theorem readJson_self_iff {v : JsonValue φ} : readJson P v = .ok v ↔ ¬IsRead P v := by
  cases v with
  | str s =>
    have hread : IsRead P (.str s) ↔ mayBeJson P (strip P s) = true ∧
        P.loads (strip P s) ≠ .error .valueError ∧ P.loads (strip P s) ≠ .error .typeError := by
      refine ⟨?_, fun h => ⟨s, rfl, h⟩⟩
      rintro ⟨t, ht, h⟩
      obtain rfl := Json.str.inj ht
      exact h
    rw [hread, readJson]
    split_ifs with hmay
    · cases hloads : P.loads (strip P s) with
      | ok u =>
        refine iff_of_false (fun heq => ?_) fun h => h ⟨hmay, by simp, by simp⟩
        obtain rfl := Except.ok.inj heq
        exact absurd (P.length_loads _ _ hloads) (not_lt.2 (length_strip_le s))
      | error e => cases e <;> simp [hmay]
    · simp [hmay]
  | _ => exact iff_of_true rfl fun ⟨t, ht, _⟩ => nomatch ht

theorem readJson_eq_ok {v r : JsonValue φ} (h : readJson P v = .ok r) :
    r = v ∨ ∃ s, v = .str s ∧ mayBeJson P (strip P s) = true ∧ P.loads (strip P s) = .ok r := by
  cases v with
  | str s =>
    rw [readJson] at h
    split_ifs at h with hmay
    · cases hloads : P.loads (strip P s) with
      | ok u =>
        rw [hloads] at h
        exact Or.inr ⟨s, rfl, hmay, hloads.trans h⟩
      | error e =>
        rw [hloads] at h
        cases e <;> first | exact Or.inl (Except.ok.inj h).symm | cases h
    · exact Or.inl (Except.ok.inj h).symm
  | _ => exact Or.inl (Except.ok.inj h).symm

/-- What a json field returns for a value that is not null. -/
theorem validateJson_eq_ok {v : JsonValue φ} (hv : v ≠ .null) :
    validateJson P f (.json v) = .ok w ↔ ∃ r, readJson P v = .ok r ∧
      checkSize P f ((P.dumps r).map fun t => (t.map Char.utf8Size).sum) = .ok () ∧
      w = .json r := by
  rw [validateJson_of_ne_null hv, bind_eq_ok]
  refine exists_congr fun r => and_congr call_eq_ok ?_
  rw [bind_eq_ok]
  exact ⟨fun ⟨_, h, hw⟩ => ⟨h, (Except.ok.inj hw).symm⟩, fun ⟨h, hw⟩ => ⟨(), h, by rw [hw]⟩⟩

/-- The text of a json field is read as a text that is read again, or as a null that the field must
not have. -/
def Rereads (P : Python φ) (f : FieldDefinition φ) (v : JsonValue φ) : Prop :=
  f.type = .json ∧ ∃ s w, v = .str s ∧ mayBeJson P (strip P s) = true ∧
    P.loads (strip P s) = .ok w ∧ (w = .null ∧ f.required = true ∨ IsRead P w)

theorem validateJson_again_iff {v : JsonValue φ} (htype : f.type = .json)
    (h : validateJson P f (.json v) = .ok w) : validateJson P f w = .ok w ↔ ¬Rereads P f v := by
  by_cases hv : v = .null
  · subst hv
    have hw : w = .json .null := by
      rw [validateJson] at h
      split_ifs at h
      · cases h
      · exact (Except.ok.inj h).symm
    rw [hw] at h ⊢
    exact iff_of_true h fun ⟨_, _, _, hstr, _⟩ => nomatch hstr
  obtain ⟨r, hr, hsize, rfl⟩ := (validateJson_eq_ok hv).1 h
  have hreads : Rereads P f v ↔ r = .null ∧ f.required = true ∨ IsRead P r := by
    constructor
    · rintro ⟨-, s, w, rfl, hmay, hloads, hw⟩
      rw [readJson, if_pos hmay, hloads] at hr
      obtain rfl := Except.ok.inj hr
      exact hw
    · intro hagain
      refine ⟨htype, ?_⟩
      rcases readJson_eq_ok hr with rfl | ⟨s, hs, hmay, hloads⟩
      · -- a value that is kept is neither null nor read again
        rcases hagain with ⟨hnull, -⟩ | hread
        · exact absurd hnull hv
        · exact absurd hread (readJson_self_iff.1 hr)
      · exact ⟨s, r, hs, hmay, hloads, hagain⟩
  rw [hreads]
  by_cases hnull : r = .null
  · subst hnull
    have hnot : ¬IsRead P (.null : JsonValue φ) := fun ⟨t, ht, _⟩ => nomatch ht
    rw [validateJson]
    split_ifs with hrequired
    · exact iff_of_false (fun heq => nomatch heq) fun h => h (Or.inl ⟨rfl, hrequired⟩)
    · exact iff_of_true rfl fun h => h.elim (fun h => hrequired h.2) hnot
  · rw [validateJson_eq_ok hnull]
    have hiff : (r = .null ∧ f.required = true ∨ IsRead P r) ↔ IsRead P r :=
      or_iff_right fun h => hnull h.1
    rw [hiff, ← readJson_self_iff]
    constructor
    · rintro ⟨r', hr', -, heq⟩
      rwa [← PyValue.json.inj heq] at hr'
    · exact fun hself => ⟨r, hself, hsize, rfl⟩

/-- What a field that is no json field returned is returned again. -/
theorem written_back (htype : f.type ≠ .json) (h : validateFieldValue P f v = .ok w) :
    validateFieldValue P f w = .ok w := by
  unfold validateFieldValue at h ⊢
  cases hf : f.type <;> rw [hf] at h
  case text => exact validatePlain_again h
  case editor => exact validateEditor_again h
  case number => exact validateNumber_again h
  case bool => exact validateBool_again h
  case email => exact validateAddress_again h
  case url => exact validateAddress_again h
  case date => exact validateDate_again h
  case autodate => exact validateAutodate_again h
  case select => exact validateSelect_again h
  case file => exact validateFile_again h
  case relation => exact validateRelation_again h
  case json => exact absurd hf htype
  case password => exact validatePlain_again h
  case geoPoint => exact validateGeoPoint_again h

/-- What a field returned for a value is returned again, exactly if the value is no text of a json
field that is read anew. -/
theorem stable_iff (P : Python φ) (f : FieldDefinition φ) {v : JsonValue φ}
    (h : validateFieldValue P f (.json v) = .ok w) :
    validateFieldValue P f w = .ok w ↔ ¬Rereads P f v := by
  by_cases htype : f.type = .json
  · have hjson : ∀ v, validateFieldValue P f v = validateJson P f v := by
      intro v
      rw [validateFieldValue, htype]
    rw [hjson] at h ⊢
    exact validateJson_again_iff htype h
  · exact iff_of_true (written_back htype h) fun hreads => htype hreads.1

end

/-! ## A number in quotes -/

def documentField : FieldDefinition PlainFloat where
  name := lit "document"
  type := .json

/-- A number that is stored as one is written back as it is. -/
theorem number_stable :
    validateFieldValue .plain documentField (.json (.str (lit "5"))) = .ok (.json (.int 5)) ∧
      (validateFieldValue .plain documentField (.json (.int 5)) = .ok (.json (.int 5)) ↔
        ¬Rereads .plain documentField (.str (lit "5"))) :=
  ⟨rfl, stable_iff .plain documentField rfl⟩

/-- The text `"5"`, with its quotes, is stored as the text `5`, and this as the number 5. -/
theorem quoted_number_reread : ¬∀ w,
    validateFieldValue .plain documentField (.json (.str (lit "\"5\""))) = .ok w →
      validateFieldValue .plain documentField w = .ok w := by
  intro h
  have hfirst : validateFieldValue .plain documentField (.json (.str (lit "\"5\""))) =
      .ok (.json (.str (lit "5"))) := rfl
  have hsecond : validateFieldValue .plain documentField (.json (.str (lit "5"))) =
      .ok (.json (.int 5)) := rfl
  have hsame := (hsecond.symm.trans (h _ hfirst))
  cases PyValue.json.inj (Except.ok.inj hsame)

end FieldTypes

end PPBase
