import Mathlib.Algebra.Group.Int.Defs
import Mathlib.Data.Char
import Mathlib.Data.List.Lex
import PPBase.CopyFormat
import PPBase.JsonKeys
import PPBase.JsonRoundTrip

/-!
# Canonical JSON

The encoding of manifests and schemas. `normalizeJson` brings strings and keys to NFC and refuses
fractional numbers, integers of more than 64 bits, strings without a UTF-8 form and keys that fall
together; `canonicalJsonBytes` writes what it gives with sorted keys, and `parseCanonicalJson` reads
bytes and refuses those which are not the encoding of what they say.

NFC is a parameter of which only idempotence is asked.
-/

namespace PPBase

namespace Backup

/-- The errors of canonical JSON, most with the path of the value. -/
inductive BackupManifestError
  | integerRange (path : Text)
  | floatForbidden (path : Text)
  | invalidString (path : Text)
  | invalidKey (path : Text)
  | duplicateNormalizedKey (path : Text)
  | floatNumber (value : Text)
  | nonFiniteNumber (value : Text)
  | integerOutside
  | duplicateKey (key : PyText)
  | notUtf8
  | notJson
  | notCanonical

def BackupManifestError.message : BackupManifestError → PyText
  | integerRange path => .ofText (("integer is outside signed 64-bit range at " : Text) ++ path)
  | floatForbidden path => .ofText (("floating-point value is forbidden at " : Text) ++ path)
  | invalidString path => .ofText (("invalid UTF-8 string at " : Text) ++ path)
  | invalidKey path => .ofText (("invalid UTF-8 object key at " : Text) ++ path)
  | duplicateNormalizedKey path =>
    .ofText (("duplicate object key after NFC normalization at " : Text) ++ path)
  | floatNumber value =>
    .ofText (("floating-point JSON number is forbidden: " : Text) ++ value)
  | nonFiniteNumber value => .ofText (("non-finite JSON number is forbidden: " : Text) ++ value)
  | integerOutside => .ofText "JSON integer is outside signed 64-bit range"
  | duplicateKey key => .ofText "duplicate JSON object key: " ++ key
  | notUtf8 => .ofText "manifest is not valid UTF-8"
  | notJson => .ofText "manifest is not valid JSON"
  | notCanonical => .ofText "manifest JSON is not in canonical form"

/-- `_JSON_INTEGER_MIN` -/
def jsonIntegerMin : ℤ := -2 ^ 63

/-- `_JSON_INTEGER_MAX` -/
def jsonIntegerMax : ℤ := 2 ^ 63 - 1

/-- A value whose strings are texts in memory order of members. -/
abbrev JsonValue := Json Text Empty

section Normalize

variable {φ : Type} (nfc : PyText → PyText)

mutual

/-- `_normalize_json` -/
def normalizeJson : Text → Json PyText φ → Except BackupManifestError JsonValue
  | _, .null => .ok .null
  | _, .bool b => .ok (.bool b)
  | path, .int i =>
    if jsonIntegerMin ≤ i ∧ i ≤ jsonIntegerMax then .ok (.int i) else .error (.integerRange path)
  | path, .float _ => .error (.floatForbidden path)
  | path, .str s =>
    match (nfc s).toText? with
    | some t => .ok (.str t)
    | none => .error (.invalidString path)
  | path, .arr xs =>
    match normalizeItems path 0 xs with
    | .ok ys => .ok (.arr ys)
    | .error e => .error e
  | path, .obj ms =>
    match normalizeMembers path [] ms with
    | .ok ns => .ok (.obj ns)
    | .error e => .error e

def normalizeItems : Text → ℕ → List (Json PyText φ) → Except BackupManifestError (List JsonValue)
  | _, _, [] => .ok []
  | path, i, x :: xs =>
    match normalizeJson (path ++ '[' :: CopyFormat.number i ++ [']']) x with
    | .error e => .error e
    | .ok y =>
      match normalizeItems path (i + 1) xs with
      | .error e => .error e
      | .ok ys => .ok (y :: ys)

/-- The members after those of an object that are normalized already. -/
def normalizeMembers : Text → Dict Text JsonValue → List (PyText × Json PyText φ) →
    Except BackupManifestError (Dict Text JsonValue)
  | _, normalized, [] => .ok normalized
  | path, normalized, (rawKey, x) :: ms =>
    match (nfc rawKey).toText? with
    | none => .error (.invalidKey path)
    | some key =>
      if key ∈ normalized.keys then .error (.duplicateNormalizedKey (path ++ '.' :: key))
      else
        match normalizeJson (path ++ '.' :: key) x with
        | .error e => .error e
        | .ok y => normalizeMembers path (normalized ++ [(key, y)]) ms

end

/-- `canonical_json_bytes` -/
def canonicalJsonBytes (value : Json PyText φ) : Except BackupManifestError (List UInt8) :=
  match normalizeJson nfc "$" value with
  | .error e => .error e
  | .ok normalized => .ok (Text.encodeUtf8 normalized.sortKeys.write)

end Normalize

/-- `value.removeprefix("-")` -/
def removeMinus : Text → Text
  | '-' :: digits => digits
  | digits => digits

/-- `int(value)` of digits that may have a minus sign. -/
def decimal (value : Text) : ℤ :=
  if value.head? = some '-' then -(Nat.ofDigitChars 10 (removeMinus value) 0 : ℤ)
  else Nat.ofDigitChars 10 value 0

/-- `_parse_integer` -/
def parseInteger (value : Text) : Except BackupManifestError ℤ :=
  if 19 < (removeMinus value).length then .error .integerOutside
  else if jsonIntegerMin ≤ decimal value ∧ decimal value ≤ jsonIntegerMax then
    .ok (decimal value)
  else .error .integerOutside

/-- `_pairs_without_duplicates`, after the keys of `result`. -/
def pairsWithoutDuplicates {α : Type} : Dict PyText α → List (PyText × α) →
    Except BackupManifestError (Dict PyText α)
  | result, [] => .ok result
  | result, (key, value) :: pairs =>
    if key ∈ result.keys then .error (.duplicateKey key)
    else pairsWithoutDuplicates (result ++ [(key, value)]) pairs

/-- The hooks of `parse_canonical_json`, with `_reject_float` and `_reject_constant`. -/
def hooks : Json.Hooks BackupManifestError Empty where
  parseInt := parseInteger
  parseFloat value := .error (.floatNumber value)
  parseConstant value := .error (.nonFiniteNumber value)
  objectPairs := pairsWithoutDuplicates []

/-- `parse_canonical_json` -/
def parseCanonicalJson (nfc : PyText → PyText) (payload : List UInt8) :
    Except BackupManifestError JsonValue :=
  match Text.decodeUtf8? payload with
  | none => .error .notUtf8
  | some text =>
    match Json.loads hooks text with
    | .error .malformed => .error .notJson
    | .error (.hook e) => .error e
    | .ok value =>
      match normalizeJson nfc "$" value with
      | .error e => .error e
      | .ok normalized =>
        match canonicalJsonBytes nfc (normalized.raw : Json PyText Empty) with
        | .error e => .error e
        | .ok encoded => if encoded = payload then .ok normalized else .error .notCanonical

/-! ## Normal values -/

section Normal

variable {φ : Type} {nfc : PyText → PyText}

/-- What normalization asks of a value : 64-bit integers, NFC strings, and distinct NFC keys. -/
def Normal (nfc : PyText → PyText) : JsonValue → Prop
  | .int i => jsonIntegerMin ≤ i ∧ i ≤ jsonIntegerMax
  | .str s => nfc (.ofText s) = .ofText s
  | .obj ms => (Dict.keys ms).Nodup ∧ ∀ k ∈ Dict.keys ms, nfc (.ofText k) = .ofText k
  | _ => True

/-- The members of a normal object. -/
def NormalMembers (nfc : PyText → PyText) (ms : Dict Text JsonValue) : Prop :=
  ms.keys.Nodup ∧ (∀ k ∈ ms.keys, nfc (.ofText k) = .ofText k) ∧ ∀ m ∈ ms, m.2.All (Normal nfc)

theorem NormalMembers.append {ms : Dict Text JsonValue} (h : NormalMembers nfc ms) {k : Text}
    {v : JsonValue} (hk : k ∉ ms.keys) (hnfc : nfc (.ofText k) = .ofText k)
    (hv : v.All (Normal nfc)) : NormalMembers nfc (ms ++ [(k, v)]) := by
  have hkeys : Dict.keys (ms ++ [(k, v)]) = ms.keys ++ [k] := List.map_append
  refine ⟨?_, fun j hj => ?_, fun m hm => ?_⟩
  · rw [hkeys, List.nodup_append_comm, List.singleton_append, List.nodup_cons]
    exact ⟨hk, h.1⟩
  · rw [hkeys] at hj
    rcases List.mem_append.1 hj with hj | hj
    · exact h.2.1 j hj
    · rw [List.mem_singleton.1 hj]
      exact hnfc
  · rcases List.mem_append.1 hm with hm | hm
    · exact h.2.2 m hm
    · rw [List.mem_singleton.1 hm]
      exact hv

theorem normalizeItems_normal {xs : List (Json PyText φ)}
    (ih : ∀ x ∈ xs, ∀ path y, normalizeJson nfc path x = .ok y → y.All (Normal nfc)) :
    ∀ {path i ys}, normalizeItems nfc path i xs = .ok ys → ∀ y ∈ ys, y.All (Normal nfc) := by
  induction xs with
  | nil =>
    intro path i ys h
    cases h
    exact fun _ h => absurd h List.not_mem_nil
  | cons x xs ihs =>
    intro path i ys h
    rw [normalizeItems] at h
    split at h
    · cases h
    · rename_i y hy
      split at h
      · cases h
      · rename_i ys hys
        cases h
        exact List.forall_mem_cons.2 ⟨ih x List.mem_cons_self _ _ hy,
          ihs (fun x hx => ih x (List.mem_cons_of_mem _ hx)) hys⟩

theorem normalizeMembers_normal (hnfc : ∀ s, nfc (nfc s) = nfc s)
    {ms : List (PyText × Json PyText φ)}
    (ih : ∀ m ∈ ms, ∀ path y, normalizeJson nfc path m.2 = .ok y → y.All (Normal nfc)) :
    ∀ {path} {seen ns : Dict Text JsonValue}, NormalMembers nfc seen →
      normalizeMembers nfc path seen ms = .ok ns → NormalMembers nfc ns := by
  induction ms with
  | nil =>
    intro path seen ns hseen h
    cases h
    exact hseen
  | cons m ms ihs =>
    intro path seen ns hseen h
    rw [normalizeMembers] at h
    split at h
    · cases h
    · rename_i key hkey
      split_ifs at h with hnew
      split at h
      · cases h
      · rename_i y hy
        have hidem : nfc (.ofText key) = .ofText key := by
          rw [PyText.ofText_of_toText? hkey, hnfc]
        exact ihs (fun m hm => ih m (List.mem_cons_of_mem _ hm))
          (hseen.append hnew hidem (ih m List.mem_cons_self _ _ hy)) h

/-- What normalization gives is normal. -/
theorem normalizeJson_normal (hnfc : ∀ s, nfc (nfc s) = nfc s) {v : Json PyText φ} :
    ∀ {path n}, normalizeJson nfc path v = .ok n → n.All (Normal nfc) := by
  induction v with
  | null => intro path n h; cases h; trivial
  | bool b => intro path n h; cases h; trivial
  | int i =>
    intro path n h
    rw [normalizeJson] at h
    split_ifs at h with hi
    cases h
    exact hi
  | float x => intro path n h; cases h
  | str s =>
    intro path n h
    rw [normalizeJson] at h
    split at h
    · rename_i t ht
      cases h
      show nfc (.ofText t) = .ofText t
      rw [PyText.ofText_of_toText? ht, hnfc]
    · cases h
  | arr xs ih =>
    intro path n h
    rw [normalizeJson] at h
    split at h
    · rename_i ys hys
      cases h
      exact Json.all_arr.2 ⟨trivial, normalizeItems_normal (fun x hx _ _ => ih x hx) hys⟩
    · cases h
  | obj ms ih =>
    intro path n h
    rw [normalizeJson] at h
    split at h
    · rename_i ns hns
      cases h
      have hempty : NormalMembers nfc [] :=
        ⟨List.nodup_nil, fun _ h => absurd h List.not_mem_nil,
          fun _ h => absurd h List.not_mem_nil⟩
      obtain ⟨hnodup, hkeys, hall⟩ :=
        normalizeMembers_normal hnfc (fun m hm _ _ => ih m hm) hempty hns
      exact Json.all_obj.2 ⟨⟨hnodup, hkeys⟩, hall⟩
    · cases h

theorem normalizeItems_raw {ys : List JsonValue}
    (ih : ∀ y ∈ ys, ∀ path, normalizeJson nfc path (y.raw : Json PyText φ) = .ok y) :
    ∀ path i, normalizeItems nfc path i (ys.map fun y => (y.raw : Json PyText φ)) = .ok ys := by
  induction ys with
  | nil => exact fun _ _ => rfl
  | cons y ys ihs =>
    intro path i
    rw [List.map_cons, normalizeItems, ih y List.mem_cons_self]
    simp only [ihs fun y hy => ih y (List.mem_cons_of_mem _ hy)]

theorem normalizeMembers_raw {ns : Dict Text JsonValue}
    (hnfc : ∀ k ∈ ns.keys, nfc (.ofText k) = .ofText k)
    (ih : ∀ n ∈ ns, ∀ path, normalizeJson nfc path (n.2.raw : Json PyText φ) = .ok n.2) :
    ∀ path (seen : Dict Text JsonValue), (Dict.keys (seen ++ ns)).Nodup →
      normalizeMembers nfc path seen
        (ns.map fun n => (.ofText n.1, (n.2.raw : Json PyText φ))) = .ok (seen ++ ns) := by
  induction ns with
  | nil =>
    intro path seen _
    rw [List.append_nil]
    rfl
  | cons n ns ihs =>
    intro path seen hnodup
    obtain ⟨k, v⟩ := n
    have happ : seen ++ (k, v) :: ns = (seen ++ [(k, v)]) ++ ns := List.append_cons ..
    have hnew : k ∉ seen.keys := by
      have hkeys : Dict.keys (seen ++ (k, v) :: ns) = seen.keys ++ k :: Dict.keys ns :=
        List.map_append
      rw [hkeys] at hnodup
      exact fun h => (List.nodup_append.1 hnodup).2.2 k h k List.mem_cons_self rfl
    rw [List.map_cons, normalizeMembers, hnfc k List.mem_cons_self, PyText.toText?_ofText]
    simp only [if_neg hnew, ih (k, v) List.mem_cons_self]
    rw [happ] at hnodup ⊢
    exact ihs (fun j hj => hnfc j (List.mem_cons_of_mem _ hj))
      (fun n hn => ih n (List.mem_cons_of_mem _ hn)) path _ hnodup

variable {n : JsonValue} {b : List UInt8}

/-- Normalization leaves a normal value as it is. -/
theorem normalizeJson_raw (h : n.All (Normal nfc)) :
    ∀ path, normalizeJson nfc path (n.raw : Json PyText φ) = .ok n := by
  induction n using Json.induct with
  | null => exact fun _ => rfl
  | bool b => exact fun _ => rfl
  | int i => exact fun _ => if_pos h
  | float x => exact x.elim
  | str s =>
    intro path
    have hs : nfc (.ofText s) = .ofText s := h
    rw [Json.raw, Json.map, normalizeJson, hs, PyText.toText?_ofText]
  | arr xs ih =>
    intro path
    have hitems := normalizeItems_raw (φ := φ) (fun x hx => ih x hx ((Json.all_arr.1 h).2 x hx)) path 0
    rw [Json.raw_arr, normalizeJson, hitems]
  | obj ms ih =>
    intro path
    obtain ⟨⟨hnodup, hnfc⟩, hall⟩ := Json.all_obj.1 h
    have hmembers := normalizeMembers_raw (φ := φ) hnfc (fun n hn => ih n hn (hall n hn)) path []
      hnodup
    rw [Json.raw_obj, normalizeJson, hmembers]
    rfl

theorem Normal.distinctKeys (h : n.All (Normal nfc)) : n.All Json.DistinctKeys := by
  refine Json.All.mono (fun v hv => ?_) h
  cases v with
  | obj ms => exact hv.1
  | _ => trivial

/-- Sorted keys are as distinct as before. -/
theorem Normal.sortKeys (h : n.All (Normal nfc)) : n.sortKeys.All (Normal nfc) := by
  refine Json.all_sortKeys (fun v hv => ?_) h
  cases v with
  | arr xs =>
    rw [Json.sortKeys_arr]
    trivial
  | obj ms =>
    rw [Json.sortKeys_obj]
    have hkeys : (Dict.keys (Json.sortMembers (ms.map fun m => (m.1, m.2.sortKeys)))).Perm
        (Dict.keys ms) := by
      have hperm := (Json.perm_sortMembers (ms.map fun m => (m.1, m.2.sortKeys))).map Prod.fst
      rwa [List.map_map] at hperm
    exact ⟨hkeys.nodup_iff.2 hv.1, fun k hk => hv.2 k (hkeys.subset hk)⟩
  | _ => exact hv

/-! ## Reading back -/

theorem parseInteger_intText {i : ℤ} (hi : jsonIntegerMin ≤ i ∧ i ≤ jsonIntegerMax) :
    parseInteger (Json.intText i) = .ok i := by
  have hvalue : decimal (Json.intText i) = i ∧ (removeMinus (Json.intText i)).length ≤ 19 := by
    have hlength : ∀ {n : ℕ}, n ≤ 2 ^ 63 → (Nat.toDigits 10 n).length ≤ 19 := fun h =>
      (Nat.length_toDigits_le_iff (by decide) (by decide)).2 (by omega)
    unfold jsonIntegerMin jsonIntegerMax at hi
    cases i with
    | ofNat n =>
      rw [Int.ofNat_eq_natCast] at hi
      obtain ⟨c, s, hs, hc, -, -⟩ := Json.numeral_toDigits n
      have hdash : c ≠ '-' := Json.not_dash hc
      have hminus : removeMinus (c :: s) = c :: s :=
        removeMinus.eq_2 _ fun _ h => hdash (List.cons.inj h).1
      have hdigits : Nat.ofDigitChars 10 (c :: s) 0 = n := hs ▸ Nat.ofDigitChars_ten_toDigits
      rw [Json.intText, hs, decimal, List.head?_cons, if_neg fun h => hdash (Option.some.inj h),
        hminus, hdigits, ← hs]
      exact ⟨rfl, hlength (by omega)⟩
    | negSucc n =>
      rw [Json.intText, decimal, List.head?_cons, if_pos rfl, removeMinus,
        Nat.ofDigitChars_ten_toDigits]
      exact ⟨by omega, hlength (by omega)⟩
  rw [parseInteger, if_neg (Nat.not_lt.2 hvalue.2), hvalue.1, if_pos hi]

theorem pairsWithoutDuplicates_eq_ok {α : Type} {pairs : List (PyText × α)} :
    ∀ {result : Dict PyText α}, (Dict.keys (result ++ pairs)).Nodup →
      pairsWithoutDuplicates result pairs = .ok (result ++ pairs) := by
  induction pairs with
  | nil =>
    intro result _
    rw [List.append_nil]
    rfl
  | cons p pairs ih =>
    intro result h
    obtain ⟨k, v⟩ := p
    have happ : result ++ (k, v) :: pairs = (result ++ [(k, v)]) ++ pairs := List.append_cons ..
    have hnew : k ∉ result.keys := by
      have hkeys : Dict.keys (result ++ (k, v) :: pairs) = result.keys ++ k :: Dict.keys pairs :=
        List.map_append
      rw [hkeys] at h
      exact fun hk => (List.nodup_append.1 h).2.2 k hk k List.mem_cons_self rfl
    rw [pairsWithoutDuplicates, if_neg hnew, happ]
    rw [happ] at h
    exact ih h

/-- The reader takes normal values for what they are. -/
theorem Normal.faithful (h : n.All (Normal nfc)) : n.All (Json.Faithful hooks) := by
  refine Json.All.mono (fun v hv => ?_) h
  cases v with
  | int i => exact parseInteger_intText hv
  | obj ms =>
    refine pairsWithoutDuplicates_eq_ok ?_
    have hkeys : Dict.keys (ms.map fun m => (PyText.ofText m.1, (m.2.raw : Json PyText Empty))) =
        (Dict.keys ms).map PyText.ofText := by
      rw [Dict.keys, Dict.keys, List.map_map, List.map_map]
      rfl
    rw [List.nil_append, hkeys]
    exact hv.1.map fun _ _ => PyText.ofText_injective
  | _ => trivial

theorem loads_write_sortKeys (h : n.All (Normal nfc)) :
    Json.loads hooks n.sortKeys.write = .ok (n.sortKeys.raw : Json PyText Empty) :=
  Json.loads_write hooks (Normal.faithful (Normal.sortKeys h))

/-- The encoding of a normal value is read as the value with sorted keys. -/
theorem parseCanonicalJson_encode (h : n.All (Normal nfc)) :
    parseCanonicalJson nfc (Text.encodeUtf8 n.sortKeys.write) = .ok n.sortKeys := by
  have hsorted := Normal.sortKeys h
  rw [parseCanonicalJson, Text.decodeUtf8?_encodeUtf8]
  simp only [loads_write_sortKeys h, normalizeJson_raw hsorted, canonicalJsonBytes,
    Json.sortKeys_sortKeys, ↓reduceIte]

theorem canonicalJsonBytes_eq_ok {v : Json PyText φ} :
    canonicalJsonBytes nfc v = .ok b ↔
      ∃ n, normalizeJson nfc "$" v = .ok n ∧ Text.encodeUtf8 n.sortKeys.write = b := by
  rw [canonicalJsonBytes]
  cases normalizeJson nfc "$" v with
  | error e => simp
  | ok n => simp

theorem canonicalJsonBytes_raw (h : n.All (Normal nfc)) :
    canonicalJsonBytes nfc (n.raw : Json PyText φ) = .ok (Text.encodeUtf8 n.sortKeys.write) :=
  canonicalJsonBytes_eq_ok.2 ⟨n, normalizeJson_raw h _, rfl⟩

/-- What is accepted is the encoding of a normal value. -/
theorem parseCanonicalJson_eq_ok (hnfc : ∀ s, nfc (nfc s) = nfc s) {w : JsonValue}
    (h : parseCanonicalJson nfc b = .ok w) :
    w.All (Normal nfc) ∧ Text.encodeUtf8 w.sortKeys.write = b := by
  rw [parseCanonicalJson] at h
  split at h
  · cases h
  split at h
  · cases h
  · cases h
  split at h
  · cases h
  · rename_i hn
    split at h
    · cases h
    · rename_i encoded hencoded
      split_ifs at h with hb
      cases h
      have hnormal := normalizeJson_normal hnfc hn
      rw [canonicalJsonBytes_raw hnormal] at hencoded
      exact ⟨hnormal, hb ▸ Except.ok.inj hencoded⟩

/-- A value comes back from its encoding, with its keys sorted. -/
theorem parseCanonicalJson_canonicalJsonBytes (hnfc : ∀ s, nfc (nfc s) = nfc s) {v : Json PyText φ}
    (h : canonicalJsonBytes nfc v = .ok b) :
    ∃ n, normalizeJson nfc "$" v = .ok n ∧ n.All (Normal nfc) ∧
      parseCanonicalJson nfc b = .ok n.sortKeys := by
  obtain ⟨n, hn, rfl⟩ := canonicalJsonBytes_eq_ok.1 h
  have hnormal := normalizeJson_normal hnfc hn
  exact ⟨n, hn, hnormal, parseCanonicalJson_encode hnormal⟩

/-- Bytes that say a value in another way are refused. -/
theorem parseCanonicalJson_of_ne {c : List UInt8} {t : Text} {v : Json PyText Empty}
    (hnfc : ∀ s, nfc (nfc s) = nfc s) (ht : Text.decodeUtf8? b = some t)
    (hv : Json.loads hooks t = .ok v) (hc : canonicalJsonBytes nfc v = .ok c) (hne : b ≠ c) :
    parseCanonicalJson nfc b = .error .notCanonical := by
  obtain ⟨n, hn, rfl⟩ := canonicalJsonBytes_eq_ok.1 hc
  rw [parseCanonicalJson, ht]
  simp only [hv, hn, canonicalJsonBytes_raw (normalizeJson_normal hnfc hn), if_neg hne.symm]

/-- Accepted bytes are equal if and only if they say the same value. -/
theorem eq_iff_same (hnfc : ∀ s, nfc (nfc s) = nfc s) {c : List UInt8} {v w : JsonValue}
    (hv : parseCanonicalJson nfc b = .ok v) (hw : parseCanonicalJson nfc c = .ok w) :
    b = c ↔ v.same w = true := by
  obtain ⟨hvn, hb⟩ := parseCanonicalJson_eq_ok hnfc hv
  obtain ⟨hwn, hc⟩ := parseCanonicalJson_eq_ok hnfc hw
  rw [Json.same_iff_sortKeys_eq (Normal.distinctKeys hvn) (Normal.distinctKeys hwn)]
  constructor
  · rintro rfl
    rw [hv] at hw
    rw [Except.ok.inj hw]
  · intro h
    rw [← hb, ← hc, h]

/-- Canonical JSON is a bijection between values, with members in any order, and the accepted byte
strings. -/
theorem canonicalJson_bijective (nfc : PyText → PyText) (hnfc : ∀ s, nfc (nfc s) = nfc s) :
    (∀ (v : Json PyText φ) b, canonicalJsonBytes nfc v = .ok b →
      ∃ n w, normalizeJson nfc "$" v = .ok n ∧ parseCanonicalJson nfc b = .ok w ∧
        w.same n = true ∧ canonicalJsonBytes nfc (w.raw : Json PyText φ) = .ok b) ∧
    (∀ b w, parseCanonicalJson nfc b = .ok w →
      canonicalJsonBytes nfc (w.raw : Json PyText φ) = .ok b) ∧
    (∀ (v : Json PyText φ) path n, normalizeJson nfc path v = .ok n →
      normalizeJson nfc path (n.raw : Json PyText φ) = .ok n) ∧
    (∀ b c v w, parseCanonicalJson nfc b = .ok v → parseCanonicalJson nfc c = .ok w →
      (b = c ↔ v.same w = true)) ∧
    (∀ b, (∃ w, parseCanonicalJson nfc b = .ok w) ↔
      ∃ v : Json PyText φ, canonicalJsonBytes nfc v = .ok b) ∧
    (∀ b c t v, Text.decodeUtf8? b = some t → Json.loads hooks t = .ok v →
      canonicalJsonBytes nfc v = .ok c → b ≠ c → parseCanonicalJson nfc b = .error .notCanonical) := by
  refine ⟨fun v b h => ?_, fun b w h => ?_, fun v path n h => ?_,
    fun b c v w => eq_iff_same hnfc, fun b => ⟨?_, ?_⟩,
    fun b c t v => parseCanonicalJson_of_ne hnfc⟩
  · obtain ⟨n, hn, hnormal, hparse⟩ := parseCanonicalJson_canonicalJsonBytes hnfc h
    have hsorted := Normal.sortKeys hnormal
    obtain ⟨-, hb⟩ := parseCanonicalJson_eq_ok hnfc hparse
    refine ⟨n, n.sortKeys, hn, hparse, ?_, by rw [canonicalJsonBytes_raw hsorted, hb]⟩
    exact (Json.same_iff_sortKeys_eq (Normal.distinctKeys hsorted)
      (Normal.distinctKeys hnormal)).2 (Json.sortKeys_sortKeys n)
  · obtain ⟨hnormal, hb⟩ := parseCanonicalJson_eq_ok hnfc h
    rw [canonicalJsonBytes_raw hnormal, hb]
  · exact normalizeJson_raw (normalizeJson_normal hnfc h) path
  · rintro ⟨w, h⟩
    obtain ⟨hnormal, hb⟩ := parseCanonicalJson_eq_ok hnfc h
    exact ⟨w.raw, by rw [canonicalJsonBytes_raw hnormal, hb]⟩
  · rintro ⟨v, h⟩
    obtain ⟨n, -, -, hparse⟩ := parseCanonicalJson_canonicalJsonBytes hnfc h
    exact ⟨n.sortKeys, hparse⟩

/-- An ASCII value, which NFC leaves as it is. -/
def asciiValue : Json PyText Unit :=
  .obj [(.ofText "b", .int 1), (.ofText "a", .arr [.bool true, .null])]

theorem canonicalJson_bijective_ascii :
    ∃ n w, normalizeJson id "$" asciiValue = .ok n ∧
      parseCanonicalJson id (Text.encodeUtf8 "\x7b\"a\":[true,null],\"b\":1\x7d") = .ok w ∧
      w.same n = true ∧ canonicalJsonBytes id (w.raw : Json PyText Unit) =
        .ok (Text.encodeUtf8 "\x7b\"a\":[true,null],\"b\":1\x7d") :=
  (canonicalJson_bijective id fun _ => rfl).1 asciiValue _ rfl

end Normal

end Backup

end PPBase
