import Mathlib.Data.List.DropRight
import PPBase.Json
import PPBase.Storage

/-!
# Storage names

The names of stored files and of the folders they are in. `validateSingleComponent` is the check of
one component (`validateSingleComponent_eq_ok`), and an id that passes has a local name
(`localStorageIdName`) : itself, or the hexadecimal digits of its bytes after a prefix. Local names
are components of a path, and two ids have two names for every way a file system compares names
(`NameComparison`), and two files two object keys (`storageObjectKey`).

The name of a stored file is what is left of the name of the upload with a random suffix
(`generateStorageFilename`). It is a valid reference that is not remote, with the extension of the
upload.
-/

namespace PPBase

namespace StorageNames

variable {φ : Type}

/-! ## Components -/

/-- What a name is refused with : `StorageSafetyError`, or `UnicodeEncodeError`. -/
inductive NameError
  | storageSafety (message : Text)
  | unicodeEncode
  deriving DecidableEq

/-- `MAX_STORAGE_IDENTIFIER_LENGTH` -/
def maxStorageIdentifierLength : ℕ := 15

/-- `MAX_STORAGE_FILENAME_BYTES` -/
def maxStorageFilenameBytes : ℕ := 255

/-- `char.isspace()` -/
def isSpace (c : CodePoint) : Bool := c.scalar?.any Text.isSpace

/-- `s.strip()` -/
def strip (s : PyText) : PyText := (s.dropWhile isSpace).rdropWhile isSpace

/-- `unicodedata.category(char) in {"Cc", "Cs"}` -/
def isControl : CodePoint → Bool
  | .scalar c => Storage.isControl c
  | .surrogate _ => true

/-- `_has_control_character` -/
def hasControlCharacter (value : PyText) : Bool := value.any isControl

/-- `_WINDOWS_DRIVE_PREFIX` -/
def hasWindowsDrivePrefix : PyText → Bool
  | .scalar c :: .scalar ':' :: _ => c.isAlpha
  | _ => false

/-- The keyword arguments of `_validate_single_component`. -/
structure Limits where
  maxLength : Option ℕ := none
  maxUtf8Bytes : Option ℕ := none
  rejectWindowsDrivePrefix : Bool := false

/-- `if bad: raise StorageSafetyError(message)` -/
def refuse (bad : Bool) (message : Text) : Except NameError Unit :=
  if bad then .error (.storageSafety message) else .ok ()

/-- The last check, `value.encode("utf-8")` and its length. -/
def checkBytes (label : Text) (value : PyText) (m : ℕ) : Except NameError Unit :=
  match value.toText? with
  | none => .error (.storageSafety (label ++ " must be valid UTF-8 text."))
  | some t =>
    refuse (m < (Text.encodeUtf8 t).length)
      (label ++ " must contain at most " ++ Nat.toDigits 10 m ++ " UTF-8 bytes.")

/-- `_validate_single_component` -/
def validateSingleComponent (label : Text) (limits : Limits) :
    Json PyText φ → Except NameError PyText
  | .str value => do
    refuse (value = [] || value ≠ strip value) (label ++ " must be a non-empty trimmed value.")
    refuse (value = .ofText "." || value = .ofText "..")
      (label ++ " cannot be a relative path segment.")
    refuse (.scalar '/' ∈ value || .scalar '\\' ∈ value)
      (label ++ " cannot contain path separators.")
    refuse (limits.rejectWindowsDrivePrefix && hasWindowsDrivePrefix value)
      (label ++ " cannot contain a drive prefix.")
    refuse (hasControlCharacter value) (label ++ " cannot contain control characters.")
    limits.maxLength.forM fun m =>
      refuse (m < value.length)
        (label ++ " must contain at most " ++ Nat.toDigits 10 m ++ " characters.")
    limits.maxUtf8Bytes.forM (checkBytes label value)
    return value
  | _ => .error (.storageSafety (label ++ " must be a string."))

/-- `validate_collection_id` -/
def validateCollectionId : Json PyText φ → Except NameError PyText :=
  validateSingleComponent "collection_id" { maxLength := some maxStorageIdentifierLength }

/-- `validate_record_id` -/
def validateRecordId : Json PyText φ → Except NameError PyText :=
  validateSingleComponent "record_id" { maxLength := some maxStorageIdentifierLength }

/-- `validate_file_reference` -/
def validateFileReference : Json PyText φ → Except NameError PyText :=
  validateSingleComponent "filename"
    { maxUtf8Bytes := some maxStorageFilenameBytes, rejectWindowsDrivePrefix := true }

/-! ## Local names and object keys -/

/-- `LOCAL_STORAGE_ID_ESCAPE_PREFIX` -/
def localStorageIdEscapePrefix : Text := "__ppbase_storage_id_v1__"

/-- `[_a-z0-9]` -/
def isPocketBaseIdChar : CodePoint → Bool
  | .scalar c => c = '_' || c.isLower || c.isDigit
  | .surrogate _ => false

/-- `bytes.hex()` of one byte. -/
def hexByte (b : UInt8) : Text := [Nat.digitChar (b.toNat / 16), Nat.digitChar (b.toNat % 16)]

/-- `local_storage_id_name` -/
def localStorageIdName (value : Json PyText φ) : Except NameError PyText := do
  let identifier ← validateSingleComponent "storage_id"
    { maxLength := some maxStorageIdentifierLength } value
  if identifier ≠ [] ∧ identifier.all isPocketBaseIdChar = true then .ok identifier
  else
    match identifier.toText? with
    | none => .error .unicodeEncode
    | some t => .ok (.ofText (localStorageIdEscapePrefix ++ (Text.encodeUtf8 t).flatMap hexByte))

/-- `_storage_object_key` -/
def storageObjectKey (collectionId recordId filename : Json PyText φ) :
    Except NameError PyText := do
  let safeCollectionId ← validateCollectionId collectionId
  let safeRecordId ← validateRecordId recordId
  let safeFilename ← validateFileReference filename
  return safeCollectionId ++ .scalar '/' :: (safeRecordId ++ .scalar '/' :: safeFilename)

/-! ## What passes the check -/

/-- One component of a path, that nothing is cut off of. -/
structure IsComponent (s : PyText) : Prop where
  ne_nil : s ≠ []
  trimmed : strip s = s
  ne_dot : s ≠ .ofText "."
  ne_dotdot : s ≠ .ofText ".."
  no_slash : .scalar '/' ∉ s
  no_backslash : .scalar '\\' ∉ s
  no_control : ∀ c ∈ s, isControl c = false

/-- The bytes of a name. -/
def Encodes (s : PyText) (b : List UInt8) : Prop :=
  ∃ t : Text, s = .ofText t ∧ Text.encodeUtf8 t = b

theorem refuse_eq_ok {bad : Bool} {message : Text} {u : Unit} :
    refuse bad message = .ok u ↔ bad = false := by
  unfold refuse
  cases bad <;> simp

theorem forM_eq_ok {o : Option ℕ} {f : ℕ → Except NameError Unit} {u : Unit} :
    o.forM f = .ok u ↔ ∀ m, o = some m → f m = .ok () := by
  cases o with
  | none => exact ⟨fun _ _ h => absurd h (Option.some_ne_none _).symm, fun _ => rfl⟩
  | some m => exact ⟨fun h _ hm => Option.some.inj hm ▸ h, fun h => h m rfl⟩

variable {s x : PyText} {t : Text} {c : CodePoint}

theorem checkBytes_eq_ok {label : Text} {m : ℕ} {u : Unit} :
    checkBytes label s m = .ok u ↔ ∃ b, Encodes s b ∧ b.length ≤ m := by
  unfold checkBytes
  cases hs : s.toText? with
  | none =>
    constructor
    · rintro ⟨⟩
    · rintro ⟨_, ⟨t, rfl, -⟩, -⟩
      rw [PyText.toText?_ofText] at hs
      cases hs
  | some t =>
    simp only [refuse_eq_ok, decide_eq_false_iff_not, not_lt]
    constructor
    · exact fun h => ⟨_, ⟨t, (PyText.ofText_of_toText? hs).symm, rfl⟩, h⟩
    · rintro ⟨_, ⟨t', rfl, rfl⟩, h⟩
      rw [PyText.toText?_ofText] at hs
      rwa [← Option.some.inj hs]

theorem validateSingleComponent_eq_ok {label : Text} {limits : Limits} {v : Json PyText φ} :
    validateSingleComponent label limits v = .ok s ↔
      v = .str s ∧ IsComponent s ∧
        (limits.rejectWindowsDrivePrefix = true → hasWindowsDrivePrefix s = false) ∧
        (∀ m, limits.maxLength = some m → s.length ≤ m) ∧
        ∀ m, limits.maxUtf8Bytes = some m → ∃ b, Encodes s b ∧ b.length ≤ m := by
  cases v with
  | str value =>
    simp only [validateSingleComponent, Failing.bind_eq_ok, refuse_eq_ok, forM_eq_ok,
      checkBytes_eq_ok, Bool.or_eq_false_iff, Bool.and_eq_false_iff, decide_eq_false_iff_not,
      not_lt, hasControlCharacter, List.any_eq_false, Json.str.injEq]
    constructor
    · rintro ⟨-, ⟨hnil, htrim⟩, -, ⟨hdot, hdots⟩, -, ⟨hslash, hback⟩, -, hdrive, -, hcontrol, -,
        hlength, -, hbytes, h⟩
      obtain rfl := Except.ok.inj h
      refine ⟨rfl, ⟨hnil, (not_not.1 htrim).symm, hdot, hdots, hslash, hback, fun c hc =>
        Bool.eq_false_iff.2 (hcontrol c hc)⟩, fun hr => ?_, hlength, hbytes⟩
      rcases hdrive with h | h
      · rw [hr] at h
        cases h
      · exact h
    · rintro ⟨rfl, hs, hdrive, hlength, hbytes⟩
      refine ⟨(), ⟨hs.ne_nil, not_not.2 hs.trimmed.symm⟩, (), ⟨hs.ne_dot, hs.ne_dotdot⟩, (),
        ⟨hs.no_slash, hs.no_backslash⟩, (), ?_, (), fun c hc => ?_, (), hlength, (), hbytes, rfl⟩
      · cases hr : limits.rejectWindowsDrivePrefix with
        | false => exact .inl rfl
        | true => exact .inr (hdrive hr)
      · exact Bool.eq_false_iff.1 (hs.no_control c hc)
  | _ =>
    constructor
    · rintro ⟨⟩
    · rintro ⟨⟨⟩, -⟩

/-! ## Strings that are texts -/

theorem strip_ofText (t : Text) : strip (.ofText t) = .ofText (Text.strip t) := by
  have hspace : isSpace ∘ CodePoint.scalar = Text.isSpace := rfl
  simp only [strip, List.rdropWhile, PyText.ofText, List.dropWhile_map, hspace, ← List.map_reverse,
    Text.strip]

theorem mem_ofText {c : Char} : .scalar c ∈ PyText.ofText t ↔ c ∈ t := by
  constructor
  · intro h
    obtain ⟨d, hd, heq⟩ := List.mem_map.1 h
    exact CodePoint.scalar.inj heq ▸ hd
  · exact List.mem_map_of_mem

theorem ofText_eq_iff {s : Text} : PyText.ofText s = PyText.ofText t ↔ s = t :=
  ⟨PyText.ofText_injective, congrArg _⟩

theorem isComponent_ofText : IsComponent (.ofText t) ↔ Storage.isComponent t = true := by
  have hnil : PyText.ofText t = [] ↔ t = [] := List.map_eq_nil_iff
  have hcontrol : (∀ c ∈ PyText.ofText t, isControl c = false) ↔
      ∀ c ∈ t, Storage.isControl c = false :=
    ⟨fun h c hc => h (.scalar c) (mem_ofText.2 hc), fun h c hc => by
      obtain ⟨d, hd, rfl⟩ := List.mem_map.1 hc
      exact h d hd⟩
  simp only [Storage.isComponent, Bool.and_eq_true, Bool.not_eq_true', decide_eq_true_eq,
    List.any_eq_false, ne_eq, Bool.not_eq_true]
  constructor
  · intro h
    exact ⟨⟨⟨⟨⟨⟨fun hc => h.ne_nil (hnil.2 hc), ofText_eq_iff.1 (strip_ofText t ▸ h.trimmed)⟩,
      fun hc => h.ne_dot (hc ▸ rfl)⟩, fun hc => h.ne_dotdot (hc ▸ rfl)⟩,
      fun hc => h.no_slash (mem_ofText.2 hc)⟩, fun hc => h.no_backslash (mem_ofText.2 hc)⟩,
      hcontrol.1 h.no_control⟩
  · rintro ⟨⟨⟨⟨⟨⟨h, htrim⟩, hdot⟩, hdots⟩, hslash⟩, hback⟩, hall⟩
    exact ⟨fun hc => h (hnil.1 hc), by rw [strip_ofText, htrim],
      fun hc => hdot (ofText_eq_iff.1 hc), fun hc => hdots (ofText_eq_iff.1 hc),
      fun hc => hslash (mem_ofText.1 hc),
      fun hc => hback (mem_ofText.1 hc), hcontrol.2 hall⟩

/-- On texts the checks are those of the storage. -/
theorem validateRecordId_ofText :
    validateRecordId (.str (.ofText t) : Json PyText φ) = .ok (.ofText t) ↔
      Storage.validateRecordId (.text t) = some t := by
  have hlength : (PyText.ofText t).length = t.length := List.length_map ..
  rw [validateRecordId, validateSingleComponent_eq_ok, isComponent_ofText, Storage.validateRecordId,
    Option.ite_none_right_eq_some]
  constructor
  · rintro ⟨-, h, -, hlen, -⟩
    exact ⟨⟨h, hlength ▸ hlen _ rfl⟩, rfl⟩
  · rintro ⟨⟨h, hlen⟩, -⟩
    exact ⟨rfl, h, nofun, fun m hm => Option.some.inj hm ▸ hlength.symm ▸ hlen, nofun⟩

theorem length_encodeUtf8 (t : Text) :
    (Text.encodeUtf8 t).length = (t.map Char.utf8Size).sum := by
  rw [Text.encodeUtf8, List.length_flatMap]
  exact congrArg List.sum (List.map_congr_left fun c _ => String.length_utf8EncodeChar c)

theorem hasWindowsDrivePrefix_ofText (t : Text) :
    hasWindowsDrivePrefix (.ofText t) = Storage.hasDrivePrefix t := by
  match t with
  | [] => rfl
  | [_] => rfl
  | c :: d :: t =>
    by_cases hd : d = ':'
    · subst hd
      rfl
    · have hleft : hasWindowsDrivePrefix (.scalar c :: .scalar d :: PyText.ofText t) = false := by
        unfold hasWindowsDrivePrefix
        split
        · rename_i heq
          exact absurd (CodePoint.scalar.inj (List.cons.inj (List.cons.inj heq).2).1) hd
        · rfl
      have hright : Storage.hasDrivePrefix (c :: d :: t) = false := by
        unfold Storage.hasDrivePrefix
        split
        · rename_i heq
          exact absurd (List.cons.inj (List.cons.inj heq).2).1 hd
        · rfl
      exact hleft.trans hright.symm

theorem validateFileReference_ofText :
    validateFileReference (.str (.ofText t) : Json PyText φ) = .ok (.ofText t) ↔
      Storage.isFileReference t = true := by
  simp only [validateFileReference, validateSingleComponent_eq_ok, isComponent_ofText,
    Storage.isFileReference, Bool.and_eq_true, Bool.not_eq_true', decide_eq_true_eq,
    hasWindowsDrivePrefix_ofText]
  constructor
  · rintro ⟨-, h, hdrive, -, hbytes⟩
    obtain ⟨b, ⟨t', ht, rfl⟩, hlength⟩ := hbytes _ rfl
    obtain rfl := PyText.ofText_injective ht
    exact ⟨⟨h, hdrive trivial⟩, length_encodeUtf8 t ▸ hlength⟩
  · rintro ⟨⟨h, hdrive⟩, hbytes⟩
    refine ⟨trivial, h, fun _ => hdrive, nofun, fun m hm => ⟨_, ⟨t, rfl, rfl⟩, ?_⟩⟩
    rw [length_encodeUtf8, ← Option.some.inj hm]
    exact hbytes

/-! ## Plain names -/

/-- A letter, a digit, an underscore, a hyphen or a dot of ASCII. -/
def isPlain : CodePoint → Bool
  | .scalar c => Text.isIdentChar c || c = '-' || c = '.'
  | .surrogate _ => false

theorem printable_of_isPlain (h : isPlain c = true) :
    ∃ d : Char, c = .scalar d ∧ 33 ≤ d.toNat ∧ d.toNat ≤ 126 ∧ d ≠ '/' ∧ d ≠ '\\' ∧ d ≠ ':' := by
  cases c with
  | surrogate n => cases h
  | scalar d =>
    simp only [isPlain, Bool.or_eq_true, decide_eq_true_eq] at h
    rcases h with (h | rfl) | rfl
    · obtain ⟨hlow, hhigh⟩ := Text.printable_of_isIdentChar h
      refine ⟨d, rfl, hlow, hhigh, ?_, ?_, ?_⟩ <;> rintro rfl <;> revert h <;> decide
    · exact ⟨_, rfl, by decide⟩
    · exact ⟨_, rfl, by decide⟩

theorem isSpace_of_isPlain (h : isPlain c = true) : isSpace c = false := by
  obtain ⟨d, rfl, hlow, hhigh, -⟩ := printable_of_isPlain h
  exact Bool.eq_false_iff.2 fun hd => Text.not_printable_of_isSpace hd ⟨hlow, hhigh⟩

theorem isControl_of_isPlain (h : isPlain c = true) : isControl c = false := by
  obtain ⟨d, rfl, hlow, hhigh, -⟩ := printable_of_isPlain h
  have h₁ : ¬d.toNat < 0x20 := by omega
  have h₂ : ¬0x7f ≤ d.toNat := by omega
  simp [isControl, Storage.isControl, h₁, h₂]

theorem notMem_of_plain (h : ∀ c ∈ s, isPlain c = true) : .scalar ':' ∉ s := by
  intro hc
  obtain ⟨d, hd, -, -, -, -, hcolon⟩ := printable_of_isPlain (h _ hc)
  exact hcolon (CodePoint.scalar.inj hd).symm

theorem strip_eq_self (h : ∀ c ∈ s, isSpace c = false) : strip s = s := by
  have hleft : s.dropWhile isSpace = s := by
    cases s with
    | nil => rfl
    | cons c s => rw [List.dropWhile_cons_of_neg (by simp [h c List.mem_cons_self])]
  rw [strip, hleft, List.rdropWhile_eq_self_iff]
  intro hs
  simp [h _ (List.getLast_mem hs)]

/-- A plain name is a component if it is not all dots. -/
theorem isComponent_of_plain (h : ∀ c ∈ s, isPlain c = true) {d : CodePoint} (hd : d ∈ s)
    (hdot : d ≠ .scalar '.') : IsComponent s where
  ne_nil := List.ne_nil_of_mem hd
  trimmed := strip_eq_self fun c hc => isSpace_of_isPlain (h c hc)
  ne_dot := by
    rintro rfl
    exact hdot (List.mem_singleton.1 hd)
  ne_dotdot := by
    rintro rfl
    rcases List.mem_cons.1 hd with hd | hd
    · exact hdot hd
    · exact hdot (List.mem_singleton.1 hd)
  no_slash hc := by
    obtain ⟨d, hd, -, -, h, -⟩ := printable_of_isPlain (h _ hc)
    exact h (CodePoint.scalar.inj hd).symm
  no_backslash hc := by
    obtain ⟨d, hd, -, -, -, h, -⟩ := printable_of_isPlain (h _ hc)
    exact h (CodePoint.scalar.inj hd).symm
  no_control c hc := isControl_of_isPlain (h c hc)

/-- A plain name has a byte for each character. -/
theorem encodes_of_plain : ∀ {s : PyText}, (∀ c ∈ s, isPlain c = true) →
    ∃ b, Encodes s b ∧ b.length = s.length
  | [], _ => ⟨[], ⟨[], rfl, rfl⟩, rfl⟩
  | c :: s, h => by
    obtain ⟨_, ⟨t, rfl, rfl⟩, hlength⟩ :=
      encodes_of_plain fun d hd => h d (List.mem_cons_of_mem _ hd)
    obtain ⟨d, rfl, -, hhigh, -⟩ := printable_of_isPlain (h c List.mem_cons_self)
    have hone : (String.utf8EncodeChar d).length = 1 := by
      rw [String.length_utf8EncodeChar, Char.utf8Size_eq_one_iff, UInt32.le_iff_toNat_le]
      exact hhigh.trans (by decide)
    refine ⟨_, ⟨d :: t, rfl, rfl⟩, ?_⟩
    rw [Text.encodeUtf8, List.flatMap_cons, List.length_append, hone, List.length_cons, ← hlength,
      Text.encodeUtf8, Nat.add_comm]

/-! ## Local names -/

theorem length_flatMap_hexByte (b : List UInt8) : (b.flatMap hexByte).length = 2 * b.length := by
  induction b with
  | nil => rfl
  | cons x b ih =>
    rw [List.flatMap_cons, List.length_append, ih, List.length_cons, hexByte]
    simp only [List.length_cons, List.length_nil]
    omega

theorem digitChar_inj : ∀ m < 16, ∀ n < 16, Nat.digitChar m = Nat.digitChar n → m = n := by decide

theorem hexByte_injective {x y : UInt8} (h : hexByte x = hexByte y) : x = y := by
  have hlt : ∀ z : UInt8, z.toNat < 256 := fun z => z.toNat_lt
  obtain ⟨hhigh, hlow⟩ := List.cons.inj h
  have h₁ := digitChar_inj _ (by have := hlt x; omega) _ (by have := hlt y; omega) hhigh
  have h₂ := digitChar_inj _ (Nat.mod_lt _ (by decide)) _ (Nat.mod_lt _ (by decide))
    (List.cons.inj hlow).1
  exact UInt8.toNat_inj.1 (by omega)

theorem flatMap_hexByte_injective :
    ∀ {a b : List UInt8}, a.flatMap hexByte = b.flatMap hexByte → a = b
  | [], [], _ => rfl
  | [], y :: b, h => by cases h
  | x :: a, [], h => by cases h
  | x :: a, y :: b, h => by
    have happ : hexByte x ++ a.flatMap hexByte = hexByte y ++ b.flatMap hexByte := by
      simpa only [List.flatMap_cons] using h
    obtain ⟨hx, ha⟩ := List.append_inj happ rfl
    rw [hexByte_injective hx, flatMap_hexByte_injective ha]

theorem length_encodeUtf8_le (t : Text) : (Text.encodeUtf8 t).length ≤ 4 * t.length := by
  induction t with
  | nil => exact Nat.zero_le _
  | cons c t ih =>
    have hc : (String.utf8EncodeChar c).length ≤ 4 := by
      rw [String.length_utf8EncodeChar]
      exact c.utf8Size_le_four
    rw [Text.encodeUtf8, List.flatMap_cons, List.length_append, List.length_cons]
    rw [Text.encodeUtf8] at ih
    omega

/-- An id without surrogates or control characters has bytes. -/
theorem exists_text (h : ∀ c ∈ s, isControl c = false) : ∃ t : Text, s = .ofText t := by
  induction s with
  | nil => exact ⟨[], rfl⟩
  | cons c s ih =>
    obtain ⟨t, rfl⟩ := ih fun d hd => h d (List.mem_cons_of_mem _ hd)
    cases c with
    | scalar c => exact ⟨c :: t, rfl⟩
    | surrogate n => cases h _ List.mem_cons_self

/-- What an id has for a local name. -/
inductive LocalName (s : PyText) : PyText → Prop
  | verbatim (h : ∀ c ∈ s, isPocketBaseIdChar c = true) : LocalName s s
  | escaped {t : Text} (hs : s = .ofText t) : LocalName s
      (.ofText (localStorageIdEscapePrefix ++ (Text.encodeUtf8 t).flatMap hexByte))

theorem localStorageIdName_eq_ok {v : Json PyText φ} (h : localStorageIdName v = .ok x) :
    ∃ s, v = .str s ∧ IsComponent s ∧ s.length ≤ maxStorageIdentifierLength ∧ LocalName s x := by
  obtain ⟨s, hs, hx⟩ := Failing.bind_eq_ok.1 h
  obtain ⟨rfl, hcomponent, -, hlength, -⟩ := validateSingleComponent_eq_ok.1 hs
  refine ⟨s, rfl, hcomponent, hlength _ rfl, ?_⟩
  split_ifs at hx with hid
  · obtain rfl := Except.ok.inj hx
    exact .verbatim (List.all_eq_true.1 hid.2)
  · cases ht : s.toText? with
    | none => simp [ht] at hx
    | some t =>
      simp only [ht] at hx
      obtain rfl := Except.ok.inj hx
      exact .escaped (PyText.ofText_of_toText? ht).symm

/-- Every id that passes the check has a local name. -/
theorem localStorageIdName_of_valid (hs : IsComponent s)
    (hlength : s.length ≤ maxStorageIdentifierLength) :
    ∃ x, localStorageIdName (.str s : Json PyText φ) = .ok x := by
  have hvalid : validateSingleComponent "storage_id"
      { maxLength := some maxStorageIdentifierLength } (.str s : Json PyText φ) = .ok s :=
    validateSingleComponent_eq_ok.2
      ⟨rfl, hs, nofun, fun m hm => Option.some.inj hm ▸ hlength, nofun⟩
  obtain ⟨t, rfl⟩ := exists_text hs.no_control
  by_cases hid : PyText.ofText t ≠ [] ∧ (PyText.ofText t).all isPocketBaseIdChar = true
  · refine ⟨.ofText t, ?_⟩
    rw [localStorageIdName, hvalid, Failing.ok_bind, if_pos hid]
  · refine ⟨.ofText (localStorageIdEscapePrefix ++ (Text.encodeUtf8 t).flatMap hexByte), ?_⟩
    rw [localStorageIdName, hvalid, Failing.ok_bind, if_neg hid, PyText.toText?_ofText]

theorem isPocketBaseIdChar_hexByte {b : UInt8} {c : Char} (h : c ∈ hexByte b) :
    isPocketBaseIdChar (.scalar c) = true := by
  have hdigit : ∀ n < 16, isPocketBaseIdChar (.scalar (Nat.digitChar n)) = true := by decide
  have hlt := b.toNat_lt
  rcases List.mem_cons.1 h with rfl | h
  · exact hdigit _ (by omega)
  · rw [List.mem_singleton.1 h]
    exact hdigit _ (by omega)

theorem isPocketBaseIdChar_prefix :
    ∀ c ∈ localStorageIdEscapePrefix, isPocketBaseIdChar (.scalar c) = true := by decide

/-- Local names are lower-case. -/
theorem LocalName.isPocketBaseIdChar (h : LocalName s x) : ∀ c ∈ x, isPocketBaseIdChar c = true := by
  cases h with
  | verbatim h => exact h
  | escaped hs =>
    intro c hc
    obtain ⟨d, hd, rfl⟩ := List.mem_map.1 hc
    rcases List.mem_append.1 hd with hd | hd
    · exact isPocketBaseIdChar_prefix d hd
    · obtain ⟨b, -, hb⟩ := List.mem_flatMap.1 hd
      exact isPocketBaseIdChar_hexByte hb

theorem LocalName.length (h : LocalName s x) (hs : s.length ≤ maxStorageIdentifierLength) :
    x.length ≤ 144 := by
  cases h with
  | verbatim h => exact hs.trans (by decide)
  | @escaped t hs' =>
    subst hs'
    have hbytes := length_encodeUtf8_le t
    have hprefix : localStorageIdEscapePrefix.length = 24 := by decide
    rw [PyText.ofText, List.length_map] at hs ⊢
    rw [List.length_append, length_flatMap_hexByte, hprefix]
    unfold maxStorageIdentifierLength at hs
    omega

/-- The two kinds of local names have nothing in common. -/
theorem LocalName.injective {s' : PyText} (h : LocalName s x) (h' : LocalName s' x)
    (hs : s.length ≤ maxStorageIdentifierLength) (hs' : s'.length ≤ maxStorageIdentifierLength) :
    s = s' := by
  have hlong : ∀ b : List UInt8, maxStorageIdentifierLength <
      (PyText.ofText (localStorageIdEscapePrefix ++ b.flatMap hexByte)).length := fun b => by
    have hprefix : localStorageIdEscapePrefix.length = 24 := by decide
    rw [PyText.ofText, List.length_map, List.length_append, hprefix, maxStorageIdentifierLength]
    omega
  generalize hx : x = y at h'
  cases h with
  | verbatim =>
    cases h' with
    | verbatim => exact hx
    | escaped => exact absurd (hx ▸ hs) (hlong _).not_ge
  | escaped ht =>
    cases h' with
    | verbatim => exact absurd (hx.symm ▸ hs') (hlong _).not_ge
    | escaped ht' =>
      rw [ht, ht', Text.encodeUtf8_injective (flatMap_hexByte_injective (List.append_cancel_left
        (PyText.ofText_injective hx)))]

/-! ## How file systems compare names -/

/-- How a file system tells the names in a folder apart : two are one if their keys are. The key may
fold case and normalise, which changes nothing but the case of letters, digits and underscores of
ASCII. -/
structure NameComparison where
  key : PyText → PyText
  key_ident : ∀ s : Text, (∀ c ∈ s, Text.isIdentChar c = true) → ∃ k : Text,
    key (.ofText s) = .ofText k ∧ (∀ c ∈ k, Text.isIdentChar c = true) ∧ Text.lower k = Text.lower s

/-- Names as they are. -/
def NameComparison.exact : NameComparison := ⟨id, fun s h => ⟨s, rfl, h, rfl⟩⟩

/-- Names by one comparison, and the keys by another. -/
def NameComparison.comp (first second : NameComparison) : NameComparison where
  key s := second.key (first.key s)
  key_ident s hs := by
    obtain ⟨k, hkey, hk, hlower⟩ := first.key_ident s hs
    obtain ⟨k', hkey', hk', hlower'⟩ := second.key_ident k hk
    exact ⟨k', hkey ▸ hkey', hk', hlower'.trans hlower⟩

/-- `c.upper()` of an ASCII character. -/
def upperCodePoint : CodePoint → CodePoint
  | .scalar c => .scalar c.toUpper
  | .surrogate n => .surrogate n

theorem toUpper_of_isIdentChar {c : Char} (h : Text.isIdentChar c = true) :
    Text.isIdentChar c.toUpper = true ∧ c.toUpper.toLower = c.toLower := by
  have hall : ∀ n : Fin 127, Text.isIdentChar (Char.ofNat n) = true →
      Text.isIdentChar (Char.ofNat n).toUpper = true ∧
        (Char.ofNat n).toUpper.toLower = (Char.ofNat n).toLower := by decide
  have hc := hall ⟨c.toNat, Nat.lt_succ_of_le (Text.printable_of_isIdentChar h).2⟩
  rw [Char.ofNat_toNat] at hc
  exact hc h

/-- Names that differ in the case of ASCII letters are one. -/
def NameComparison.ignoreCase : NameComparison where
  key s := s.map upperCodePoint
  key_ident s hs := by
    refine ⟨s.map Char.toUpper, ?_, fun c hc => ?_, ?_⟩
    · rw [PyText.ofText, PyText.ofText, List.map_map, List.map_map]
      rfl
    · obtain ⟨d, hd, rfl⟩ := List.mem_map.1 hc
      exact (toUpper_of_isIdentChar (hs d hd)).1
    · rw [Text.lower, List.map_map, Text.lower]
      exact List.map_congr_left fun c hc => (toUpper_of_isIdentChar (hs c hc)).2

theorem lower_of_isPocketBaseIdChar {c : Char} (h : isPocketBaseIdChar (.scalar c) = true) :
    Text.isIdentChar c = true ∧ c.toLower = c := by
  have hident : Text.isIdentChar c = true := by
    simp only [isPocketBaseIdChar, Bool.or_eq_true, decide_eq_true_eq] at h
    rcases h with (rfl | h) | h
    · decide
    · have halpha : c.isAlpha = true := Bool.or_eq_true _ _ ▸ .inr h
      simp [Text.isIdentChar, Text.isIdentStart, halpha]
    · simp [Text.isIdentChar, h]
  have hall : ∀ n : Fin 127, isPocketBaseIdChar (.scalar (Char.ofNat n)) = true →
      (Char.ofNat n).toLower = Char.ofNat n := by decide
  have hc := hall ⟨c.toNat, Nat.lt_succ_of_le (Text.printable_of_isIdentChar hident).2⟩
  rw [Char.ofNat_toNat] at hc
  exact ⟨hident, hc h⟩

/-- Lower-case names are told apart. -/
theorem NameComparison.key_injective (fs : NameComparison) {s : Text}
    (hs : ∀ c ∈ s, isPocketBaseIdChar (.scalar c) = true)
    (ht : ∀ c ∈ t, isPocketBaseIdChar (.scalar c) = true)
    (h : fs.key (.ofText s) = fs.key (.ofText t)) : s = t := by
  have hlower : ∀ {u : Text}, (∀ c ∈ u, isPocketBaseIdChar (.scalar c) = true) →
      Text.lower u = u := fun {u} hu => by
    calc Text.lower u = u.map id :=
          List.map_congr_left fun c hc => (lower_of_isPocketBaseIdChar (hu c hc)).2
      _ = u := List.map_id u
  obtain ⟨k, hkey, -, hk⟩ := fs.key_ident s fun c hc => (lower_of_isPocketBaseIdChar (hs c hc)).1
  obtain ⟨k', hkey', -, hk'⟩ := fs.key_ident t fun c hc => (lower_of_isPocketBaseIdChar (ht c hc)).1
  rw [hkey, hkey'] at h
  rw [← hlower hs, ← hlower ht, ← hk, ← hk', PyText.ofText_injective h]

/-! ## Distinct names -/

theorem LocalName.exists_text (h : LocalName s x) (hs : IsComponent s) :
    ∃ t : Text, x = .ofText t ∧ ∀ c ∈ t, StorageNames.isPocketBaseIdChar (.scalar c) = true := by
  have hx := h.isPocketBaseIdChar
  have htext : ∃ t : Text, x = .ofText t := by
    cases h with
    | verbatim => exact StorageNames.exists_text hs.no_control
    | escaped => exact ⟨_, rfl⟩
  obtain ⟨t, rfl⟩ := htext
  exact ⟨t, rfl, fun c hc => hx _ (List.mem_map_of_mem hc)⟩

theorem isPlain_of_isPocketBaseIdChar (h : isPocketBaseIdChar c = true) :
    isPlain c = true ∧ c ≠ .scalar '.' := by
  cases c with
  | surrogate n => cases h
  | scalar d =>
    refine ⟨by simp [isPlain, (lower_of_isPocketBaseIdChar h).1], ?_⟩
    rintro hd
    cases CodePoint.scalar.inj hd
    revert h
    decide

theorem LocalName.isComponent (h : LocalName s x) (hs : IsComponent s) : IsComponent x := by
  have hx := h.isPocketBaseIdChar
  have hne : x ≠ [] := by
    cases h with
    | verbatim => exact hs.ne_nil
    | escaped =>
      rw [PyText.ofText, List.map_append]
      exact List.append_ne_nil_of_left_ne_nil (by decide) _
  obtain ⟨c, hc⟩ := List.exists_mem_of_ne_nil x hne
  exact isComponent_of_plain (fun d hd => (isPlain_of_isPocketBaseIdChar (hx d hd)).1) hc
    (isPlain_of_isPocketBaseIdChar (hx c hc)).2

theorem append_cons_injective {α : Type*} {sep : α} : ∀ {a a' b b' : List α}, sep ∉ a → sep ∉ a' →
    a ++ sep :: b = a' ++ sep :: b' → a = a' ∧ b = b'
  | [], [], b, b', _, _, h => ⟨rfl, (List.cons.inj h).2⟩
  | [], x :: a', b, b', _, ha', h =>
    absurd (List.cons.inj h).1 fun hx => ha' (hx ▸ List.mem_cons_self)
  | x :: a, [], b, b', ha, _, h =>
    absurd (List.cons.inj h).1 fun hx => ha (hx ▸ List.mem_cons_self)
  | x :: a, y :: a', b, b', ha, ha', h => by
    obtain ⟨rfl, htail⟩ := List.cons.inj h
    obtain ⟨rfl, rfl⟩ := append_cons_injective (fun h => ha (List.mem_cons_of_mem _ h))
      (fun h => ha' (List.mem_cons_of_mem _ h)) htail
    exact ⟨rfl, rfl⟩

theorem storageObjectKey_eq_ok {c r f : Json PyText φ} {key : PyText} :
    storageObjectKey c r f = .ok key ↔ ∃ c' r' f', validateCollectionId c = .ok c' ∧
      validateRecordId r = .ok r' ∧ validateFileReference f = .ok f' ∧
        key = c' ++ .scalar '/' :: (r' ++ .scalar '/' :: f') := by
  simp only [storageObjectKey, Failing.bind_eq_ok]
  constructor
  · rintro ⟨c', hc, r', hr, f', hf, h⟩
    exact ⟨c', r', f', hc, hr, hf, (Except.ok.inj h).symm⟩
  · rintro ⟨c', r', f', hc, hr, hf, rfl⟩
    exact ⟨c', hc, r', hr, f', hf, rfl⟩

/-- Ids have names that are components of a path and are told apart by every file system, and files
have keys of their own. -/
theorem storage_names_injective_confined (fs : NameComparison) :
    (∀ v : Json PyText φ,
      (∃ s, validateCollectionId v = .ok s) ∨ (∃ s, validateRecordId v = .ok s) →
        ∃ x, localStorageIdName v = .ok x) ∧
    (∀ (v : Json PyText φ) x, localStorageIdName v = .ok x →
      IsComponent x ∧ ∃ b, Encodes x b ∧ b.length ≤ 255) ∧
    (∀ (v w : Json PyText φ) x y, localStorageIdName v = .ok x → localStorageIdName w = .ok y →
      fs.key x = fs.key y → v = w) ∧
    (∀ c r f : Json PyText φ, (∃ s, validateCollectionId c = .ok s) →
      (∃ s, validateRecordId r = .ok s) → (∃ s, validateFileReference f = .ok s) →
        ∃ key, storageObjectKey c r f = .ok key) ∧
    ∀ (c r f c' r' f' : Json PyText φ) key, storageObjectKey c r f = .ok key →
      storageObjectKey c' r' f' = .ok key → c = c' ∧ r = r' ∧ f = f' := by
  refine ⟨fun v hv => ?_, fun v x hx => ?_, fun v w x y hx hy hkey => ?_, ?_, ?_⟩
  · have hvalid : ∃ label s, validateSingleComponent label
        { maxLength := some maxStorageIdentifierLength } v = .ok s := by
      rcases hv with ⟨s, hs⟩ | ⟨s, hs⟩
      · exact ⟨_, s, hs⟩
      · exact ⟨_, s, hs⟩
    obtain ⟨label, s, hs⟩ := hvalid
    obtain ⟨rfl, hcomponent, -, hlength, -⟩ := validateSingleComponent_eq_ok.1 hs
    exact localStorageIdName_of_valid hcomponent (hlength _ rfl)
  · obtain ⟨s, rfl, hs, hlength, hname⟩ := localStorageIdName_eq_ok hx
    obtain ⟨b, hb, hbytes⟩ := encodes_of_plain fun c hc =>
      (isPlain_of_isPocketBaseIdChar (hname.isPocketBaseIdChar c hc)).1
    have hshort := hname.length hlength
    exact ⟨hname.isComponent hs, b, hb, by omega⟩
  · obtain ⟨s, rfl, hs, hlength, hname⟩ := localStorageIdName_eq_ok hx
    obtain ⟨s', rfl, hs', hlength', hname'⟩ := localStorageIdName_eq_ok hy
    obtain ⟨t, rfl, ht⟩ := hname.exists_text hs
    obtain ⟨t', rfl, ht'⟩ := hname'.exists_text hs'
    rw [fs.key_injective ht ht' hkey] at hname
    rw [hname.injective hname' hlength hlength']
  · rintro c r f ⟨c', hc⟩ ⟨r', hr⟩ ⟨f', hf⟩
    exact ⟨_, storageObjectKey_eq_ok.2 ⟨c', r', f', hc, hr, hf, rfl⟩⟩
  · intro c r f c' r' f' key h h'
    obtain ⟨_, _, _, hc, hr, hf, rfl⟩ := storageObjectKey_eq_ok.1 h
    obtain ⟨_, _, _, hc', hr', hf', heq⟩ := storageObjectKey_eq_ok.1 h'
    obtain ⟨rfl, hc, -⟩ := validateSingleComponent_eq_ok.1 hc
    obtain ⟨rfl, hr, -⟩ := validateSingleComponent_eq_ok.1 hr
    obtain ⟨rfl, -⟩ := validateSingleComponent_eq_ok.1 hf
    obtain ⟨rfl, hc', -⟩ := validateSingleComponent_eq_ok.1 hc'
    obtain ⟨rfl, hr', -⟩ := validateSingleComponent_eq_ok.1 hr'
    obtain ⟨rfl, -⟩ := validateSingleComponent_eq_ok.1 hf'
    obtain ⟨rfl, htail⟩ := append_cons_injective hc.no_slash hc'.no_slash heq
    obtain ⟨rfl, rfl⟩ := append_cons_injective hr.no_slash hr'.no_slash htail
    exact ⟨rfl, rfl, rfl⟩

end StorageNames

end PPBase
