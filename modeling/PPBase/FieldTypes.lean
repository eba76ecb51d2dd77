import Mathlib.Algebra.Order.Floor.Ring
import Mathlib.Data.List.Infix
import Mathlib.Data.Rat.Floor
import PPBase.Failing
import PPBase.Json
import PPBase.Schema
import PPBase.Storage

/-!
# Validation of field values

`validate_field_value` checks a value against a field definition and returns what is stored. The
values are those that a JSON text can hold, and datetimes; the options of a definition are any JSON
values. A validator returns a value, raises a `FieldValidationError`, or lets another exception of
Python escape (`Raised`). What the validators use of Python beyond lists and comparisons is a
`Python φ`, where `φ` are the floats.
-/

namespace PPBase

namespace FieldTypes

/-! ## Python's values -/

/-- The exceptions that are told apart. -/
inductive PyError
  | typeError | valueError | overflowError | recursionError | unicodeEncodeError | attributeError
  | regexError
  deriving DecidableEq

/-- A `datetime` : microseconds of its clock, less the offset from UTC where it has one. -/
structure DateTime where
  micros : ℤ
  aware : Bool
  deriving DecidableEq

/-- `a < b`, which is not defined between a naive and an aware datetime. -/
def DateTime.lt (a b : DateTime) : Except PyError Bool :=
  if a.aware = b.aware then .ok (decide (a.micros < b.micros)) else .error .typeError

/-- What number a float is. -/
inductive FloatKind
  | nan
  | inf (negative : Bool)
  | finite (q : ℚ)
  deriving DecidableEq

/-- `x < y` -/
def FloatKind.lt : FloatKind → FloatKind → Bool
  | .nan, _ | _, .nan => false
  | .finite p, .finite q => decide (p < q)
  | .inf a, .inf b => a && !b
  | .inf a, .finite _ => a
  | .finite _, .inf b => !b

/-- A rational number without its fraction. -/
def trunc (q : ℚ) : ℤ := if 0 ≤ q then ⌊q⌋ else ⌈q⌉

/-- A JSON value in memory. -/
abbrev JsonValue (φ : Type) := Json PyText φ

inductive PyValue (φ : Type)
  | json (v : JsonValue φ)
  | datetime (t : DateTime)

/-- What the validators use of Python. -/
structure Python (φ : Type) where
  /-- `0.0` -/
  zero : φ
  kind : φ → FloatKind
  /-- `float(i)`, or an `OverflowError`. -/
  ofInt : ℤ → Option φ
  /-- `float(s)`, or a `ValueError`. -/
  ofText : PyText → Option φ
  add : φ → φ → φ
  sub : φ → φ → φ
  reprFloat : φ → PyText
  reprStr : PyText → PyText
  /-- How deep `repr` goes. -/
  recursionLimit : ℕ
  isSpace : CodePoint → Bool
  isDigit : CodePoint → Bool
  lower : PyText → PyText
  /-- `int(s)`, or a `ValueError`. -/
  parseInt : PyText → Option ℤ
  /-- `re.search(pattern, s)`, or an error of the pattern. -/
  search : PyText → PyText → Option Bool
  /-- `urlparse(s).hostname or ""`, and `""` if it raises. -/
  hostname : PyText → PyText
  /-- The scheme and the network location of `urlsplit(s)`, or a `ValueError`. -/
  urlsplit : PyText → Option (PyText × PyText)
  /-- `datetime.fromisoformat(s)`, or a `ValueError`. -/
  fromIsoFormat : PyText → Option DateTime
  reprDateTime : DateTime → PyText
  /-- `t.strftime("%Y-%m-%d %H:%M:%S.")` with milliseconds and a `Z`. -/
  formatDateTime : DateTime → PyText
  loads : PyText → Except PyError (JsonValue φ)
  /-- `json.dumps(v, separators=(",", ":"))`, which is ASCII. -/
  dumps : JsonValue φ → Except PyError Text
  kind_zero : kind zero = .finite 0
  ofInt_trunc : ∀ x q, kind x = .finite q →
    ∃ y, ofInt (trunc q) = some y ∧ kind y = .finite (trunc q)
  reprFloat_ne_nil : ∀ x, reprFloat x ≠ []
  reprDateTime_ne_nil : ∀ t, reprDateTime t ≠ []
  length_reprStr : ∀ s, s.length + 2 ≤ (reprStr s).length
  length_loads : ∀ s t, loads s = .ok (.str t) → t.length < s.length

/-- A text that the source spells out. -/
def lit (s : String) : PyText := PyText.ofText s.toList

section

variable {φ : Type} (P : Python φ)

/-- The number of decimal digits that `str` and `int` convert. -/
def maxStrDigits : ℕ := 4300

/-- `str(i)` -/
def strInt (i : ℤ) : Except PyError PyText :=
  if i.natAbs < 10 ^ maxStrDigits then .ok (PyText.ofText (Json.intText i)) else .error .valueError

mutual

/-- `repr(v)`, at most `depth` containers deep. -/
def repr (depth : ℕ) : JsonValue φ → Except PyError PyText
  | .null => .ok (lit "None")
  | .bool true => .ok (lit "True")
  | .bool false => .ok (lit "False")
  | .int i => strInt i
  | .float x => .ok (P.reprFloat x)
  | .str s => .ok (P.reprStr s)
  | .arr xs =>
    if depth = 0 then .error .recursionError
    else do
      let items ← reprItems (depth - 1) xs
      .ok (lit "[" ++ (lit ", ").intercalate items ++ lit "]")
  | .obj ms =>
    if depth = 0 then .error .recursionError
    else do
      let members ← reprMembers (depth - 1) ms
      .ok (lit "\x7b" ++ (lit ", ").intercalate members ++ lit "\x7d")

def reprItems (depth : ℕ) : List (JsonValue φ) → Except PyError (List PyText)
  | [] => .ok []
  | x :: xs => do
    let item ← repr depth x
    let items ← reprItems depth xs
    .ok (item :: items)

def reprMembers (depth : ℕ) : List (PyText × JsonValue φ) → Except PyError (List PyText)
  | [] => .ok []
  | (k, x) :: ms => do
    let member ← repr depth x
    let members ← reprMembers depth ms
    .ok ((P.reprStr k ++ lit ": " ++ member) :: members)

end

/-- `str(v)` -/
def strJson : JsonValue φ → Except PyError PyText
  | .str s => .ok s
  | v => repr P P.recursionLimit v

def str : PyValue φ → Except PyError PyText
  | .json v => strJson P v
  | .datetime t => .ok (P.reprDateTime t)

/-- `bool(v)` -/
def truthyJson : JsonValue φ → Bool
  | .null => false
  | .bool b => b
  | .int i => i ≠ 0
  | .float x => P.kind x ≠ .finite 0
  | .str s => !s.isEmpty
  | .arr xs => !xs.isEmpty
  | .obj ms => !ms.isEmpty

def truthy : PyValue φ → Bool
  | .json v => truthyJson P v
  | .datetime _ => true

/-- `v.strip()` -/
def strip (s : PyText) : PyText :=
  ((s.dropWhile P.isSpace).reverse.dropWhile P.isSpace).reverse

/-- `int(v)` -/
def toInt : JsonValue φ → Except PyError ℤ
  | .bool b => .ok (if b then 1 else 0)
  | .int i => .ok i
  | .float x =>
    match P.kind x with
    | .finite q => .ok (trunc q)
    | .nan => .error .valueError
    | .inf _ => .error .overflowError
  | .str s =>
    match P.parseInt s with
    | some i => .ok i
    | none => .error .valueError
  | _ => .error .typeError

def intToFloat (i : ℤ) : Except PyError φ :=
  match P.ofInt i with
  | some x => .ok x
  | none => .error .overflowError

/-- `float(v)` -/
def toFloat : JsonValue φ → Except PyError φ
  | .bool b => intToFloat P (if b then 1 else 0)
  | .int i => intToFloat P i
  | .float x => .ok x
  | .str s =>
    match P.ofText s with
    | some x => .ok x
    | none => .error .valueError
  | _ => .error .typeError

/-- `len(s.encode())` -/
def encodedLength (s : PyText) : Except PyError ℕ :=
  match PyText.toText? s with
  | some t => .ok (t.map Char.utf8Size).sum
  | none => .error .unicodeEncodeError

/-- `v in container` -/
def isIn (s : PyText) : JsonValue φ → Except PyError Bool
  | .arr xs => .ok (xs.any fun x => match x with | .str t => t = s | _ => false)
  | .str t => .ok (decide (s <:+: t))
  | .obj ms => .ok (Dict.has ms s)
  | _ => .error .typeError

/-- `m > n` for a number `m`. -/
def isMoreThan (m : JsonValue φ) (n : ℤ) : Except PyError Bool :=
  match m with
  | .bool b => .ok (decide (n < if b then 1 else 0))
  | .int i => .ok (decide (n < i))
  | .float x => .ok (FloatKind.lt (.finite n) (P.kind x))
  | _ => .error .typeError

/-- `n > m` for a number `m`. -/
def isLessThan (m : JsonValue φ) (n : ℤ) : Except PyError Bool :=
  match m with
  | .bool b => .ok (decide ((if b then 1 else 0) < n))
  | .int i => .ok (decide (i < n))
  | .float x => .ok (FloatKind.lt (P.kind x) (.finite n))
  | _ => .error .typeError

/-- The texts that an iteration gives, where `lower` is called on each. -/
def iterTexts : JsonValue φ → Except PyError (List PyText)
  | .arr xs => xs.mapM fun x =>
    match x with
    | .str s => .ok s
    | _ => .error .attributeError
  | .str s => .ok (s.map fun c => [c])
  | .obj ms => .ok (ms.map Prod.fst)
  | _ => .error .typeError

end

/-! ## Field definitions -/

/-- `FieldDefinition` -/
structure FieldDefinition (φ : Type) where
  name : PyText
  type : FieldType
  required : Bool := false
  options : Dict PyText (JsonValue φ) := []

/-- What a validator raises. -/
inductive Raised
  | field (name code message : PyText)
  | other (e : PyError)
  deriving DecidableEq

/-- A call whose exceptions are not caught. -/
def call {α : Type} (x : Except PyError α) : Except Raised α := x.mapError .other

theorem call_eq_ok {α : Type} {x : Except PyError α} {a : α} : call x = .ok a ↔ x = .ok a :=
  Failing.mapError_eq_ok

namespace FieldDefinition

variable {φ : Type} (P : Python φ) (f : FieldDefinition φ)

/-- `opts.get(key, default)` -/
def option (key : String) (default : JsonValue φ := .null) : JsonValue φ :=
  (f.options.get? (lit key)).getD default

/-- `opts.get(key, default) or default` -/
def optionOr (key : String) (default : JsonValue φ) : JsonValue φ :=
  let v := f.option key default
  if truthyJson P v then v else default

/-- `raise FieldValidationError(field.name, code, message)` -/
def raise {α : Type} (code message : String) : Except Raised α :=
  .error (.field f.name (lit code) (lit message))

/-- The same, with a message that shows an option. -/
def raiseWith {α : Type} (code before : String) (option : JsonValue φ) (after : String := "") :
    Except Raised α := do
  let shown ← call (strJson P option)
  .error (.field f.name (lit code) (lit before ++ shown ++ lit after))

/-- `raise FieldValidationError(field.name, "validation_required", "Cannot be blank.")` -/
def raiseRequired {α : Type} : Except Raised α := f.raise "validation_required" "Cannot be blank."

end FieldDefinition

section

variable {φ : Type} (P : Python φ) (f : FieldDefinition φ)

/-- `str(value) if value is not None else ""` -/
def strOrEmpty : PyValue φ → Except PyError PyText
  | .json .null => .ok []
  | v => str P v

/-- A check against `int(option)`, unless the option is none. -/
def checkBound (option : JsonValue φ) (fails : ℤ → Bool) (code before after : String) :
    Except Raised Unit :=
  match option with
  | .null => .ok ()
  | option => do
    let bound ← call (toInt P option)
    if fails bound then f.raiseWith P code before option after else .ok ()

/-- `re.search(pattern, val)` -/
def searchPattern (pattern : JsonValue φ) (s : PyText) : Except PyError Bool :=
  match pattern with
  | .str p =>
    match P.search p s with
    | some b => .ok b
    | none => .error .regexError
  | _ => .error .typeError

/-- The check of an optional pattern. -/
def checkPattern (pattern : JsonValue φ) (s : PyText) : Except Raised Unit :=
  if truthyJson P pattern then do
    let found ← call (searchPattern P pattern s)
    if found then .ok ()
    else f.raiseWith P "validation_invalid_format" "Must match pattern: " pattern
  else .ok ()

/-- The checks that `_validate_text` and `_validate_password` share. -/
def validatePlain (min max : JsonValue φ) (v : PyValue φ) : Except Raised (PyValue φ) := do
  let s ← call (strOrEmpty P v)
  if s = [] then
    if f.required then f.raiseRequired else .ok (.json (.str s))
  else do
    checkBound P f min (fun n => decide ((s.length : ℤ) < n)) "validation_min_text_constraint"
      "Must be at least " " character(s)."
    checkBound P f max (fun n => decide (n < (s.length : ℤ))) "validation_max_text_constraint"
      "Must be at most " " character(s)."
    checkPattern P f (f.option "pattern") s
    .ok (.json (.str s))

/-- `_validate_text` -/
def validateText : PyValue φ → Except Raised (PyValue φ) :=
  validatePlain P f (f.option "min") (f.option "max")

/-- `_validate_password` -/
def validatePassword : PyValue φ → Except Raised (PyValue φ) :=
  validatePlain P f (f.option "min" (.int 8)) (f.option "max" (.int 71))

/-- `max_size in (None, "", 0)` -/
def isUnlimited : JsonValue φ → Bool
  | .null => true
  | .str s => s.isEmpty
  | .bool b => !b
  | .int i => i = 0
  | .float x => P.kind x = .finite 0
  | _ => false

/-- The check of a size in bytes. -/
def checkSize (size : Except PyError ℕ) : Except Raised Unit :=
  if isUnlimited P (f.option "maxSize") then .ok ()
  else do
    let size ← call size
    checkBound P f (f.option "maxSize") (fun n => decide (n < (size : ℤ)))
      "validation_max_size_constraint" "Must be at most " " byte(s)."

/-- `_validate_editor` -/
def validateEditor (v : PyValue φ) : Except Raised (PyValue φ) := do
  let s ← call (strOrEmpty P v)
  if s = [] then
    if f.required then f.raiseRequired else .ok (.json (.str s))
  else do
    checkSize P f (encodedLength s)
    .ok (.json (.str s))

/-- A text of white space only. -/
def isBlank : JsonValue φ → Bool
  | .str s => strip P s = []
  | _ => false

/-- The number that a value stands for. -/
def numberOf (v : PyValue φ) : Except Raised φ :=
  match v with
  | .json .null => .ok P.zero
  | .json v =>
    if isBlank P v then .ok P.zero
    else
      match toFloat P v with
      | .ok x => .ok x
      | .error .overflowError => .error (.other .overflowError)
      | .error _ => f.raise "validation_not_a_number" "Must be a valid number."
  | .datetime _ => f.raise "validation_not_a_number" "Must be a valid number."

/-- A check against `float(option)`, unless the option is none. -/
def checkLimit (option : JsonValue φ) (fails : FloatKind → Bool) (code before : String) :
    Except Raised Unit :=
  match option with
  | .null => .ok ()
  | option => do
    let limit ← call (toFloat P option)
    if fails (P.kind limit) then f.raiseWith P code before option "." else .ok ()

/-- The check of a number that has to be whole. -/
def checkWhole (onlyInt : Bool) (q : ℚ) : Except Raised Unit :=
  if onlyInt then do
    let whole ← call (intToFloat P (trunc q))
    if P.kind whole = .finite q then .ok ()
    else f.raise "validation_only_int" "Must be an integer value."
  else .ok ()

/-- `_validate_number` -/
def validateNumber (v : PyValue φ) : Except Raised (PyValue φ) := do
  let x ← numberOf P f v
  match P.kind x with
  | .nan | .inf _ => f.raise "validation_not_a_number" "NaN and Inf are not allowed."
  | .finite q =>
    let onlyInt := truthyJson P (f.option "onlyInt" (.bool false))
    if f.required ∧ q = 0 then f.raiseRequired
    else do
      checkWhole P f onlyInt q
      checkLimit P f (f.option "min") (fun n => FloatKind.lt (.finite q) n)
        "validation_min_number_constraint" "Must be >= "
      checkLimit P f (f.option "max") (fun n => FloatKind.lt n (.finite q))
        "validation_max_number_constraint" "Must be <= "
      .ok (.json (if onlyInt then .int (trunc q) else .float x))

/-- `_validate_bool` -/
def validateBool (v : PyValue φ) : Except Raised (PyValue φ) :=
  if f.required ∧ truthy P v = false then f.raise "validation_required" "Must be true."
  else .ok (.json (.bool (truthy P v)))

/-- `_EMAIL_RE.match(val)`, for a text without white space at its end. -/
def isEmail (s : PyText) : Bool :=
  let domain := ((s.dropWhile (· ≠ .scalar '@')).drop 1)
  let dot := CodePoint.scalar '.'
  decide (s.takeWhile (· ≠ .scalar '@') ≠ []) && !s.any P.isSpace &&
    !domain.contains (.scalar '@') && ((domain.drop 1).dropLast).contains dot

/-- `_URL_RE.match(val)`, for a text without white space at its end. The long s is an s when case
is ignored. -/
def isUrl (s : PyText) : Bool :=
  let rest := s.drop 4
  let rest :=
    if rest.head? ∈ [some (.scalar 's'), some (.scalar 'S'), some (.scalar 'ſ')] then rest.drop 1
    else rest
  decide ((s.take 4).map (fun c => c.scalar?.map Char.toLower) = "http".toList.map some) &&
    decide (rest.take 3 = lit "://") && decide (rest.drop 3 ≠ []) && !(rest.drop 3).any P.isSpace

/-- The check of a domain against `onlyDomains`. -/
def checkOnlyDomains (domain : PyText) (code what : String) : Except Raised Unit :=
  let onlyDomains := f.optionOr P "onlyDomains" (.arr [])
  if truthyJson P onlyDomains then do
    let texts ← call (iterTexts onlyDomains)
    if domain ∈ texts.map P.lower then .ok ()
    else .error (.field f.name (lit code)
      (lit what ++ lit " domain must be one of: " ++ (lit ", ").intercalate texts ++ lit "."))
  else .ok ()

/-- The check of a domain against `exceptDomains`. -/
def checkExceptDomains (domain : PyText) (code what : String) : Except Raised Unit :=
  let exceptDomains := f.optionOr P "exceptDomains" (.arr [])
  if truthyJson P exceptDomains then do
    let texts ← call (iterTexts exceptDomains)
    if domain ∈ texts.map P.lower then
      .error (.field f.name (lit code) (lit what ++ lit " domain is not allowed."))
    else .ok ()
  else .ok ()

/-- `_validate_email` and `_validate_url`, by the form of the text and the domain it has. -/
def validateAddress (isWellFormed : PyText → Bool) (domain : PyText → PyText)
    (code message domainCode what : String) (v : PyValue φ) : Except Raised (PyValue φ) := do
  let s ← call (strOrEmpty P v)
  let s := strip P s
  if s = [] then
    if f.required then f.raiseRequired else .ok (.json (.str s))
  else if isWellFormed s then do
    checkOnlyDomains P f (domain s) domainCode what
    checkExceptDomains P f (domain s) domainCode what
    .ok (.json (.str s))
  else f.raise code message

/-- `_validate_email` -/
def validateEmail : PyValue φ → Except Raised (PyValue φ) :=
  validateAddress P f (isEmail P)
    (fun s => P.lower (s.reverse.takeWhile (· ≠ .scalar '@')).reverse)
    "validation_invalid_email" "Must be a valid email address." "validation_invalid_email_domain"
    "Email"

/-- `_validate_url` -/
def validateUrl : PyValue φ → Except Raised (PyValue φ) :=
  validateAddress P f (isUrl P) (fun s => P.lower (P.hostname s)) "validation_invalid_url"
    "Must be a valid URL." "validation_invalid_url_domain" "URL"

/-- `datetime.fromisoformat(s.replace("Z", "+00:00"))` -/
def parseIso (s : PyText) : Except PyError DateTime :=
  match P.fromIsoFormat (s.flatMap fun c => if c = .scalar 'Z' then lit "+00:00" else [c]) with
  | some t => .ok t
  | none => .error .valueError

/-- A check against a date option, unless it is empty. -/
def checkDate (option : JsonValue φ) (fails : DateTime → Except PyError Bool)
    (code before : String) : Except Raised Unit :=
  if truthyJson P option then do
    let text ← call (strJson P option)
    let limit ← call (parseIso P text)
    let failed ← call (fails limit)
    if failed then f.raiseWith P code before option "." else .ok ()
  else .ok ()

/-- The datetime that a value stands for, if it is not blank. -/
def dateOf : PyValue φ → Except Raised (Option DateTime)
  | .datetime t => .ok (some t)
  | .json .null => .ok none
  | .json v => do
    let s ← call (strJson P v)
    if strip P s = [] then .ok none
    else
      match parseIso P (strip P s) with
      | .ok t => .ok (some t)
      | .error _ => f.raise "validation_invalid_date" "Must be a valid datetime string."

/-- `_validate_date` -/
def validateDate (v : PyValue φ) : Except Raised (PyValue φ) := do
  let date ← dateOf P f v
  match date with
  | none => if f.required then f.raiseRequired else .ok (.json .null)
  | some t => do
    checkDate P f (f.option "min") (fun limit => t.lt limit) "validation_min_date_constraint"
      "Must be >= "
    checkDate P f (f.option "max") (fun limit => limit.lt t) "validation_max_date_constraint"
      "Must be <= "
    .ok (.datetime t)

/-- `_validate_autodate` -/
def validateAutodate : PyValue φ → Except Raised (PyValue φ)
  | .datetime t => .ok (.json (.str (P.formatDateTime t)))
  | .json .null => .ok (.json (.str []))
  | .json v => do
    let s ← call (strJson P v)
    .ok (.json (.str s))

/-- `v not in seen`, for each member in turn. -/
def dedupe (s : List PyText) : List PyText :=
  s.foldl (fun unique v => if v ∈ unique then unique else unique ++ [v]) []

/-- The check of one value against `values`. -/
def checkAllowed (s : PyText) : Except Raised Unit :=
  let allowed := f.optionOr P "values" (.arr [])
  if truthyJson P allowed then do
    let found ← call (isIn s allowed)
    if found then .ok ()
    else .error (.field f.name (lit "validation_invalid_select_value")
      (lit "'" ++ s ++ lit "' is not an allowed value."))
  else .ok ()

/-- `opts.get("maxSelect", 1) or 1` -/
def maxSelect : JsonValue φ := f.optionOr P "maxSelect" (.int 1)

/-- The check of the number of values. -/
def checkCount (values : List PyText) (what : String) : Except Raised Unit := do
  let tooMany ← call (isLessThan P (maxSelect P f) values.length)
  if tooMany then
    f.raiseWith P "validation_max_select_constraint" "Must select at most " (maxSelect P f) what
  else .ok ()

/-- A list of texts as a value. -/
def texts (values : List PyText) : PyValue φ := .json (.arr (values.map .str))

/-- `[str(v) for v in value]`, or the text of one value. -/
def selectList : PyValue φ → Except PyError (List PyText)
  | .json .null => .ok []
  | .json (.arr xs) => xs.mapM (strJson P)
  | v => do
    let s ← str P v
    .ok [s]

/-- `_validate_select` -/
def validateSelect (v : PyValue φ) : Except Raised (PyValue φ) := do
  let isMulti ← call (isMoreThan P (maxSelect P f) 1)
  if isMulti then do
    let values ← call (selectList P v)
    if f.required ∧ values = [] then f.raiseRequired
    else do
      checkCount P f (dedupe values) " value(s)."
      (dedupe values).forM (checkAllowed P f)
      .ok (texts (dedupe values))
  else do
    let s ← call (strOrEmpty P v)
    if s = [] then
      if f.required then f.raiseRequired else .ok (.json (.str s))
    else do
      checkAllowed P f s
      .ok (.json (.str s))

/-- `[str(v) for v in raw if v]`, or the text of one value. -/
def textList : PyValue φ → Except PyError (List PyText)
  | .json (.arr xs) => (xs.filter (truthyJson P)).mapM (strJson P)
  | v =>
    if truthy P v then do
      let s ← str P v
      .ok [s]
    else .ok []

/-- `is_remote_file_reference` -/
def isRemote (s : PyText) : Bool :=
  match P.urlsplit s with
  | some (scheme, netloc) =>
    decide (P.lower scheme ∈ [lit "http", lit "https"]) && decide (netloc ≠ [])
  | none => false

/-- `validate_file_reference` -/
def isReference (s : PyText) : Bool := (PyText.toText? s).any Storage.isFileReference

/-- `validate_references` -/
def validateReferences (values : List PyText) : Except Raised (List PyText) :=
  if values.all fun s => isRemote P s || isReference s then .ok values
  else f.raise "validation_invalid_filename" "Must be a valid stored filename."

theorem all_references_iff {P : Python φ} {values : List PyText} :
    (values.all fun s => isRemote P s || isReference s) = true ↔
      ∀ s ∈ values, isRemote P s = true ∨ isReference s = true := by
  simp only [List.all_eq_true, Bool.or_eq_true]

/-- `_validate_file` -/
def validateFile (v : PyValue φ) : Except Raised (PyValue φ) := do
  let isMulti ← call (isMoreThan P (maxSelect P f) 1)
  let values ← call (textList P v)
  let values ← validateReferences P f values
  if isMulti then
    if f.required ∧ values = [] then f.raiseRequired
    else do
      checkCount P f values " file(s)."
      .ok (texts values)
  else if f.required ∧ values.getLastD [] = [] then f.raiseRequired
  else .ok (.json (.str (values.getLastD [])))

/-- `_validate_relation` -/
def validateRelation (v : PyValue φ) : Except Raised (PyValue φ) := do
  let isMulti ← call (isMoreThan P (maxSelect P f) 1)
  if isMulti then do
    let values ← call (textList P v)
    if f.required ∧ values = [] then f.raiseRequired
    else do
      checkCount P f values " relation(s)."
      .ok (texts values)
  else do
    let s ← call (strOrEmpty P v)
    if f.required ∧ s = [] then f.raiseRequired else .ok (.json (.str s))

/-- `may_be_json` -/
def mayBeJson (s : PyText) : Bool :=
  match s with
  | [] => false
  | c :: _ => decide (c ∈ (['"', '\x7b', '[', 't', 'f', 'n',
    '-'].map CodePoint.scalar)) || P.isDigit c

/-- The value that a text field of a form stands for. -/
def readJson : JsonValue φ → Except PyError (JsonValue φ)
  | .str s =>
    if mayBeJson P (strip P s) then
      match P.loads (strip P s) with
      | .ok v => .ok v
      | .error .typeError | .error .valueError => .ok (.str s)
      | .error e => .error e
    else .ok (.str s)
  | v => .ok v

/-- `_validate_json` -/
def validateJson : PyValue φ → Except Raised (PyValue φ)
  | .json .null => if f.required then f.raiseRequired else .ok (.json .null)
  | .json v => do
    let v ← call (readJson P v)
    checkSize P f ((P.dumps v).map fun t => (t.map Char.utf8Size).sum)
    .ok (.json v)
  | .datetime t => do
    checkSize P f (.error .typeError)
    .ok (.datetime t)

/-- A json field reads every value but null. -/
theorem validateJson_of_ne_null {P : Python φ} {f : FieldDefinition φ} {v : JsonValue φ}
    (hv : v ≠ .null) : validateJson P f (.json v) = (call (readJson P v) >>= fun r =>
      checkSize P f ((P.dumps r).map fun t => (t.map Char.utf8Size).sum) >>= fun _ =>
        .ok (.json r)) := by
  cases v with
  | null => exact absurd rfl hv
  | _ => rfl

/-- `float(value.get(key, 0))` -/
def coordinate (ms : List (PyText × JsonValue φ)) (key : String) : Except Raised φ :=
  match toFloat P ((Dict.get? ms (lit key)).getD (.int 0)) with
  | .ok x => .ok x
  | .error .overflowError => .error (.other .overflowError)
  | .error _ => f.raise "validation_invalid_geo_point" "\"lon\" and \"lat\" must be numbers."

/-- `-bound <= x <= bound` -/
def isWithin (bound : ℚ) : FloatKind → Bool
  | .finite q => decide (-bound ≤ q ∧ q ≤ bound)
  | _ => false

/-- `{"lon": lon, "lat": lat}` -/
def geoPoint (lon lat : φ) : PyValue φ :=
  .json (.obj [(lit "lon", .float lon), (lit "lat", .float lat)])

/-- `_validate_geo_point` -/
def validateGeoPoint : PyValue φ → Except Raised (PyValue φ)
  | .json .null => if f.required then f.raiseRequired else .ok (geoPoint P.zero P.zero)
  | .json (.obj ms) => do
    let lon ← coordinate P f ms "lon"
    let lat ← coordinate P f ms "lat"
    if !isWithin 180 (P.kind lon) then
      f.raise "validation_invalid_geo_point" "\"lon\" must be between -180 and 180."
    else if !isWithin 90 (P.kind lat) then
      f.raise "validation_invalid_geo_point" "\"lat\" must be between -90 and 90."
    else if f.required ∧ P.kind lon = .finite 0 ∧ P.kind lat = .finite 0 then
      f.raise "validation_required" "A non-zero coordinate is required."
    else .ok (geoPoint lon lat)
  | _ => f.raise "validation_invalid_geo_point" "Must be an object with \"lon\" and \"lat\" keys."

/-- `validate_field_value` -/
def validateFieldValue (v : PyValue φ) : Except Raised (PyValue φ) :=
  match f.type with
  | .text => validateText P f v
  | .editor => validateEditor P f v
  | .number => validateNumber P f v
  | .bool => validateBool P f v
  | .email => validateEmail P f v
  | .url => validateUrl P f v
  | .date => validateDate P f v
  | .autodate => validateAutodate P v
  | .select => validateSelect P f v
  | .file => validateFile P f v
  | .relation => validateRelation P f v
  | .json => validateJson P f v
  | .password => validatePassword P f v
  | .geoPoint => validateGeoPoint P f v

end

/-! ## A plain Python -/

/-- A bound that all doubles keep. -/
def doubleBound : ℚ := 2 ^ 1024

/-- The numbers below the bound, without a loss of digits. -/
abbrev PlainFloat := { q : ℚ // |q| < doubleBound }

namespace PlainFloat

def ofRat? (q : ℚ) : Option PlainFloat := if h : |q| < doubleBound then some ⟨q, h⟩ else none

def zero : PlainFloat := ⟨0, by norm_num [doubleBound]⟩

end PlainFloat

theorem abs_trunc_le (q : ℚ) : |(trunc q : ℚ)| ≤ |q| := by
  unfold trunc
  split_ifs with hq
  · have hfloor : (0 : ℚ) ≤ (⌊q⌋ : ℚ) := by exact_mod_cast Int.floor_nonneg.2 hq
    rw [abs_of_nonneg hq, abs_of_nonneg hfloor]
    exact Int.floor_le q
  · have hceil : ((⌈q⌉ : ℤ) : ℚ) ≤ 0 := by exact_mod_cast Int.ceil_nonpos.2 (not_le.1 hq).le
    rw [abs_of_neg (not_le.1 hq), abs_of_nonpos hceil]
    exact neg_le_neg (Int.le_ceil q)

namespace Python

/-- The decimal digits of a text, as a number. -/
def digits? (s : PyText) : Option ℕ :=
  if s ≠ [] ∧ s.all fun c => (c.scalar?.map Char.isDigit).getD false then
    some (s.foldl (fun n c => 10 * n + ((c.scalar?.map Char.toNat).getD 0 - '0'.toNat)) 0)
  else none

/-- A text in quotes, without quotes or backslashes in it. -/
def unquote? (s : PyText) : Option PyText :=
  match s with
  | .scalar '"' :: s =>
    if s.getLast? = some (.scalar '"') ∧ CodePoint.scalar '"' ∉ s.dropLast ∧
        CodePoint.scalar '\\' ∉ s.dropLast then some s.dropLast
    else none
  | _ => none

/-- `json.loads` of texts in quotes, decimal digits and the constants. -/
def plainLoads (s : PyText) : Except PyError (JsonValue PlainFloat) :=
  match unquote? s with
  | some t => .ok (.str t)
  | none =>
    if s = lit "null" then .ok .null
    else if s = lit "true" then .ok (.bool true)
    else if s = lit "false" then .ok (.bool false)
    else
      match digits? s with
      | some n => .ok (.int n)
      | none => .error .valueError

theorem length_unquote? {s t : PyText} (h : unquote? s = some t) : t.length < s.length := by
  unfold unquote? at h
  split at h
  · split_ifs at h
    obtain rfl := Option.some.inj h
    rw [List.length_dropLast, List.length_cons]
    omega
  · cases h

/-- A Python for whole numbers and plain texts. -/
def plain : Python PlainFloat where
  zero := PlainFloat.zero
  kind x := .finite x.1
  ofInt i := PlainFloat.ofRat? i
  ofText s := (digits? s).bind fun n => PlainFloat.ofRat? n
  add x y := (PlainFloat.ofRat? (x.1 + y.1)).getD PlainFloat.zero
  sub x y := (PlainFloat.ofRat? (x.1 - y.1)).getD PlainFloat.zero
  reprFloat x := PyText.ofText (Json.intText (trunc x.1)) ++ lit ".0"
  reprStr s := lit "'" ++ s ++ lit "'"
  recursionLimit := 1000
  isSpace c := (c.scalar?.map Text.isSpace).getD false
  isDigit c := (c.scalar?.map Char.isDigit).getD false
  lower s := s.map fun c => match c with | .scalar c => .scalar c.toLower | c => c
  parseInt s := (digits? s).map Int.ofNat
  search pattern s := some (decide (pattern <:+: s))
  hostname _ := []
  urlsplit _ := some ([], [])
  fromIsoFormat _ := none
  reprDateTime t := PyText.ofText (Json.intText t.micros)
  formatDateTime t := PyText.ofText (Json.intText t.micros)
  loads := plainLoads
  dumps _ := .error .valueError
  kind_zero := rfl
  ofInt_trunc x q h := by
    obtain rfl := FloatKind.finite.inj h
    have hlt : |((trunc x.1 : ℤ) : ℚ)| < doubleBound := (abs_trunc_le x.1).trans_lt x.2
    exact ⟨⟨_, hlt⟩, dif_pos hlt, rfl⟩
  reprFloat_ne_nil x := by simp [lit, PyText.ofText]
  reprDateTime_ne_nil t := by
    cases t.micros with
    | ofNat n => exact mt List.map_eq_nil_iff.1 Nat.toDigits_ne_nil
    | negSucc n => exact List.cons_ne_nil _ _
  length_reprStr s := by simp [lit, PyText.ofText]
  length_loads s t h := by
    unfold plainLoads at h
    split at h
    · rename_i u hu
      obtain rfl := Json.str.inj (Except.ok.inj h)
      exact length_unquote? hu
    · split_ifs at h
      · cases h
      · cases h
      · cases h
      · split at h <;> cases h

end Python

end FieldTypes

end PPBase
