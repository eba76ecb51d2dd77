import PPBase.Text
import Mathlib.Data.Int.Basic

/-!
# JSON texts

A `Json σ φ` is a JSON value with strings in `σ` and fractional numbers in `φ`. `write` gives the
compact text of a value without fractional numbers, and `loads` reads a text, with JSON's white
space, escapes and number forms and Python's constants `NaN` and `Infinity`. What becomes of
numbers, of constants and of the members of an object is up to the `Hooks` of the reader.

A string that has been read may hold halves of surrogate pairs, which no text can
(`CodePoint`, `PyText`).
-/

namespace PPBase

/-- A character of a string in memory : a scalar value, or half of a surrogate pair. -/
inductive CodePoint
  | scalar (c : Char)
  | surrogate (n : Fin 0x800)
  deriving DecidableEq

/-- A string in memory. -/
abbrev PyText := List CodePoint

instance : LawfulBEq PyText := List.instLawfulBEq

namespace CodePoint

/-- `chr(n)` for four hexadecimal digits. -/
def ofNat (n : ℕ) : CodePoint :=
  if h : 0xD800 ≤ n ∧ n < 0xE000 then .surrogate ⟨n - 0xD800, by omega⟩
  else .scalar (Char.ofNat n)

def scalar? : CodePoint → Option Char
  | .scalar c => some c
  | .surrogate _ => none

end CodePoint

namespace PyText

def ofText (t : Text) : PyText := t.map .scalar

/-- The text of a string without surrogates : those are what UTF-8 cannot encode. -/
def toText? : PyText → Option Text
  | [] => some []
  | c :: s =>
    match c.scalar?, toText? s with
    | some c, some t => some (c :: t)
    | _, _ => none

theorem toText?_ofText (t : Text) : toText? (ofText t) = some t := by
  induction t with
  | nil => rfl
  | cons c t ih =>
    show (match some c, toText? (ofText t) with
      | some c, some t => some (c :: t)
      | _, _ => none) = some (c :: t)
    rw [ih]

theorem ofText_of_toText? {s : PyText} {t : Text} (h : toText? s = some t) : ofText t = s := by
  induction s generalizing t with
  | nil => cases h; rfl
  | cons c s ih =>
    rw [toText?] at h
    split at h
    · rename_i d u hd hu
      cases h
      cases c with
      | scalar e =>
        cases hd
        exact congrArg _ (ih hu)
      | surrogate n => cases hd
    · cases h

theorem ofText_injective {s t : Text} (h : ofText s = ofText t) : s = t :=
  Option.some.inj <| by rw [← toText?_ofText s, h, toText?_ofText]

/-- One half of a pair before what follows it. -/
def pairUp : CodePoint → PyText → PyText
  | .surrogate h, .surrogate l :: s =>
    if h.val < 0x400 ∧ 0x400 ≤ l.val then
      .scalar (Char.ofNat (0x10000 + h.val * 0x400 + (l.val - 0x400))) :: s
    else .surrogate h :: .surrogate l :: s
  | c, s => c :: s

/-- The first half of a pair and the second half after it are one character. -/
def joinPairs (s : PyText) : PyText := s.foldr pairUp []

theorem joinPairs_ofText (t : Text) : joinPairs (ofText t) = ofText t := by
  induction t with
  | nil => rfl
  | cons c t ih =>
    show pairUp (.scalar c) (joinPairs (ofText t)) = _
    rw [ih]
    rfl

end PyText

/-- A JSON value. -/
inductive Json (σ φ : Type)
  | null
  | bool (b : Bool)
  | int (i : ℤ)
  | float (x : φ)
  | str (s : σ)
  | arr (items : List (Json σ φ))
  | obj (members : List (σ × Json σ φ))

namespace Json

variable {σ τ φ ψ ε : Type}

variable {P : Json σ φ → Prop}

/-- Induction over the items and the members. -/
@[induction_eliminator]
theorem induct (null : P .null) (bool : ∀ b, P (.bool b)) (int : ∀ i, P (.int i))
    (float : ∀ x, P (.float x)) (str : ∀ s, P (.str s)) (arr : ∀ xs, (∀ x ∈ xs, P x) → P (.arr xs))
    (obj : ∀ ms, (∀ m ∈ ms, P m.2) → P (.obj ms)) (v : Json σ φ) : P v :=
  @Json.rec σ φ P (fun xs => ∀ x ∈ xs, P x) (fun ms => ∀ m ∈ ms, P m.2) (fun m => P m.2)
    null bool int float str arr obj (fun _ h => absurd h List.not_mem_nil)
    (fun _ _ hx hxs => List.forall_mem_cons.2 ⟨hx, hxs⟩)
    (fun _ h => absurd h List.not_mem_nil)
    (fun _ _ hm hms => List.forall_mem_cons.2 ⟨hm, hms⟩) (fun _ _ h => h) v

mutual

/-- A value with other strings and fractional numbers. -/
def map (f : σ → τ) (g : φ → ψ) : Json σ φ → Json τ ψ
  | .null => .null
  | .bool b => .bool b
  | .int i => .int i
  | .float x => .float (g x)
  | .str s => .str (f s)
  | .arr xs => .arr (mapItems f g xs)
  | .obj ms => .obj (mapMembers f g ms)

def mapItems (f : σ → τ) (g : φ → ψ) : List (Json σ φ) → List (Json τ ψ)
  | [] => []
  | x :: xs => map f g x :: mapItems f g xs

def mapMembers (f : σ → τ) (g : φ → ψ) : List (σ × Json σ φ) → List (τ × Json τ ψ)
  | [] => []
  | (k, x) :: ms => (f k, map f g x) :: mapMembers f g ms

end

theorem mapItems_eq (f : σ → τ) (g : φ → ψ) :
    ∀ xs : List (Json σ φ), mapItems f g xs = xs.map (map f g)
  | [] => rfl
  | x :: xs => by rw [mapItems, mapItems_eq f g xs, List.map_cons]

theorem mapMembers_eq (f : σ → τ) (g : φ → ψ) :
    ∀ ms : List (σ × Json σ φ), mapMembers f g ms = ms.map fun m => (f m.1, map f g m.2)
  | [] => rfl
  | (k, x) :: ms => by rw [mapMembers, mapMembers_eq f g ms, List.map_cons]

mutual

/-- What holds of a value and of all values in it. -/
def All (P : Json σ φ → Prop) : Json σ φ → Prop
  | .arr xs => P (.arr xs) ∧ AllItems P xs
  | .obj ms => P (.obj ms) ∧ AllMembers P ms
  | v => P v

def AllItems (P : Json σ φ → Prop) : List (Json σ φ) → Prop
  | [] => True
  | x :: xs => All P x ∧ AllItems P xs

def AllMembers (P : Json σ φ → Prop) : List (σ × Json σ φ) → Prop
  | [] => True
  | (_, x) :: ms => All P x ∧ AllMembers P ms

end

theorem all_arr {xs : List (Json σ φ)} : All P (.arr xs) ↔ P (.arr xs) ∧ ∀ x ∈ xs, All P x := by
  have h : ∀ ys : List (Json σ φ), AllItems P ys ↔ ∀ x ∈ ys, All P x := by
    intro ys
    induction ys with
    | nil => exact iff_of_true trivial fun _ h => absurd h List.not_mem_nil
    | cons y ys ih => rw [AllItems, ih, List.forall_mem_cons]
  rw [All, h]

theorem all_obj {ms : List (σ × Json σ φ)} :
    All P (.obj ms) ↔ P (.obj ms) ∧ ∀ m ∈ ms, All P m.2 := by
  have h : ∀ ns : List (σ × Json σ φ), AllMembers P ns ↔ ∀ m ∈ ns, All P m.2 := by
    intro ns
    induction ns with
    | nil => exact iff_of_true trivial fun _ h => absurd h List.not_mem_nil
    | cons n ns ih => rw [AllMembers, ih, List.forall_mem_cons]
  rw [All, h]

theorem All.mono {Q : Json σ φ → Prop} (hPQ : ∀ v, P v → Q v) {v : Json σ φ} (h : All P v) :
    All Q v := by
  induction v with
  | arr xs ih =>
    obtain ⟨h, hxs⟩ := all_arr.1 h
    exact all_arr.2 ⟨hPQ _ h, fun x hx => ih x hx (hxs x hx)⟩
  | obj ms ih =>
    obtain ⟨h, hms⟩ := all_obj.1 h
    exact all_obj.2 ⟨hPQ _ h, fun m hm => ih m hm (hms m hm)⟩
  | _ => exact hPQ _ h

/-! ## Writing -/

/-- `int.__repr__` -/
def intText : ℤ → Text
  | .ofNat n => Nat.toDigits 10 n
  | .negSucc n => '-' :: Nat.toDigits 10 (n + 1)

/-- A character between quotes. -/
def escapeChar (c : Char) : Text :=
  if c = '"' then ['\\', '"']
  else if c = '\\' then ['\\', '\\']
  else if c = '\n' then ['\\', 'n']
  else if c = '\r' then ['\\', 'r']
  else if c = '\t' then ['\\', 't']
  else if c = '\x0c' then ['\\', 'f']
  else if c = '\x08' then ['\\', 'b']
  else if c.toNat < 0x20 then
    ['\\', 'u', '0', '0', (c.toNat / 16).digitChar, (c.toNat % 16).digitChar]
  else [c]

def quote (s : Text) : Text := '"' :: s.flatMap escapeChar ++ ['"']

mutual

/-- `json.dumps(value, ensure_ascii=False, separators=(",", ":"))` -/
def write : Json Text Empty → Text
  | .null => "null"
  | .bool true => "true"
  | .bool false => "false"
  | .int i => intText i
  | .str s => quote s
  | .arr xs => '[' :: Text.join ',' (writeItems xs) ++ [']']
  | .obj ms => '{' :: Text.join ',' (writeMembers ms) ++ ['}']

def writeItems : List (Json Text Empty) → List Text
  | [] => []
  | x :: xs => write x :: writeItems xs

def writeMembers : List (Text × Json Text Empty) → List Text
  | [] => []
  | (k, x) :: ms => (quote k ++ ':' :: write x) :: writeMembers ms

end

theorem writeItems_eq : ∀ xs, writeItems xs = xs.map write
  | [] => rfl
  | x :: xs => by rw [writeItems, writeItems_eq xs, List.map_cons]

theorem writeMembers_eq :
    ∀ ms, writeMembers ms = ms.map fun m => quote m.1 ++ ':' :: write m.2
  | [] => rfl
  | (k, x) :: ms => by rw [writeMembers, writeMembers_eq ms, List.map_cons]

/-! ## Reading -/

/-- What becomes of the numbers, the constants and the members of the objects that are read. -/
structure Hooks (ε φ : Type) where
  parseInt : Text → Except ε ℤ
  parseFloat : Text → Except ε φ
  parseConstant : Text → Except ε φ
  objectPairs : List (PyText × Json PyText φ) → Except ε (List (PyText × Json PyText φ))

/-- Why a text is not read : it is no JSON, or a hook refuses it. -/
inductive DecodeError (ε : Type)
  | malformed
  | hook (e : ε)

/-- What a hook gives. -/
def hooked {α β : Type} (f : α → β) : Except ε α → Except (DecodeError ε) β
  | .ok a => .ok (f a)
  | .error e => .error (.hook e)

/-- `[ \t\n\r]` -/
def isSpace (c : Char) : Bool := c = ' ' || c = '\t' || c = '\n' || c = '\r'

def skip (t : Text) : Text := t.dropWhile isSpace

/-- The value of a hexadecimal digit. -/
def hexValue? (c : Char) : Option ℕ :=
  if c.isDigit then some (c.toNat - 0x30)
  else if 'a' ≤ c ∧ c ≤ 'f' then some (c.toNat - 0x57)
  else if 'A' ≤ c ∧ c ≤ 'F' then some (c.toNat - 0x37)
  else none

/-- The number of four hexadecimal digits. -/
def hex4? (a b c d : Char) : Option ℕ :=
  match hexValue? a, hexValue? b, hexValue? c, hexValue? d with
  | some a, some b, some c, some d => some (((a * 16 + b) * 16 + c) * 16 + d)
  | _, _, _, _ => none

/-- What a backslash before one character stands for. -/
def unescape? (c : Char) : Option Char :=
  if c = '"' then some '"'
  else if c = '\\' then some '\\'
  else if c = '/' then some '/'
  else if c = 'b' then some '\x08'
  else if c = 'f' then some '\x0c'
  else if c = 'n' then some '\n'
  else if c = 'r' then some '\r'
  else if c = 't' then some '\t'
  else none

/-- The units of a string up to its closing quote, and the text after that. A text as it is has no
control characters between quotes. -/
def scanUnits : Text → Option (PyText × Text)
  | [] => none
  | c :: t =>
    if c = '"' then some ([], t)
    else if c = '\\' then
      match t with
      | [] => none
      | 'u' :: a :: b :: c :: d :: t =>
        match hex4? a b c d with
        | some n => (scanUnits t).map fun r => (.ofNat n :: r.1, r.2)
        | none => none
      | e :: t =>
        match unescape? e with
        | some c => (scanUnits t).map fun r => (.scalar c :: r.1, r.2)
        | none => none
    else if c.toNat < 0x20 then none
    else (scanUnits t).map fun r => (.scalar c :: r.1, r.2)

/-- `scanstring` -/
def scanString (t : Text) : Except (DecodeError ε) (PyText × Text) :=
  match scanUnits t with
  | some (s, t) => .ok (PyText.joinPairs s, t)
  | none => .error .malformed

/-- `-?(0|[1-9]\d*)` -/
def scanInt : Text → Option (Text × Text)
  | [] => none
  | '-' :: t => (unsigned t).map fun r => ('-' :: r.1, r.2)
  | t => unsigned t
where
  unsigned : Text → Option (Text × Text)
    | [] => none
    | c :: t =>
      if c = '0' then some (['0'], t)
      else if c.isDigit then some (c :: t.takeWhile Char.isDigit, t.dropWhile Char.isDigit)
      else none

/-- `(\.\d+)?` -/
def scanFraction : Text → Text × Text
  | '.' :: t =>
    if t.takeWhile Char.isDigit = [] then ([], '.' :: t)
    else ('.' :: t.takeWhile Char.isDigit, t.dropWhile Char.isDigit)
  | t => ([], t)

/-- `[-+]?` -/
def scanSign : Text → Text × Text
  | '+' :: t => (['+'], t)
  | '-' :: t => (['-'], t)
  | t => ([], t)

/-- `([eE][-+]?\d+)?` -/
def scanExponent : Text → Text × Text
  | [] => ([], [])
  | c :: t =>
    if (c = 'e' || c = 'E') && (scanSign t).2.takeWhile Char.isDigit ≠ [] then
      (c :: (scanSign t).1 ++ (scanSign t).2.takeWhile Char.isDigit,
        (scanSign t).2.dropWhile Char.isDigit)
    else ([], c :: t)

variable (H : Hooks ε φ)

/-- `_match_number` -/
def scanNumber (t : Text) : Except (DecodeError ε) (Json PyText φ × Text) :=
  match scanInt t with
  | none => .error .malformed
  | some (i, t) =>
    let fraction := scanFraction t
    let exponent := scanExponent fraction.2
    if fraction.1 = [] ∧ exponent.1 = [] then
      hooked (fun n => (.int n, exponent.2)) (H.parseInt i)
    else hooked (fun x => (.float x, exponent.2)) (H.parseFloat (i ++ fraction.1 ++ exponent.1))

/-- A value that is neither a string nor an array or object. -/
def scanScalar (t : Text) : Except (DecodeError ε) (Json PyText φ × Text) :=
  match Text.afterPrefix? "null" t with
  | some t => .ok (.null, t)
  | none =>
  match Text.afterPrefix? "true" t with
  | some t => .ok (.bool true, t)
  | none =>
  match Text.afterPrefix? "false" t with
  | some t => .ok (.bool false, t)
  | none =>
  match [("NaN" : Text), ("Infinity" : Text), ("-Infinity" : Text)].findSome?
    fun p => (Text.afterPrefix? p t).map fun t => (p, t) with
  | some (p, t) => hooked (fun x => (.float x, t)) (H.parseConstant p)
  | none => scanNumber H t

/-- The entries up to a closing bracket, each read by `entry`. -/
def scanEntries {α : Type} (close : Char) (entry : Text → Except (DecodeError ε) (α × Text)) :
    ℕ → Text → Except (DecodeError ε) (List α × Text)
  | 0, _ => .error .malformed
  | n + 1, t =>
    match entry t with
    | .error e => .error e
    | .ok (x, t) =>
      match skip t with
      | [] => .error .malformed
      | c :: t =>
        if c = close then .ok ([x], t)
        else if c = ',' then
          match scanEntries close entry n (skip t) with
          | .error e => .error e
          | .ok (xs, t) => .ok (x :: xs, t)
        else .error .malformed

/-- The entries after an opening bracket. -/
def scanBracket {α : Type} (close : Char) (entry : Text → Except (DecodeError ε) (α × Text)) (n : ℕ)
    (t : Text) : Except (DecodeError ε) (List α × Text) :=
  match skip t with
  | [] => .error .malformed
  | c :: t => if c = close then .ok ([], t) else scanEntries close entry n (c :: t)

/-- A member of an object, whose value is read by `value`. -/
def scanMember (value : Text → Except (DecodeError ε) (Json PyText φ × Text)) :
    Text → Except (DecodeError ε) ((PyText × Json PyText φ) × Text)
  | '"' :: t =>
    match scanString t with
    | .error e => .error e
    | .ok (k, t) =>
      match skip t with
      | ':' :: t =>
        match value (skip t) with
        | .error e => .error e
        | .ok (v, t) => .ok ((k, v), t)
      | _ => .error .malformed
  | _ => .error .malformed

/-- `_parse_array` -/
def scanArray (value : Text → Except (DecodeError ε) (Json PyText φ × Text)) (n : ℕ) (t : Text) :
    Except (DecodeError ε) (Json PyText φ × Text) :=
  match scanBracket ']' value n t with
  | .error e => .error e
  | .ok (vs, t) => .ok (.arr vs, t)

/-- `_parse_object` -/
def scanObject (value : Text → Except (DecodeError ε) (Json PyText φ × Text)) (n : ℕ) (t : Text) :
    Except (DecodeError ε) (Json PyText φ × Text) :=
  match scanBracket '\x7d' (scanMember value) n t with
  | .error e => .error e
  | .ok (ms, t) => hooked (fun ms => (.obj ms, t)) (H.objectPairs ms)

/-- The value at the beginning of a text, and the text after it. As many steps as the text has
characters are enough. -/
def scanOnce : ℕ → Text → Except (DecodeError ε) (Json PyText φ × Text)
  | 0, _ => .error .malformed
  | _, [] => .error .malformed
  | n + 1, c :: t =>
    if c = '"' then
      match scanString t with
      | .error e => .error e
      | .ok (s, t) => .ok (.str s, t)
    else if c = '\x7b' then scanObject H (scanOnce n) n t
    else if c = '[' then scanArray (scanOnce n) n t
    else scanScalar H (c :: t)

/-- `json.loads` -/
def loads (t : Text) : Except (DecodeError ε) (Json PyText φ) :=
  match scanOnce H t.length (skip t) with
  | .error e => .error e
  | .ok (v, t) => if skip t = [] then .ok v else .error .malformed

end Json

end PPBase
