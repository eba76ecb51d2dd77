import PPBase.Scanner
import PPBase.Text

/-!
# The tokens of PostgreSQL

The lexer of PostgreSQL 16 with `standard_conforming_strings` on, as a scanner. What may still
be joined to a token is kept until the next character : a quote may be the first of two, a
string may go on after a line break, a number may turn out to be junk.

Words are in lower case, quoted identifiers without their quotes. Strings carry what stands
between their quotes, undecoded; an escape in an `E` string or a `U&` token is not checked.
Identifiers of more than 63 bytes are cut later, by whoever reads the tokens. A text with the
character 0 cannot be sent.

`lex_ident` : a name with its quotes doubled is read back. `lex_quoted_iff` : a name put between
quotes as it is, only if it has no quotes.
-/

namespace PPBase

namespace Pg

inductive Token
  | word (s : Text)
  | ident (s : Text)
  | unicodeIdent (s : Text)
  | string (s : Text)
  | number (s : Text)
  | param (s : Text)
  | op (s : Text)
  deriving DecidableEq

/-- The rules under which the inside of a string is read. -/
inductive StringKind
  | standard | escape | bit
  deriving DecidableEq

/-- The part of a number that was read last. -/
inductive NumberPart
  | integer | integerSep
  | point | fraction | fractionSep
  | exponent | sign | power | powerSep
  | radix (r : Char) | radixSep (r : Char) | radixDigit (r : Char)
  deriving DecidableEq

/-- What has been read of the token in progress. -/
inductive State
  | start
  | word (acc : Text)
  | unicode (u : Char)
  | identBody (unicode : Bool) (acc : Text)
  | identQuote (unicode : Bool) (acc : Text)
  | stringBody (k : StringKind) (acc : Text)
  | stringEscape (acc : Text)
  | stringQuote (k : StringKind) (acc : Text)
  /-- White space after a string, with or without a line break. -/
  | gap (k : StringKind) (acc : Text) (newline : Bool)
  | gapMinus (k : StringKind) (acc : Text)
  | gapComment (k : StringKind) (acc : Text)
  | dollar
  | dollarTag (tag : Text)
  /-- The text since the last `$` that may be the closing tag. -/
  | dollarBody (tag acc : Text) (closing : Option Text)
  | param (acc : Text)
  | number (p : NumberPart) (acc : Text)
  | dot
  | colon
  | operator (acc : Text)
  | lineComment
  | blockComment (depth : ℕ) (last : Option Char)
  deriving DecidableEq

/-! ## Characters -/

/-- `space` -/
def isSpace (c : Char) : Bool := c ∈ [' ', '\t', '\n', '\r', '\x0b', '\x0c']

def isNewline (c : Char) : Bool := c == '\n' || c == '\r'

/-- `ident_start` -/
def isIdentStart (c : Char) : Bool := c.isAlpha || c == '_' || 128 ≤ c.toNat

/-- The characters of a dollar tag after the first. -/
def isTagChar (c : Char) : Bool := isIdentStart c || c.isDigit

/-- `ident_cont` -/
def isIdentChar (c : Char) : Bool := isTagChar c || c == '$'

/-- `op_chars` -/
def isOpChar (c : Char) : Bool := c ∈ "~!@#^&|`?+-*/%<>=".toList

/-- The characters with which an operator may end in `+` or `-`. -/
def isSpecial (c : Char) : Bool := c ∈ "~!@#^&|`?%".toList

def isSign (c : Char) : Bool := c == '+' || c == '-'

/-- The digits of `0x`, `0o` and `0b`. -/
def isRadixDigit (r c : Char) : Bool :=
  match r.toLower with
  | 'x' => c.isDigit || ('a' ≤ c.toLower && c.toLower ≤ 'f')
  | 'o' => '0' ≤ c && c ≤ '7'
  | _ => c == '0' || c == '1'

/-! ## Steps -/

/-- The tokens of a run of operator characters. `+` and `-` at its end are operators of their
own, unless the run has a special character. -/
def operators : Text → List Token
  | [] => []
  | c :: cs =>
    if (c :: cs).dropLast.any isSpecial then [.op (c :: cs)]
    else
      let signs := (cs.reverse.takeWhile isSign).reverse
      .op (c :: cs.take (cs.length - signs.length)) :: signs.map fun s => .op [s]

/-- A character at the start of a token. -/
def opening (c : Char) : Option (List Token × State) :=
  if isSpace c then some ([], .start)
  else if isIdentStart c then some ([], .word [c])
  else if c.isDigit then some ([], .number .integer [c])
  else if isOpChar c then some ([], .operator [c])
  else
    match c with
    | '"' => some ([], .identBody false [])
    | '\'' => some ([], .stringBody .standard [])
    | '$' => some ([], .dollar)
    | '.' => some ([], .dot)
    | ':' => some ([], .colon)
    | _ => some ([.op [c]], .start)

/-- A character that ends the tokens before it. -/
def after (ts : List Token) (c : Char) : Option (List Token × State) :=
  (opening c).map fun p => (ts ++ p.1, p.2)

/-- The token of a quoted identifier, which may not be empty. -/
def identToken (unicode : Bool) (acc : Text) : Option Token :=
  if acc = [] then none else some (if unicode then .unicodeIdent acc else .ident acc)

/-- A letter may open a string. -/
def stepWord (acc : Text) (c : Char) : Option (List Token × State) :=
  if isIdentChar c then some ([], .word (acc ++ [c]))
  else
    match acc.map Char.toLower, c with
    | ['e'], '\'' => some ([], .stringBody .escape [])
    | ['b'], '\'' => some ([], .stringBody .bit [])
    | ['x'], '\'' => some ([], .stringBody .bit [])
    | ['n'], '\'' => some ([.word "nchar"], .stringBody .standard [])
    | ['u'], '&' => some ([], .unicode (acc.headD 'u'))
    | s, c => after [.word s] c

def stepStringQuote (k : StringKind) (acc : Text) (c : Char) : Option (List Token × State) :=
  if c = '\'' ∧ k ≠ .bit then some ([], .stringBody k (acc ++ [c, c]))
  else if isSpace c then some ([], .gap k acc (isNewline c))
  else if c = '-' then some ([], .gapMinus k acc)
  else after [.string acc] c

def stepGap (k : StringKind) (acc : Text) (newline : Bool) (c : Char) :
    Option (List Token × State) :=
  if isSpace c then some ([], .gap k acc (newline || isNewline c))
  else if c = '-' then some ([], .gapMinus k acc)
  else if c = '\'' ∧ newline then some ([], .stringBody k acc)
  else after [.string acc] c

/-- A number ends before a character that does not continue it, and is junk before a letter. -/
def endNumber (acc : Text) (c : Char) : Option (List Token × State) :=
  if isIdentStart c then none else after [.number acc] c

def stepNumber (p : NumberPart) (acc : Text) (c : Char) : Option (List Token × State) :=
  let next (p : NumberPart) : Option (List Token × State) := some ([], .number p (acc ++ [c]))
  match p with
  | .integer =>
    if c.isDigit then next .integer
    else if c = '_' then next .integerSep
    else if c = '.' then next .point
    else if c.toLower = 'e' then next .exponent
    else if acc = ['0'] ∧ c.toLower ∈ ['x', 'o', 'b'] then next (.radix c)
    else endNumber acc c
  | .integerSep => if c.isDigit then next .integer else none
  | .point =>
    if c.isDigit then next .fraction
    else if c.toLower = 'e' then next .exponent
    -- `1..` is the integer 1 and the operator `..`.
    else if c = '.' then some ([.number acc.dropLast, .op ['.', '.']], .start)
    else endNumber acc c
  | .fraction =>
    if c.isDigit then next .fraction
    else if c = '_' then next .fractionSep
    else if c.toLower = 'e' then next .exponent
    else endNumber acc c
  | .fractionSep => if c.isDigit then next .fraction else none
  | .exponent =>
    if c.isDigit then next .power else if isSign c then next .sign else none
  | .sign => if c.isDigit then next .power else none
  | .power =>
    if c.isDigit then next .power
    else if c = '_' then next .powerSep
    else endNumber acc c
  | .powerSep => if c.isDigit then next .power else none
  | .radix r =>
    if isRadixDigit r c then next (.radixDigit r)
    else if c = '_' then next (.radixSep r)
    else none
  | .radixSep r => if isRadixDigit r c then next (.radixDigit r) else none
  | .radixDigit r =>
    if isRadixDigit r c then next (.radixDigit r)
    else if c = '_' then next (.radixSep r)
    else if isIdentChar c then none
    else after [.number acc] c

def stepDollarBody (tag acc : Text) (closing : Option Text) (c : Char) : List Token × State :=
  if c = '$' then
    if closing = some tag then ([.string (acc.take (acc.length - tag.length - 1))], .start)
    else ([], .dollarBody tag (acc ++ [c]) (some []))
  else
    ([], .dollarBody tag (acc ++ [c]) (closing.bind fun t =>
      if isIdentStart c ∨ (t ≠ [] ∧ isTagChar c) then some (t ++ [c]) else none))

def stepOperator (acc : Text) (c : Char) : Option (List Token × State) :=
  if c = '-' ∧ acc.getLast? = some '-' then some (operators acc.dropLast, .lineComment)
  else if c = '*' ∧ acc.getLast? = some '/' then
    some (operators acc.dropLast, .blockComment 1 none)
  else if isOpChar c then some ([], .operator (acc ++ [c]))
  else after (operators acc) c

def stepBlockComment (depth : ℕ) (last : Option Char) (c : Char) : State :=
  if c = '*' ∧ last = some '/' then .blockComment (depth + 1) none
  else if c = '/' ∧ last = some '*' then
    if depth ≤ 1 then .start else .blockComment (depth - 1) none
  else .blockComment depth (some c)

def step (st : State) (c : Char) : Option (List Token × State) :=
  if c = '\x00' then none
  else
    match st with
    | .start => opening c
    | .word acc => stepWord acc c
    | .unicode u =>
      if c = '"' then some ([], .identBody true [])
      else if c = '\'' then some ([], .stringBody .standard [])
      else if isOpChar c then
        (stepOperator ['&'] c).map fun p => (.word [u.toLower] :: p.1, p.2)
      else after [.word [u.toLower], .op ['&']] c
    | .identBody unicode acc =>
      if c = '"' then some ([], .identQuote unicode acc)
      else some ([], .identBody unicode (acc ++ [c]))
    | .identQuote unicode acc =>
      if c = '"' then some ([], .identBody unicode (acc ++ [c]))
      else (identToken unicode acc).bind fun t => after [t] c
    | .stringBody k acc =>
      if c = '\'' then some ([], .stringQuote k acc)
      else if c = '\\' ∧ k = .escape then some ([], .stringEscape (acc ++ [c]))
      else some ([], .stringBody k (acc ++ [c]))
    | .stringEscape acc => some ([], .stringBody .escape (acc ++ [c]))
    | .stringQuote k acc => stepStringQuote k acc c
    | .gap k acc newline => stepGap k acc newline c
    | .gapMinus k acc =>
      if c = '-' then some ([], .gapComment k acc)
      else (stepOperator ['-'] c).map fun p => (.string acc :: p.1, p.2)
    | .gapComment k acc =>
      if isNewline c then some ([], .gap k acc true) else some ([], .gapComment k acc)
    | .dollar =>
      if c = '$' then some ([], .dollarBody [] [] none)
      else if c.isDigit then some ([], .param [c])
      else if isIdentStart c then some ([], .dollarTag [c])
      else after [.op ['$']] c
    | .dollarTag tag =>
      if c = '$' then some ([], .dollarBody tag [] none)
      else if isTagChar c then some ([], .dollarTag (tag ++ [c]))
      else (stepWord tag c).map fun p => (.op ['$'] :: p.1, p.2)
    | .dollarBody tag acc closing => some (stepDollarBody tag acc closing c)
    | .param acc =>
      if c.isDigit then some ([], .param (acc ++ [c]))
      else if isIdentStart c then none
      else after [.param acc] c
    | .number p acc => stepNumber p acc c
    | .dot =>
      if c.isDigit then some ([], .number .fraction ['.', c])
      else if c = '.' then some ([.op ['.', '.']], .start)
      else after [.op ['.']] c
    | .colon =>
      if c = ':' ∨ c = '=' then some ([.op [':', c]], .start) else after [.op [':']] c
    | .operator acc => stepOperator acc c
    | .lineComment => some ([], if isNewline c then .start else .lineComment)
    | .blockComment depth last => some ([], stepBlockComment depth last c)

/-- The token pending at the end of the text. -/
def finish : State → Option (List Token)
  | .start | .lineComment => some []
  | .word acc => some [.word (acc.map Char.toLower)]
  | .unicode u => some [.word [u.toLower], .op ['&']]
  | .identQuote unicode acc => (identToken unicode acc).map fun t => [t]
  | .stringQuote _ acc | .gap _ acc _ | .gapComment _ acc => some [.string acc]
  | .gapMinus _ acc => some [.string acc, .op ['-']]
  | .dollar => some [.op ['$']]
  | .dollarTag tag => some [.op ['$'], .word (tag.map Char.toLower)]
  | .param acc => some [.param acc]
  | .number p acc =>
    match p with
    | .integer | .point | .fraction | .power | .radixDigit _ => some [.number acc]
    | _ => none
  | .dot => some [.op ['.']]
  | .colon => some [.op [':']]
  | .operator acc => some (operators acc)
  | .identBody .. | .stringBody .. | .stringEscape .. | .dollarBody .. | .blockComment .. => none

/-- The lexer of PostgreSQL. -/
def lexer : Scanner State Char Token := ⟨.start, step, finish⟩

theorem lexer_step (st : State) (c : Char) : lexer.step st c = step st c := rfl

/-- The tokens of a text. -/
def lex (s : Text) : Option (List Token) := lexer.scan s

example : lex "SELECT a.\"b\"\"c\", E'\\'' || 0xe-f(1..2) /* /* */ */ FROM t" =
    some [.word "select", .word "a", .op ['.'], .ident "b\"c", .op [','], .string "\\'",
      .op ['|', '|'], .number "0xe", .op ['-'], .word "f", .op ['('], .number ['1'],
      .op ['.', '.'], .number ['2'], .op [')'], .word "from", .word ['t']] := by decide

/-! ## Quoted identifiers -/

/-- A name with its quotes doubled. -/
def escape : Text → Text
  | [] => []
  | c :: cs => if c = '"' then '"' :: '"' :: escape cs else c :: escape cs

theorem escape_cons (c : Char) (cs : Text) :
    escape (c :: cs) = if c = '"' then '"' :: '"' :: escape cs else c :: escape cs := rfl

variable {n r : Text}

theorem escape_of_notMem (h : '"' ∉ n) : escape n = n := by
  induction n with
  | nil => rfl
  | cons c cs ih =>
    obtain ⟨hc, hcs⟩ := List.ne_and_not_mem_of_not_mem_cons h
    rw [escape_cons, if_neg (Ne.symm hc), ih hcs]

theorem run_identBody_escape (h : '\x00' ∉ n) (unicode : Bool) (acc : Text) :
    lexer.run (.identBody unicode acc) (escape n) = some ([], .identBody unicode (acc ++ n)) := by
  induction n generalizing acc with
  | nil => rw [List.append_nil]; rfl
  | cons c cs ih =>
    obtain ⟨hc, hcs⟩ := List.ne_and_not_mem_of_not_mem_cons h
    have hrest := ih hcs (acc ++ [c])
    rw [List.append_assoc, List.singleton_append] at hrest
    rw [escape_cons]
    by_cases hq : c = '"'
    · subst hq
      have hopen : lexer.step (.identBody unicode acc) '"' = some ([], .identQuote unicode acc) :=
        rfl
      have hagain : lexer.step (.identQuote unicode acc) '"' =
          some ([], .identBody unicode (acc ++ ['"'])) := rfl
      rw [if_pos rfl, lexer.run_cons hopen, lexer.run_cons hagain, hrest]
      rfl
    · have hstep : lexer.step (.identBody unicode acc) c =
          some ([], .identBody unicode (acc ++ [c])) :=
        (if_neg (Ne.symm hc)).trans (if_neg hq)
      rw [if_neg hq, lexer.run_cons hstep, hrest]
      rfl

theorem step_zero (st : State) : step st '\x00' = none := if_pos rfl

section Steps

variable {c : Char}

theorem step_start (h : c ≠ '\x00') : step .start c = opening c := if_neg h

theorem step_word (h : c ≠ '\x00') (acc : Text) : step (.word acc) c = stepWord acc c := if_neg h

theorem step_identQuote (h : c ≠ '\x00') (hc : c ≠ '"') (unicode : Bool) (acc : Text) :
    step (.identQuote unicode acc) c = (identToken unicode acc).bind fun t => after [t] c := by
  have hstep : step (.identQuote unicode acc) c =
      if c = '"' then some ([], .identBody unicode (acc ++ [c]))
      else (identToken unicode acc).bind fun t => after [t] c := if_neg h
  rw [hstep, if_neg hc]

end Steps

theorem run_eq_none_of_mem {w : Text} (h : '\x00' ∈ w) (st : State) : lexer.run st w = none := by
  induction w generalizing st with
  | nil => exact absurd h List.not_mem_nil
  | cons c w ih =>
    by_contra hrun
    obtain ⟨p, hp⟩ := Option.ne_none_iff_exists'.1 hrun
    obtain ⟨q, q', hq, hq', -⟩ := lexer.run_cons_eq_some.1 hp
    rcases List.mem_cons.1 h with rfl | h
    · rw [lexer_step, step_zero] at hq
      cases hq
    · rw [ih h] at hq'
      cases hq'

theorem mem_escape {c : Char} (h : c ∈ n) : c ∈ escape n := by
  induction n with
  | nil => exact absurd h List.not_mem_nil
  | cons d n ih =>
    have hsub : ∀ e, e = d ∨ e ∈ escape n → e ∈ escape (d :: n) := by
      intro e he
      rw [escape_cons]
      split_ifs with hd
      · exact List.mem_cons_of_mem _ (hd ▸ List.mem_cons.2 he)
      · exact List.mem_cons.2 he
    rcases List.mem_cons.1 h with rfl | h
    · exact hsub c (.inl rfl)
    · exact hsub c (.inr (ih h))

/-- What follows a quoted identifier does not begin with another quote. -/
def Unquoted (r : Text) : Prop := r.head? ≠ some '"'

/-- The identifier ends with its closing quote. -/
theorem scanFrom_identQuote (hn : n ≠ []) (hr : Unquoted r) :
    lexer.scanFrom (.identQuote false n) r = (lex r).map (.ident n :: ·) := by
  have htoken : identToken false n = some (.ident n) := if_neg hn
  suffices h : lexer.scanFrom (.identQuote false n) r =
      (lexer.scanFrom .start r).map ([.ident n] ++ ·) from h
  refine lexer.scanFrom_completes (fun c cs hc => ?_) fun _ => ?_
  · have hquote : c ≠ '"' := fun h => hr (by rw [hc, h]; rfl)
    rw [lexer_step, lexer_step]
    by_cases hzero : c = '\x00'
    · rw [hzero, step_zero, step_zero]
      rfl
    · rw [step_identQuote hzero hquote, step_start hzero, htoken]
      rfl
  · change (identToken false n).map _ = _
    rw [htoken]
    rfl

/-- A quoted identifier is read back, and what follows it is read from the start. -/
theorem lex_ident (hn : n ≠ []) (h : '\x00' ∉ n) (hr : Unquoted r) :
    lex ('"' :: escape n ++ '"' :: r) = (lex r).map (.ident n :: ·) := by
  have hopen : lexer.step .start '"' = some ([], .identBody false []) := rfl
  have hclose : lexer.step (.identBody false n) '"' = some ([], .identQuote false n) := rfl
  have hrun : lexer.run .start ('"' :: escape n ++ ['"']) = some ([], .identQuote false n) := by
    rw [List.cons_append, lexer.run_cons hopen, lexer.run_append, run_identBody_escape h]
    rw [Option.bind_some, List.nil_append, lexer.run_cons hclose]
    rfl
  have hsplit : '"' :: escape n ++ '"' :: r = ('"' :: escape n ++ ['"']) ++ r := by simp
  rw [hsplit, lex, Scanner.scan]
  change lexer.scanFrom .start _ = _
  rw [lexer.scanFrom_append hrun, scanFrom_identQuote hn hr, Option.map_map]
  rfl

/-- A step in a quoted identifier, at another character than a quote. -/
theorem step_identBody {acc : Text} {c : Char} (hzero : c ≠ '\x00') (hc : c ≠ '"') :
    lexer.step (.identBody false acc) c = some ([], .identBody false (acc ++ [c])) :=
  (if_neg hzero).trans (if_neg hc)

theorem exists_cons_of_not_unquoted (h : ¬Unquoted r) : ∃ t, r = '"' :: t := by
  cases r with
  | nil => exact absurd (by simp [Unquoted]) h
  | cons c t =>
    obtain rfl : c = '"' := Option.some.inj (not_not.1 h)
    exact ⟨t, rfl⟩

theorem scanFrom_eq_none {s : State} {c : Char} (h : step s c = none) (t : Text) :
    lexer.scanFrom s (c :: t) = none := by
  have hrun : lexer.run s (c :: t) = none := by
    rw [Scanner.run, lexer_step, h]
  rw [Scanner.scanFrom, hrun]
  rfl

/-- An empty quoted identifier is an error. -/
theorem scanFrom_identQuote_nil (hr : Unquoted r) :
    lexer.scanFrom (.identQuote false []) r = none := by
  cases r with
  | nil => rfl
  | cons c t =>
    have hc : c ≠ '"' := fun h => hr (by rw [h]; rfl)
    refine scanFrom_eq_none ?_ t
    by_cases hzero : c = '\x00'
    · rw [hzero, step_zero]
    · rw [step_identQuote hzero hc]
      rfl

/-- What stands in a text where a quoted identifier was read. -/
theorem exists_escape_of_scanFrom {x : Text} {ts : List Token} : ∀ acc t : Text,
    lexer.scanFrom (.identBody false acc) t = some (.ident x :: ts) →
      x ≠ [] ∧ ∃ u r, t = escape u ++ '"' :: r ∧ x = acc ++ u ∧ '\x00' ∉ u
  | _, [], h => by cases h
  | acc, c :: t, h => by
    by_cases hzero : c = '\x00'
    · rw [scanFrom_eq_none (if_pos hzero)] at h
      cases h
    by_cases hc : c = '"'
    · subst hc
      have hclose : lexer.step (.identBody false acc) '"' = some ([], .identQuote false acc) := rfl
      rw [lexer.scanFrom_silent hclose] at h
      by_cases hr : Unquoted t
      · have hacc : acc ≠ [] := by
          rintro rfl
          rw [scanFrom_identQuote_nil hr] at h
          cases h
        rw [scanFrom_identQuote hacc hr] at h
        obtain ⟨ts', -, hts⟩ := Option.map_eq_some_iff.1 h
        obtain rfl : acc = x := Token.ident.inj (List.cons.inj hts).1
        exact ⟨hacc, [], t, rfl, (List.append_nil _).symm, List.not_mem_nil⟩
      · obtain ⟨t', rfl⟩ := exists_cons_of_not_unquoted hr
        have hagain : lexer.step (.identQuote false acc) '"' =
            some ([], .identBody false (acc ++ ['"'])) := rfl
        rw [lexer.scanFrom_silent hagain] at h
        obtain ⟨hx, u, r, rfl, hu, hnot⟩ := exists_escape_of_scanFrom _ t' h
        refine ⟨hx, '"' :: u, r, rfl, by rw [hu]; simp, ?_⟩
        exact List.not_mem_cons_of_ne_of_not_mem (by decide) hnot
    · rw [lexer.scanFrom_silent (step_identBody hzero hc)] at h
      obtain ⟨hx, u, r, rfl, hu, hnot⟩ := exists_escape_of_scanFrom _ t h
      refine ⟨hx, c :: u, r, ?_, by rw [hu]; simp, ?_⟩
      · rw [escape_cons, if_neg hc]
        rfl
      · exact List.not_mem_cons_of_ne_of_not_mem (Ne.symm hzero) hnot

theorem not_replicate_escape {r' : Text} (hr : Unquoted r) (v : Text) (k : ℕ) :
    List.replicate (k + 1) '"' ++ (escape v ++ '"' :: r') ≠ v ++ '"' :: r := by
  induction v generalizing k with
  | nil =>
    intro h
    rw [List.replicate_succ, List.cons_append] at h
    have htail := (List.cons.inj h).2
    apply hr
    rw [← htail]
    cases k <;> rfl
  | cons c v ih =>
    intro h
    rw [List.replicate_succ, List.cons_append, List.cons_append] at h
    obtain ⟨rfl, h⟩ := List.cons.inj h
    refine ih (k + 1) ?_
    rw [← h, escape_cons, if_pos rfl, List.replicate_succ', List.replicate_succ']
    simp

/-- If the text of a name with its closing quote is that of a name with its quotes doubled, the
name has no quotes. -/
theorem notMem_of_escape_append {r' : Text} (hr : Unquoted r)
    (h : escape n ++ '"' :: r' = n ++ '"' :: r) : '"' ∉ n := by
  induction n with
  | nil => exact List.not_mem_nil
  | cons c cs ih =>
    rw [escape_cons] at h
    split_ifs at h with hc
    · subst hc
      exact absurd (List.cons.inj h).2 (not_replicate_escape hr cs 0)
    · exact List.not_mem_cons_of_ne_of_not_mem (Ne.symm hc) (ih (List.cons.inj h).2)

/-- A name with its quotes doubled is read back, unless it is empty or cannot be sent. -/
theorem lex_escaped_iff {ts : List Token} (hr : Unquoted r) :
    lex ('"' :: escape n ++ '"' :: r) = some (.ident n :: ts) ↔
      (n ≠ [] ∧ '\x00' ∉ n) ∧ lex r = some ts := by
  constructor
  · intro h
    have hopen : lexer.step .start '"' = some ([], .identBody false []) := rfl
    have hbody : lexer.scanFrom (.identBody false []) (escape n ++ '"' :: r) =
        some (.ident n :: ts) := (lexer.scanFrom_silent hopen _).symm.trans h
    obtain ⟨hne, u, r', -, hu, hzero⟩ := exists_escape_of_scanFrom _ _ hbody
    obtain rfl : n = u := hu
    rw [lex_ident hne hzero hr] at h
    obtain ⟨ts', hts, heq⟩ := Option.map_eq_some_iff.1 h
    rw [hts, (List.cons.inj heq).2]
    exact ⟨⟨hne, hzero⟩, rfl⟩
  · rintro ⟨⟨hne, hzero⟩, hrest⟩
    rw [lex_ident hne hzero hr, hrest]
    rfl

/-- What is read of a name with its quotes doubled is the name. -/
theorem eq_of_lex_escaped {x : Text} {ts : List Token} (hn : n ≠ []) (hr : Unquoted r)
    (h : lex ('"' :: escape n ++ '"' :: r) = some (.ident x :: ts)) : x = n ∧ '\x00' ∉ n := by
  have hzero : '\x00' ∉ n := by
    intro hmem
    have hmem' : '\x00' ∈ '"' :: escape n ++ '"' :: r :=
      List.mem_append_left _ (List.mem_cons_of_mem _ (mem_escape hmem))
    rw [lex, Scanner.scan, Scanner.scanFrom, run_eq_none_of_mem hmem'] at h
    cases h
  rw [lex_ident hn hzero hr] at h
  obtain ⟨us, -, hus⟩ := Option.map_eq_some_iff.1 h
  exact ⟨(Token.ident.inj (List.cons.inj hus).1).symm, hzero⟩

/-- A name that stands between quotes as it is. -/
structure Plain (n : Text) : Prop where
  ne_nil : n ≠ []
  quote : '"' ∉ n
  zero : '\x00' ∉ n

/-- A name between quotes is read as one identifier, equal to it, exactly if it is plain. -/
theorem lex_quoted_iff {ts : List Token} (hr : Unquoted r) :
    lex ('"' :: n ++ '"' :: r) = some (.ident n :: ts) ↔ Plain n ∧ lex r = some ts := by
  constructor
  · intro h
    have hopen : lexer.step .start '"' = some ([], .identBody false []) := rfl
    have hbody : lexer.scanFrom (.identBody false []) (n ++ '"' :: r) = some (.ident n :: ts) :=
      (lexer.scanFrom_silent hopen _).symm.trans h
    obtain ⟨-, u, r', heq, hu, -⟩ := exists_escape_of_scanFrom _ _ hbody
    obtain rfl : n = u := hu
    have hq := notMem_of_escape_append hr heq.symm
    have hescaped : lex ('"' :: escape n ++ '"' :: r) = some (.ident n :: ts) := by
      rw [escape_of_notMem hq]
      exact h
    obtain ⟨⟨hne, hzero⟩, hrest⟩ := (lex_escaped_iff hr).1 hescaped
    exact ⟨⟨hne, hq, hzero⟩, hrest⟩
  · rintro ⟨hn, hrest⟩
    have h := (lex_escaped_iff hr).2 ⟨⟨hn.ne_nil, hn.zero⟩, hrest⟩
    rwa [escape_of_notMem hn.quote] at h

end Pg

end PPBase
