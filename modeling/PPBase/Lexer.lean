import Mathlib.Data.List.Induction
import PPBase.Scanner
import PPBase.Text

/-!
# The terminals of the filter grammar

`lex` cuts a filter into the terminals of `_GRAMMAR`. The Earley parser of the source
matches terminals while it parses, each at its longest, and skips `WS` and `//` comments
between any two of them. No two terminals that can start with the same character are both
wanted at one place of the grammar, except a keyword and the identifier of the same letters
and the empty string and `null`, which the grammar's rule order decides, so cutting first
accepts the same filters with the same trees. A cut that leaves a character no terminal
reads (a lone `|`, an exponent without digits) is one the grammar rejects whatever follows.

A quoted text ends at its first unescaped quote, and a comment runs to the end of its line.
A text that ends inside a comment therefore swallows what is spliced after it
(`run_comment`); every other text that may end where it does is closed by a following
parenthesis (`lexer_delimits_rpar`).
-/

namespace PPBase

/-- The alternatives of `OPERATOR`. -/
inductive Operator
  | eq | ne | gt | ge | lt | le | like | notLike
  | anyEq | anyNe | anyGt | anyGe | anyLt | anyLe | anyLike | anyNotLike
  deriving DecidableEq, Repr

/-- Terminals, with the text of those that carry one. -/
inductive Token
  | lpar | rpar | and | or | dot
  | op (o : Operator)
  | string (raw : Text)
  | number (raw : Text)
  | macroName (name : Text)
  | ident (name : Text)
  deriving DecidableEq, Repr

/-- The proper prefixes of operators. -/
inductive OpPrefix
  | any | anyNot | anyGt | anyLt | not | gt | lt
  deriving DecidableEq, Repr

/-- What has been read of the terminal in progress. -/
inductive LexState
  | start
  | comment
  | slash
  | bar
  | amp
  | operator (p : OpPrefix)
  | ident (acc : Text)
  | macroAt
  | macroName (acc : Text)
  | quoted (q : Char) (acc : Text)
  | escaped (q : Char) (acc : Text)
  | sign (acc : Text)
  | signDot (acc : Text)
  | dot
  | int (acc : Text)
  | intDot (acc : Text)
  | frac (acc : Text)
  | exp (acc : Text)
  | expSign (acc : Text)
  | expInt (acc : Text)
  deriving DecidableEq, Repr

namespace Lexer

/-- `WS`, the whitespace the grammar ignores. -/
def isWs (c : Char) : Bool := c == ' ' || c == '\t' || c == '\x0c' || c == '\r' || c == '\n'

/-- `[a-zA-Z0-9_:]`, the tail of `FIELD_IDENT`. -/
def isIdentTail (c : Char) : Bool := Text.isIdentChar c || c == ':'

/-- `[a-zA-Z0-9_.:]`, the tail of `MACRO`. -/
def isMacroTail (c : Char) : Bool := isIdentTail c || c == '.'

def isExp (c : Char) : Bool := c == 'e' || c == 'E'

def isSign (c : Char) : Bool := c == '+' || c == '-'

/-- A character read between terminals. -/
def open? (c : Char) : Option (List Token × LexState) :=
  if isWs c then some ([], .start)
  else if Text.isIdentStart c then some ([], .ident [c])
  else if c.isDigit then some ([], .int [c])
  else if isSign c then some ([], .sign [c])
  else
    match c with
    | '(' => some ([.lpar], .start)
    | ')' => some ([.rpar], .start)
    | '=' => some ([.op .eq], .start)
    | '~' => some ([.op .like], .start)
    | '?' => some ([], .operator .any)
    | '!' => some ([], .operator .not)
    | '>' => some ([], .operator .gt)
    | '<' => some ([], .operator .lt)
    | '|' => some ([], .bar)
    | '&' => some ([], .amp)
    | '/' => some ([], .slash)
    | '.' => some ([], .dot)
    | '@' => some ([], .macroAt)
    | '"' => some ([], .quoted '"' ['"'])
    | '\'' => some ([], .quoted '\'' ['\''])
    | _ => none

/-- A character that ends the terminal `t` before it. -/
def after (t : Token) (c : Char) : Option (List Token × LexState) :=
  (open? c).map fun p => (t :: p.1, p.2)

def stepOperator : OpPrefix → Char → Option (List Token × LexState)
  | .any, c =>
    if c = '!' then some ([], .operator .anyNot)
    else if c = '>' then some ([], .operator .anyGt)
    else if c = '<' then some ([], .operator .anyLt)
    else if c = '~' then some ([.op .anyLike], .start)
    else if c = '=' then some ([.op .anyEq], .start)
    else none
  | .anyNot, c =>
    if c = '~' then some ([.op .anyNotLike], .start)
    else if c = '=' then some ([.op .anyNe], .start)
    else none
  | .anyGt, c => if c = '=' then some ([.op .anyGe], .start) else after (.op .anyGt) c
  | .anyLt, c => if c = '=' then some ([.op .anyLe], .start) else after (.op .anyLt) c
  | .not, c =>
    if c = '~' then some ([.op .notLike], .start)
    else if c = '=' then some ([.op .ne], .start)
    else none
  | .gt, c => if c = '=' then some ([.op .ge], .start) else after (.op .gt) c
  | .lt, c => if c = '=' then some ([.op .le], .start) else after (.op .lt) c

def step : LexState → Char → Option (List Token × LexState)
  | .start, c => open? c
  | .comment, c => if c = '\n' then some ([], .start) else some ([], .comment)
  | .slash, c => if c = '/' then some ([], .comment) else none
  | .bar, c => if c = '|' then some ([.or], .start) else none
  | .amp, c => if c = '&' then some ([.and], .start) else none
  | .operator p, c => stepOperator p c
  | .ident acc, c =>
    if isIdentTail c then some ([], .ident (acc ++ [c])) else after (.ident acc) c
  | .macroAt, c => if Text.isIdentStart c then some ([], .macroName ['@', c]) else none
  | .macroName acc, c =>
    if isMacroTail c then some ([], .macroName (acc ++ [c])) else after (.macroName acc) c
  | .quoted q acc, c =>
    if c = '\\' then some ([], .escaped q (acc ++ [c]))
    else if c = q then some ([.string (acc ++ [c])], .start)
    else some ([], .quoted q (acc ++ [c]))
  | .escaped q acc, c => some ([], .quoted q (acc ++ [c]))
  | .sign acc, c =>
    if c.isDigit then some ([], .int (acc ++ [c]))
    else if c = '.' then some ([], .signDot (acc ++ [c]))
    else none
  | .signDot acc, c => if c.isDigit then some ([], .frac (acc ++ [c])) else none
  | .dot, c => if c.isDigit then some ([], .frac ['.', c]) else after .dot c
  | .int acc, c =>
    if c.isDigit then some ([], .int (acc ++ [c]))
    else if c = '.' then some ([], .intDot (acc ++ [c]))
    else if isExp c then some ([], .exp (acc ++ [c]))
    else after (.number acc) c
  | .intDot acc, c | .frac acc, c =>
    if c.isDigit then some ([], .frac (acc ++ [c]))
    else if isExp c then some ([], .exp (acc ++ [c]))
    else after (.number acc) c
  | .exp acc, c =>
    if c.isDigit then some ([], .expInt (acc ++ [c]))
    else if isSign c then some ([], .expSign (acc ++ [c]))
    else none
  | .expSign acc, c => if c.isDigit then some ([], .expInt (acc ++ [c])) else none
  | .expInt acc, c =>
    if c.isDigit then some ([], .expInt (acc ++ [c])) else after (.number acc) c

/-- The pending terminal of a text that may end in this state. -/
def finish : LexState → Option (List Token)
  | .start | .comment => some []
  | .ident acc => some [.ident acc]
  | .macroName acc => some [.macroName acc]
  | .dot => some [.dot]
  | .int acc | .intDot acc | .frac acc | .expInt acc => some [.number acc]
  | .operator .anyGt => some [.op .anyGt]
  | .operator .anyLt => some [.op .anyLt]
  | .operator .gt => some [.op .gt]
  | .operator .lt => some [.op .lt]
  | _ => none

end Lexer

/-- The scanner of the grammar's terminals. -/
def lexer : Scanner LexState Char Token := ⟨.start, Lexer.step, Lexer.finish⟩

/-- The terminals of a filter text. -/
def lex (s : Text) : Option (List Token) := lexer.scan s

/-- The text ends inside a `//` comment : no newline follows the comment's start. -/
def EndsInComment (s : Text) : Prop := lexer.stateAfter s = some .comment

instance (s : Text) : Decidable (EndsInComment s) :=
  inferInstanceAs (Decidable (lexer.stateAfter s = some .comment))

example : lex "a.b ?!= \"x\\\"y\" // note" =
    some [.ident "a", .dot, .ident "b", .op .anyNe, .string "\"x\\\"y\""] := by decide

variable {ts : List Token}

/-- A closing parenthesis ends every terminal a text may end with, comments excepted. -/
theorem lexer_delimits_rpar {s : LexState} (h : Lexer.finish s = some ts) (hc : s ≠ .comment) :
    lexer.Delimits s ')' .rpar := by
  show Lexer.step s ')' = (Lexer.finish s).map fun ts => (ts ++ [.rpar], .start)
  cases s with
  | comment => exact absurd rfl hc
  | operator p =>
    cases p with
    | any | anyNot | not => simp [Lexer.finish] at h
    | anyGt | anyLt | gt | lt => rfl
  | _ => first | rfl | simp [Lexer.finish] at h

/-- Inside a comment everything up to the newline is skipped. -/
theorem run_comment {u : Text} (h : '\n' ∉ u) (v : Text) :
    lexer.scanFrom .comment (u ++ '\n' :: v) = lexer.scanFrom .start v := by
  induction u with
  | nil =>
    have hstep : lexer.step .comment '\n' = some ([], .start) := rfl
    rw [List.nil_append, lexer.scanFrom_cons hstep]
    simp
  | cons c u ih =>
    obtain ⟨hc, hu⟩ := List.ne_and_not_mem_of_not_mem_cons h
    have hstep : lexer.step .comment c = some ([], .comment) := by
      show Lexer.step .comment c = _
      simp [Lexer.step, Ne.symm hc]
    rw [List.cons_append, lexer.scanFrom_cons hstep, ih hu]
    simp

/-! ## Macro names -/

/-- What a state says about the end of the text read so far. -/
def LexState.Reads (s : Text) : LexState → Prop
  | .macroAt => ∃ u, s = u ++ ['@']
  | .macroName acc => ∃ u t, acc = '@' :: t ∧ s = u ++ acc ∧ ∀ c ∈ t, Lexer.isMacroTail c = true
  | _ => True

theorem open?_macroName {c : Char} {st : LexState} (h : Lexer.open? c = some (ts, st)) (s : Text) :
    (∀ n, Token.macroName n ∉ ts) ∧ st.Reads (s ++ [c]) := by
  unfold Lexer.open? at h
  split_ifs at h with h1 h2 h3 h4
  · obtain ⟨rfl, rfl⟩ := Prod.mk.inj (Option.some.inj h); simp [LexState.Reads]
  · obtain ⟨rfl, rfl⟩ := Prod.mk.inj (Option.some.inj h); simp [LexState.Reads]
  · obtain ⟨rfl, rfl⟩ := Prod.mk.inj (Option.some.inj h); simp [LexState.Reads]
  · obtain ⟨rfl, rfl⟩ := Prod.mk.inj (Option.some.inj h); simp [LexState.Reads]
  · split at h
    all_goals first
      | (obtain ⟨rfl, rfl⟩ := Prod.mk.inj (Option.some.inj h); simp [LexState.Reads])
      | cases h

theorem isMacroTail_of_isIdentStart {c : Char} (h : Text.isIdentStart c = true) :
    Lexer.isMacroTail c = true := by
  simp [Lexer.isMacroTail, Lexer.isIdentTail, Text.isIdentChar, h]

/-- A step completes a macro name only when its last state was that name, and the letter
does not continue it. -/
theorem step_macroName {st st' : LexState} {c : Char} {s : Text}
    (h : Lexer.step st c = some (ts, st')) (hs : st.Reads s) :
    (∀ n, Token.macroName n ∈ ts → st = .macroName n ∧ Lexer.isMacroTail c = false) ∧
      st'.Reads (s ++ [c]) := by
  have hafter : ∀ {t : Token}, Lexer.after t c = some (ts, st') →
      (∀ n, Token.macroName n ∈ ts → Token.macroName n = t) ∧ st'.Reads (s ++ [c]) := by
    intro t ht
    obtain ⟨⟨us, st₁⟩, ho, hp⟩ := Option.map_eq_some_iff.1 ht
    obtain ⟨rfl, rfl⟩ := Prod.mk.inj hp
    obtain ⟨hno, hr⟩ := open?_macroName ho s
    refine ⟨fun n hn => ?_, hr⟩
    rcases List.mem_cons.1 hn with hn | hn
    · exact hn
    · exact absurd hn (hno n)
  have hopen : Lexer.open? c = some (ts, st') →
      (∀ n, Token.macroName n ∉ ts) ∧ st'.Reads (s ++ [c]) := fun ho => open?_macroName ho s
  have hout : ∀ {us : List Token} {st₁ : LexState}, some (us, st₁) = some (ts, st') →
      us = ts ∧ st₁ = st' := fun h => Prod.mk.inj (Option.some.inj h)
  cases st with
  | start =>
    obtain ⟨h1, h2⟩ := hopen h
    exact ⟨fun n hn => absurd hn (h1 n), h2⟩
  | macroAt =>
    simp only [Lexer.step] at h
    split_ifs at h with hc
    obtain ⟨rfl, rfl⟩ := hout h
    obtain ⟨u, rfl⟩ := hs
    refine ⟨by simp, u, [c], rfl, by simp, ?_⟩
    simpa using isMacroTail_of_isIdentStart hc
  | macroName acc =>
    simp only [Lexer.step] at h
    split_ifs at h with hc
    · obtain ⟨rfl, rfl⟩ := hout h
      obtain ⟨u, t, rfl, rfl, ht⟩ := hs
      refine ⟨by simp, u, t ++ [c], by simp, by simp, ?_⟩
      intro d hd
      rcases List.mem_append.1 hd with hd | hd
      · exact ht d hd
      · rwa [List.mem_singleton.1 hd]
    · obtain ⟨h1, h2⟩ := hafter h
      refine ⟨fun n hn => ?_, h2⟩
      obtain rfl := Token.macroName.inj (h1 n hn)
      exact ⟨rfl, by simpa using hc⟩
  | operator p =>
    simp only [Lexer.step] at h
    cases p <;> simp only [Lexer.stepOperator] at h <;> split_ifs at h <;>
    first
      | (obtain ⟨rfl, rfl⟩ := hout h; simp [LexState.Reads])
      | (obtain ⟨h1, h2⟩ := hafter h
         exact ⟨fun n hn => by simpa using h1 n hn, h2⟩)
  | _ =>
    simp only [Lexer.step] at h
    (try split_ifs at h) <;>
    first
      | (obtain ⟨rfl, rfl⟩ := hout h; simp [LexState.Reads])
      | (obtain ⟨h1, h2⟩ := hafter h
         exact ⟨fun n hn => by simpa using h1 n hn, h2⟩)

/-- A name stands in the text, followed by something that does not continue it. -/
def MacroOccurs (n s : Text) : Prop :=
  ∃ u v, s = u ++ n ++ v ∧ ∀ c, v.head? = some c → Lexer.isMacroTail c = false

/-- `@` and name characters. -/
def MacroShape (n : Text) : Prop := ∃ t, n = '@' :: t ∧ ∀ c ∈ t, Lexer.isMacroTail c = true

theorem run_macroName (s : Text) : ∀ {ts : List Token} {st : LexState},
    lexer.run .start s = some (ts, st) →
      (∀ n, Token.macroName n ∈ ts → MacroShape n ∧
        ∃ u c v, s = u ++ n ++ c :: v ∧ Lexer.isMacroTail c = false) ∧ st.Reads s := by
  induction s using List.reverseRecOn with
  | nil =>
    intro ts st h
    obtain ⟨rfl, rfl⟩ := Prod.mk.inj (Option.some.inj h)
    simp [LexState.Reads]
  | append_singleton s c ih =>
    intro ts st h
    rw [lexer.run_append] at h
    obtain ⟨⟨us, st₁⟩, hus, h⟩ := Option.bind_eq_some_iff.1 h
    obtain ⟨⟨vs, st₂⟩, hvs, h⟩ := Option.map_eq_some_iff.1 h
    obtain ⟨rfl, rfl⟩ := Prod.mk.inj h
    obtain ⟨hnames, hreads⟩ := ih hus
    have hstep : Lexer.step st₁ c = some (vs, st₂) := by
      cases hc : Lexer.step st₁ c with
      | none =>
        have hc' : lexer.step st₁ c = none := hc
        simp [Scanner.run, hc'] at hvs
      | some p =>
        have hc' : lexer.step st₁ c = some p := hc
        simpa [Scanner.run, hc', Prod.ext_iff] using hvs
    obtain ⟨hnew, hreads'⟩ := step_macroName hstep hreads
    refine ⟨fun n hn => ?_, hreads'⟩
    rcases List.mem_append.1 hn with hn | hn
    · obtain ⟨hshape, u, d, v, rfl, hd⟩ := hnames n hn
      exact ⟨hshape, u, d, v ++ [c], by simp, hd⟩
    · obtain ⟨rfl, hc⟩ := hnew n hn
      obtain ⟨u, t, rfl, rfl, ht⟩ := hreads
      exact ⟨⟨t, rfl, ht⟩, u, c, [], by simp, hc⟩

theorem finish_macroName {st : LexState} {vs : List Token} {n : Text}
    (h : Lexer.finish st = some vs) (hn : Token.macroName n ∈ vs) : st = .macroName n := by
  cases st with
  | macroName acc =>
    obtain rfl := Option.some.inj h
    simpa [eq_comm] using hn
  | operator p =>
    cases p <;> simp only [Lexer.finish, Option.some.injEq, reduceCtorEq] at h <;> subst h <;>
      simp at hn
  | _ =>
    simp only [Lexer.finish, Option.some.injEq, reduceCtorEq] at h
    all_goals subst h; simp at hn

/-- A macro terminal stands in the text as it is, and the text does not continue it. -/
theorem macroOccurs_of_lex {s n : Text} (h : lex s = some ts) (hn : Token.macroName n ∈ ts) :
    MacroShape n ∧ MacroOccurs n s := by
  obtain ⟨us, st, vs, hrun, hfin, rfl⟩ := lexer.scanFrom_eq_some.1 h
  obtain ⟨hnames, hreads⟩ := run_macroName s hrun
  rcases List.mem_append.1 hn with hn | hn
  · obtain ⟨hshape, u, c, v, rfl, hc⟩ := hnames n hn
    refine ⟨hshape, u, c :: v, rfl, fun d hd => ?_⟩
    rwa [← Option.some.inj hd]
  · obtain rfl := finish_macroName hfin hn
    obtain ⟨u, t, rfl, rfl, ht⟩ := hreads
    exact ⟨⟨t, rfl, ht⟩, u, [], by simp, by simp⟩

end PPBase
