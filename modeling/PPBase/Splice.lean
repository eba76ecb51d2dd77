import PPBase.Filter

/-!
# Splicing two filters

The handlers combine a rule and a client filter as the text `(rule) && (filter)` and parse
the result. `parseText_splice` says what the text parses to when both parts parse and the
rule does not end inside a comment : the conjunction of the two trees in parentheses, or
nothing when the filter ends inside a comment, since the closing parenthesis is then lost.
`parseText_splice_comment` is the other case : a rule that ends inside a comment swallows
the filter's first line, and what follows it continues the rule.
-/

namespace PPBase

open Sql

/-- `f"({rule}) && ({filter})"` -/
def spliceFilters (rule filter : Text) : Text :=
  '(' :: (rule ++ ')' :: (" && (" : Text) ++ filter ++ [')'])

/-! ## Terminals -/

theorem lex_lpar (s : Text) : lex ('(' :: s) = (lex s).map (Token.lpar :: ·) := by
  have h : lexer.step lexer.start '(' = some ([.lpar], lexer.start) := rfl
  exact lexer.scanFrom_cons h s

theorem lex_and_lpar (s : Text) :
    lex ((" && (" : Text) ++ s) = (lex s).map ([Token.and, Token.lpar] ++ ·) := by
  have h : lexer.run lexer.start (" && (" : Text) = some ([.and, .lpar], lexer.start) := by decide
  exact lexer.scanFrom_append h s

variable {s rule : Text} {ts : List Token}

/-- A text that lexes and does not end in a comment is closed by a parenthesis. -/
theorem lex_rpar (h : lex s = some ts) (hc : ¬EndsInComment s) (v : Text) :
    lex (s ++ ')' :: v) = (lex v).map (ts ++ Token.rpar :: ·) := by
  obtain ⟨us, st, vs, hrun, hfin, -⟩ := lexer.scanFrom_eq_some.1 h
  have hst : st ≠ .comment := by
    rintro rfl
    exact hc (by simp [EndsInComment, Scanner.stateAfter, hrun])
  exact lexer.scanFrom_delimiter hrun (lexer_delimits_rpar hfin hst) h v

/-- A text that ends in a comment has emitted all its terminals. -/
theorem run_of_endsInComment (hc : EndsInComment s) :
    ∃ ts, lex s = some ts ∧ lexer.run .start s = some (ts, .comment) := by
  obtain ⟨⟨ts, st⟩, hrun, hst⟩ := Option.map_eq_some_iff.1 hc
  obtain rfl : st = .comment := hst
  refine ⟨ts, ?_, hrun⟩
  have hrun' : lexer.run lexer.start s = some (ts, .comment) := hrun
  have hfin : lexer.finish .comment = some [] := rfl
  simp [lex, Scanner.scan, Scanner.scanFrom, hrun', hfin]

/-- A comment runs on to the next newline. -/
theorem lex_comment {u : Text} (hc : EndsInComment s) (h : lex s = some ts) (hu : '\n' ∉ u)
    (v : Text) : lex (s ++ (u ++ '\n' :: v)) = (lex v).map (ts ++ ·) := by
  obtain ⟨ts', h', hrun⟩ := run_of_endsInComment hc
  obtain rfl : ts = ts' := Option.some.inj (h.symm.trans h')
  have happ := lexer.scanFrom_append hrun (u ++ '\n' :: v)
  rw [run_comment hu] at happ
  exact happ

theorem lex_comment_rpar (hc : EndsInComment s) (h : lex s = some ts) :
    lex (s ++ [')']) = some ts := by
  obtain ⟨ts', h', hrun⟩ := run_of_endsInComment hc
  obtain rfl : ts = ts' := Option.some.inj (h.symm.trans h')
  have hfin : lexer.scanFrom .comment [')'] = some [] := by decide
  have happ := lexer.scanFrom_append hrun [')']
  rw [hfin, Option.map_some, List.append_nil] at happ
  exact happ

theorem lex_spliceFilters (h : lex rule = some ts) (hc : ¬EndsInComment rule) (filter : Text) :
    lex (spliceFilters rule filter) =
      (lex (filter ++ [')'])).map fun us => .lpar :: (ts ++ .rpar :: .and :: .lpar :: us) := by
  have hsplit : spliceFilters rule filter =
      '(' :: (rule ++ ')' :: ((" && (" : Text) ++ (filter ++ [')']))) := by
    simp [spliceFilters]
  rw [hsplit, lex_lpar, lex_rpar h hc, lex_and_lpar]
  cases lex (filter ++ [')']) with
  | none => rfl
  | some us => simp

/-! ## Blank texts -/

/-- Whitespace either ends the scan or is skipped. -/
theorem open?_of_isSpace {c : Char} (h : Text.isSpace c = true) :
    Lexer.open? c = none ∨ Lexer.open? c = some ([], .start) := by
  have hn := Text.not_printable_of_isSpace h
  have hchar : ∀ d : Char, 33 ≤ d.toNat ∧ d.toNat ≤ 126 → c ≠ d := by
    rintro d hd rfl
    exact hn hd
  have hid : ¬Text.isIdentChar c = true := fun hc => hn (Text.printable_of_isIdentChar hc)
  simp only [Text.isIdentChar, Bool.or_eq_true, not_or, Bool.not_eq_true] at hid
  have hsign : Lexer.isSign c = false := by
    simp [Lexer.isSign, hchar '+' (by decide), hchar '-' (by decide)]
  unfold Lexer.open?
  by_cases hw : Lexer.isWs c
  · simp [hw]
  simp only [hw, hid.1, hid.2, hsign, Bool.false_eq_true, if_false]
  left
  split <;> first | rfl | exact absurd rfl (hchar _ (by decide))

/-- A blank text lexes to nothing, if at all. -/
theorem run_of_isSpace : ∀ {s : Text}, (∀ c ∈ s, Text.isSpace c = true) →
    lexer.run .start s = none ∨ lexer.run .start s = some ([], .start)
  | [], _ => Or.inr rfl
  | c :: s, h => by
    have hs := run_of_isSpace fun d hd => h d (List.mem_cons_of_mem _ hd)
    rcases open?_of_isSpace (h c List.mem_cons_self) with hc | hc
    · left
      have hstep : lexer.step .start c = none := hc
      simp [Scanner.run, hstep]
    · have hstep : lexer.step .start c = some ([], .start) := hc
      rw [lexer.run_cons hstep]
      rcases hs with hs | hs <;> simp [hs]

theorem parseText_blank (h : ∀ c ∈ s, Text.isSpace c = true) : parseText s = none := by
  rcases run_of_isSpace h with hrun | hrun
  · have hrun' : lexer.run lexer.start s = none := hrun
    simp [parseText, lex, Scanner.scan, Scanner.scanFrom, hrun']
  · have hrun' : lexer.run lexer.start s = some ([], .start) := hrun
    have hfin : lexer.finish .start = some [] := rfl
    have hlex : lex s = some [] := by simp [lex, Scanner.scan, Scanner.scanFrom, hrun', hfin]
    rw [parseText, hlex]
    rfl

/-! ## Trees -/

/-- Opening minus closing parentheses. -/
def Token.depth (ts : List Token) : ℤ := ts.count .lpar - ts.count .rpar

theorem Token.depth_append (ts us : List Token) :
    Token.depth (ts ++ us) = Token.depth ts + Token.depth us := by
  simp only [Token.depth, List.count_append]
  omega

theorem FieldPath.depth_tailTokens : ∀ ns : List Text, Token.depth (tailTokens ns) = 0
  | [] => rfl
  | n :: ns => by
    have := FieldPath.depth_tailTokens ns
    simpa [tailTokens, Token.depth] using this

theorem Operand.depth_tokens (o : Operand) : Token.depth o.tokens = 0 := by
  cases o with
  | fieldPath p =>
    have := FieldPath.depth_tailTokens p.tail
    simpa [Operand.tokens, Token.depth] using this
  | _ => rfl

theorem Comparison.depth_tokens (c : Comparison) : Token.depth c.tokens = 0 := by
  have hop : Token.depth (.op c.op :: c.right.tokens) = Token.depth c.right.tokens := by
    simp [Token.depth]
  rw [Comparison.tokens, Token.depth_append, hop, c.left.depth_tokens, c.right.depth_tokens]
  rfl

mutual

/-- What a tree derives is balanced. -/
theorem Expr.depth_tokens : ∀ e : Expr, Token.depth e.tokens = 0
  | .one c => c.depth_tokens
  | .or c e => by
    have hor : Token.depth (.or :: e.tokens) = Token.depth e.tokens := by simp [Token.depth]
    rw [Expr.tokens, Token.depth_append, hor, c.depth_tokens, e.depth_tokens]
    rfl

theorem Conj.depth_tokens : ∀ c : Conj, Token.depth c.tokens = 0
  | .one a => a.depth_tokens
  | .and a c => by
    have hand : Token.depth (.and :: c.tokens) = Token.depth c.tokens := by simp [Token.depth]
    rw [Conj.tokens, Token.depth_append, hand, a.depth_tokens, c.depth_tokens]
    rfl

theorem Atom.depth_tokens : ∀ a : Atom, Token.depth a.tokens = 0
  | .comparison c => c.depth_tokens
  | .paren e => by
    have := e.depth_tokens
    simp only [Token.depth] at this
    simp [Atom.tokens, Token.depth]
    omega

end

theorem parseText_eq_some {e : Expr} : parseText s = some e ↔ lex s = some e.tokens := by
  unfold parseText
  rw [Option.bind_eq_some_iff]
  constructor
  · rintro ⟨ts, hts, he⟩
    rw [hts, parseTokens_eq_some.1 he]
  · exact fun h => ⟨_, h, parseTokens_eq_some.2 rfl⟩

/-- `(rule) && (filter)` as a tree. -/
def Expr.splice (rule filter : Expr) : Expr := .one (.and (.paren rule) (.one (.paren filter)))

/-- Two filters that parse are spliced to the conjunction of their trees, unless the second
hides the closing parenthesis in a comment. -/
theorem parseText_splice {filter : Text} {r f : Expr} (hr : parseText rule = some r)
    (hf : parseText filter = some f) (hc : ¬EndsInComment rule) :
    parseText (spliceFilters rule filter) =
      if EndsInComment filter then none else some (r.splice f) := by
  rw [parseText_eq_some] at hr hf
  split_ifs with hcf
  · rw [Option.eq_none_iff_forall_ne_some]
    intro e he
    rw [parseText_eq_some, lex_spliceFilters hr hc, lex_comment_rpar hcf hf] at he
    have htok := Option.some.inj he
    have hbal := e.depth_tokens
    rw [← htok] at hbal
    have hrb := r.depth_tokens
    have hfb := f.depth_tokens
    simp only [Token.depth] at hbal hrb hfb
    simp at hbal
    omega
  · rw [parseText_eq_some, lex_spliceFilters hr hc, lex_rpar hf hcf []]
    have hnil : lex [] = some [] := by decide
    simp [hnil, Expr.splice, Expr.tokens, Conj.tokens, Atom.tokens]

theorem parseExpr_rpar (n : ℕ) (ts : List Token) : parseExpr n (.rpar :: ts) = none := by
  rcases n with _ | _ | _ | n <;>
    simp [parseExpr, parseConj, parseAtom, parseComparison, parseOperand]

theorem parseExpr_lpar_rpar (n : ℕ) (ts : List Token) :
    parseExpr n (.lpar :: .rpar :: ts) = none := by
  rcases n with _ | _ | _ | n <;> simp [parseExpr, parseConj, parseAtom, parseExpr_rpar]

/-- A blank rule leaves empty parentheses, which the grammar does not have. -/
theorem parseText_splice_blank (h : ∀ c ∈ rule, Text.isSpace c = true) (filter : Text) :
    parseText (spliceFilters rule filter) = none := by
  have hlpar : lexer.run lexer.start ['('] = some ([.lpar], .start) := by decide
  have hsplit : spliceFilters rule filter =
      ['('] ++ (rule ++ ')' :: ((" && (" : Text) ++ (filter ++ [')']))) := by
    simp [spliceFilters]
  have hrun := run_of_isSpace h
  rcases hrun with hrun | hrun
  · have hlex : lex (spliceFilters rule filter) = none := by
      rw [hsplit, lex, Scanner.scan, lexer.scanFrom_append hlpar]
      simp [Scanner.scanFrom, Scanner.run_append, hrun]
    rw [parseText, hlex]
    rfl
  · have hlex : lex rule = some [] := by
      have hfin : lexer.finish .start = some [] := rfl
      have hrun' : lexer.run lexer.start rule = some ([], .start) := hrun
      simp [lex, Scanner.scan, Scanner.scanFrom, hrun', hfin]
    have hc : ¬EndsInComment rule := by
      have hrun' : lexer.run lexer.start rule = some ([], .start) := hrun
      simp [EndsInComment, Scanner.stateAfter, hrun']
    rw [parseText, lex_spliceFilters hlex hc]
    cases lex (filter ++ [')']) with
    | none => rfl
    | some us => simp [parseTokens, parseExpr_lpar_rpar]

/-- One more alternative at the end. -/
def Expr.snoc : Expr → Conj → Expr
  | .one c, d => .or c (.one d)
  | .or c e, d => .or c (e.snoc d)

theorem Expr.tokens_snoc : ∀ (e : Expr) (d : Conj), (e.snoc d).tokens = e.tokens ++ .or :: d.tokens
  | .one c, d => rfl
  | .or c e, d => by simp [Expr.snoc, Expr.tokens, Expr.tokens_snoc e d]

/-- A rule that ends in a comment is continued by the filter's second line. -/
theorem parseText_splice_comment {rule junk rest : Text} {r : Expr} {d : Conj}
    (hr : parseText rule = some r) (hc : EndsInComment rule) (hj : '\n' ∉ junk)
    (hrest : lex (rest ++ [')']) = some (.or :: (d.tokens ++ [.rpar]))) :
    parseText (spliceFilters rule (junk ++ '\n' :: rest)) =
      some (.one (.one (.paren (r.snoc d)))) := by
  have hsplit : spliceFilters rule (junk ++ '\n' :: rest) =
      '(' :: (rule ++ ((')' :: ((" && (" : Text) ++ junk)) ++ '\n' :: (rest ++ [')']))) := by
    simp [spliceFilters]
  have hnl : '\n' ∉ ')' :: ((" && (" : Text) ++ junk) := by
    simp [hj]
  rw [parseText_eq_some] at hr ⊢
  rw [hsplit, lex_lpar, lex_comment hc hr hnl, hrest]
  simp [Expr.tokens, Conj.tokens, Atom.tokens, Expr.tokens_snoc]

/-! ## A filter that does not parse on its own -/

/-- One more conjunct in front of the first alternative. -/
def Expr.consAnd (a : Atom) : Expr → Expr
  | .one c => .one (.and a c)
  | .or c e => .or (.and a c) e

theorem Expr.tokens_consAnd (a : Atom) (e : Expr) :
    (e.consAnd a).tokens = a.tokens ++ .and :: e.tokens := by
  cases e <;> simp [Expr.consAnd, Expr.tokens, Conj.tokens]

/-- An atom and the rest are read off a terminal sequence in one way. -/
theorem atom_tokens_inj {a a' : Atom} {ts' : List Token} (hd : ts.head? ≠ some .dot)
    (hd' : ts'.head? ≠ some .dot) (h : a.tokens ++ ts = a'.tokens ++ ts') : a = a' ∧ ts = ts' := by
  let n := 3 * a.tokens.length + 3 * a'.tokens.length
  have h₁ := parseAtom_tokens a n ts (by omega) hd
  have h₂ := parseAtom_tokens a' n ts' (by omega) hd'
  rw [h, h₂] at h₁
  obtain ⟨rfl, rfl⟩ := Prod.mk.inj (Option.some.inj h₁)
  exact ⟨rfl, rfl⟩

/-- A tree whose terminals start with an atom and `&&` has the atom as first conjunct. -/
theorem exists_consAnd {e : Expr} {a : Atom} (h : e.tokens = a.tokens ++ .and :: ts) :
    ∃ e' : Expr, e'.tokens = ts ∧ e = e'.consAnd a := by
  rcases e with ⟨a' | ⟨a', c'⟩⟩ | ⟨a' | ⟨a', c'⟩, e'⟩
  · have h' : a'.tokens ++ [] = a.tokens ++ .and :: ts := by
      simpa [Expr.tokens, Conj.tokens] using h
    obtain ⟨-, hts⟩ := atom_tokens_inj (by simp) (by simp) h'
    cases hts
  · have h' : a'.tokens ++ .and :: c'.tokens = a.tokens ++ .and :: ts := by
      simpa [Expr.tokens, Conj.tokens] using h
    obtain ⟨rfl, hts⟩ := atom_tokens_inj (by simp) (by simp) h'
    exact ⟨.one c', (List.cons.inj hts).2, rfl⟩
  · have h' : a'.tokens ++ .or :: e'.tokens = a.tokens ++ .and :: ts := by
      simpa [Expr.tokens, Conj.tokens] using h
    obtain ⟨-, hts⟩ := atom_tokens_inj (by simp) (by simp) h'
    cases hts
  · have h' : a'.tokens ++ .and :: (c'.tokens ++ .or :: e'.tokens) = a.tokens ++ .and :: ts := by
      simpa [Expr.tokens, Conj.tokens] using h
    obtain ⟨rfl, hts⟩ := atom_tokens_inj (by simp) (by simp) h'
    exact ⟨.or c' e', (List.cons.inj hts).2, rfl⟩

/-- `(filter)` as a text of its own. -/
def parenthesized (filter : Text) : Text := '(' :: (filter ++ [')'])

/-- After a rule that parses and does not end in a comment, any filter text is read as it is
in parentheses, with the rule as one more conjunct of its first alternative. -/
theorem parseText_splice_any {r : Expr} (hr : parseText rule = some r) (hc : ¬EndsInComment rule)
    (filter : Text) :
    parseText (spliceFilters rule filter) =
      (parseText (parenthesized filter)).map (Expr.consAnd (.paren r)) := by
  rw [parseText_eq_some] at hr
  have hlex : lex (spliceFilters rule filter) =
      (lex (parenthesized filter)).map fun us => (Atom.paren r).tokens ++ .and :: us := by
    rw [lex_spliceFilters hr hc, parenthesized, lex_lpar, Option.map_map]
    congr 1
    funext us
    simp [Atom.tokens]
  ext e
  rw [Option.map_eq_some_iff, parseText_eq_some, hlex, Option.map_eq_some_iff]
  constructor
  · rintro ⟨us, hus, h⟩
    obtain ⟨e', rfl, rfl⟩ := exists_consAnd h.symm
    exact ⟨e', parseText_eq_some.2 hus, rfl⟩
  · rintro ⟨e', he', rfl⟩
    exact ⟨e'.tokens, parseText_eq_some.1 he', (e'.tokens_consAnd _).symm⟩

end PPBase
