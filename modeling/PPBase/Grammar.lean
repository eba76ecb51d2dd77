import PPBase.Lexer

/-!
# The filter grammar

`Expr`, `Conj` and `Atom` are the parse trees of `_GRAMMAR` : an `or_expr` is a list of
`and_expr` joined by `||`, an `and_expr` a list of atoms joined by `&&`, and an atom a
comparison or an expression in parentheses, which the tree keeps. `Expr.tokens` is the
terminal sequence a tree derives. `parseTokens` reads a tree off a terminal sequence, and
`parseTokens_eq_some` says that it returns a tree exactly when the tree derives the
sequence, so the grammar is unambiguous and the parser implements it. The two overlaps of
the source grammar are decided as its rule order decides them : `true`, `false` and `null`
on their own are not field paths (`FieldPath.notKeyword`), and `''` is a string.

`parseExpr_tokens` is the form the splices use : an expression is read back from any input
that goes on with something other than `&&` or `||`.
-/

namespace PPBase

/-- Identifiers the rules `boolean` and `null` take before `field_path` does. -/
def keywords : List Text := ["true", "false", "null"]

/-- `field_path : FIELD_IDENT ("." FIELD_IDENT)*` -/
structure FieldPath where
  head : Text
  tail : List Text
  notKeyword : tail = [] → head ∉ keywords
  deriving DecidableEq

namespace FieldPath

/-- The identifiers of a path, in order. -/
def parts (p : FieldPath) : List Text := p.head :: p.tail

/-- The terminals of the tail of a path. -/
def tailTokens : List Text → List Token
  | [] => []
  | n :: ns => .dot :: .ident n :: tailTokens ns

end FieldPath

/-- `operand` -/
inductive Operand
  | string (raw : Text)
  | number (raw : Text)
  | trueVal
  | falseVal
  | null
  | macroName (name : Text)
  | fieldPath (p : FieldPath)
  deriving DecidableEq

/-- `comparison : operand OPERATOR operand` -/
structure Comparison where
  left : Operand
  op : Operator
  right : Operand
  deriving DecidableEq

mutual

/-- `or_expr : and_expr ("||" and_expr)*` -/
inductive Expr
  | one (c : Conj)
  | or (c : Conj) (e : Expr)

/-- `and_expr : atom ("&&" atom)*` -/
inductive Conj
  | one (a : Atom)
  | and (a : Atom) (c : Conj)

/-- `atom : comparison | "(" expression ")"` -/
inductive Atom
  | comparison (c : Comparison)
  | paren (e : Expr)

end

mutual

/-- The operands of an expression, from left to right. -/
def Expr.operands : Expr → List Operand
  | .one c => c.operands
  | .or c e => c.operands ++ e.operands

def Conj.operands : Conj → List Operand
  | .one a => a.operands
  | .and a c => a.operands ++ c.operands

def Atom.operands : Atom → List Operand
  | .comparison c => [c.left, c.right]
  | .paren e => e.operands

end

/-! ## The sequences a tree derives -/

def Operand.tokens : Operand → List Token
  | .string raw => [.string raw]
  | .number raw => [.number raw]
  | .trueVal => [.ident "true"]
  | .falseVal => [.ident "false"]
  | .null => [.ident "null"]
  | .macroName name => [.macroName name]
  | .fieldPath p => .ident p.head :: FieldPath.tailTokens p.tail

def Comparison.tokens (c : Comparison) : List Token :=
  c.left.tokens ++ .op c.op :: c.right.tokens

mutual

def Expr.tokens : Expr → List Token
  | .one c => c.tokens
  | .or c e => c.tokens ++ .or :: e.tokens

def Conj.tokens : Conj → List Token
  | .one a => a.tokens
  | .and a c => a.tokens ++ .and :: c.tokens

def Atom.tokens : Atom → List Token
  | .comparison c => c.tokens
  | .paren e => .lpar :: (e.tokens ++ [.rpar])

end

/-! ## The parser -/

/-- The dotted tail of a path, as long as it goes on. -/
def parsePathTail : List Token → List Text × List Token
  | .dot :: .ident n :: ts => (n :: (parsePathTail ts).1, (parsePathTail ts).2)
  | ts => ([], ts)

/-- The operand an identifier and a dotted tail stand for. -/
def identOperand (head : Text) (tail : List Text) : Operand :=
  if h : tail = [] → head ∉ keywords then .fieldPath ⟨head, tail, h⟩
  else if head = "true" then .trueVal
  else if head = "false" then .falseVal
  else .null

def parseOperand : List Token → Option (Operand × List Token)
  | .string raw :: ts => some (.string raw, ts)
  | .number raw :: ts => some (.number raw, ts)
  | .macroName name :: ts => some (.macroName name, ts)
  | .ident n :: ts => some (identOperand n (parsePathTail ts).1, (parsePathTail ts).2)
  | _ => none

def parseComparison (ts : List Token) : Option (Comparison × List Token) :=
  match parseOperand ts with
  | some (l, .op o :: ts) => (parseOperand ts).map fun p => (⟨l, o, p.1⟩, p.2)
  | _ => none

mutual

def parseExpr : ℕ → List Token → Option (Expr × List Token)
  | 0, _ => none
  | n + 1, ts =>
    match parseConj n ts with
    | some (c, .or :: ts) => (parseExpr n ts).map fun p => (.or c p.1, p.2)
    | some (c, ts) => some (.one c, ts)
    | none => none

def parseConj : ℕ → List Token → Option (Conj × List Token)
  | 0, _ => none
  | n + 1, ts =>
    match parseAtom n ts with
    | some (a, .and :: ts) => (parseConj n ts).map fun p => (.and a p.1, p.2)
    | some (a, ts) => some (.one a, ts)
    | none => none

def parseAtom : ℕ → List Token → Option (Atom × List Token)
  | 0, _ => none
  | n + 1, .lpar :: ts =>
    match parseExpr n ts with
    | some (e, .rpar :: ts) => some (.paren e, ts)
    | _ => none
  | _ + 1, ts => (parseComparison ts).map fun p => (.comparison p.1, p.2)

end

/-- The tree of a terminal sequence. Each bracket costs three levels of descent. -/
def parseTokens (ts : List Token) : Option Expr :=
  match parseExpr (3 * ts.length + 2) ts with
  | some (e, []) => some e
  | _ => none

/-! ## The parser returns what it reads -/

theorem parsePathTail_eq (ts : List Token) :
    FieldPath.tailTokens (parsePathTail ts).1 ++ (parsePathTail ts).2 = ts := by
  fun_induction parsePathTail ts with
  | case1 n ts ih => simp [FieldPath.tailTokens, ih]
  | case2 ts => rfl

theorem identOperand_tokens (head : Text) (tail : List Text) :
    (identOperand head tail).tokens = .ident head :: FieldPath.tailTokens tail := by
  unfold identOperand
  split_ifs with h h₁ h₂
  · rfl
  · obtain ⟨rfl, -⟩ := Classical.not_imp.1 h
    simp [Operand.tokens, FieldPath.tailTokens, h₁]
  · obtain ⟨rfl, -⟩ := Classical.not_imp.1 h
    simp [Operand.tokens, FieldPath.tailTokens, h₂]
  · obtain ⟨rfl, hk⟩ := Classical.not_imp.1 h
    have hn : head = ("null" : Text) := by
      have := not_not.1 hk
      simp only [keywords, List.mem_cons, List.not_mem_nil, or_false] at this
      exact (this.resolve_left h₁).resolve_left h₂
    simp [Operand.tokens, FieldPath.tailTokens, hn]

variable {ts rest : List Token}

theorem tokens_of_parseOperand {o : Operand} (h : parseOperand ts = some (o, rest)) :
    ts = o.tokens ++ rest := by
  unfold parseOperand at h
  split at h
  · obtain ⟨rfl, rfl⟩ := Prod.mk.inj (Option.some.inj h)
    rfl
  · obtain ⟨rfl, rfl⟩ := Prod.mk.inj (Option.some.inj h)
    rfl
  · obtain ⟨rfl, rfl⟩ := Prod.mk.inj (Option.some.inj h)
    rfl
  · obtain ⟨rfl, rfl⟩ := Prod.mk.inj (Option.some.inj h)
    rw [identOperand_tokens, List.cons_append, parsePathTail_eq]
  · cases h

theorem tokens_of_parseComparison {c : Comparison} (h : parseComparison ts = some (c, rest)) :
    ts = c.tokens ++ rest := by
  unfold parseComparison at h
  split at h
  · next l o us hl =>
    obtain ⟨⟨r, vs⟩, hr, h⟩ := Option.map_eq_some_iff.1 h
    obtain ⟨rfl, rfl⟩ := Prod.mk.inj h
    rw [tokens_of_parseOperand hl, tokens_of_parseOperand hr]
    simp [Comparison.tokens]
  · cases h

/-- Whatever the parser returns derives the terminals it consumed. -/
theorem tokens_of_parse (n : ℕ) :
    (∀ ts e rest, parseExpr n ts = some (e, rest) → ts = e.tokens ++ rest) ∧
    (∀ ts c rest, parseConj n ts = some (c, rest) → ts = c.tokens ++ rest) ∧
    (∀ ts a rest, parseAtom n ts = some (a, rest) → ts = a.tokens ++ rest) := by
  induction n with
  | zero => simp [parseExpr, parseConj, parseAtom]
  | succ n ih =>
    obtain ⟨ihe, ihc, iha⟩ := ih
    refine ⟨fun ts e rest h => ?_, fun ts c rest h => ?_, fun ts a rest h => ?_⟩
    · unfold parseExpr at h
      split at h
      · next c us hc =>
        obtain ⟨⟨e', vs⟩, he, h⟩ := Option.map_eq_some_iff.1 h
        obtain ⟨rfl, rfl⟩ := Prod.mk.inj h
        rw [ihc _ _ _ hc, ihe _ _ _ he]
        simp [Expr.tokens]
      · next c us _ hc =>
        obtain ⟨rfl, rfl⟩ := Prod.mk.inj (Option.some.inj h)
        rw [ihc _ _ _ hc, Expr.tokens]
      · cases h
    · unfold parseConj at h
      split at h
      · next a us ha =>
        obtain ⟨⟨c', vs⟩, hc, h⟩ := Option.map_eq_some_iff.1 h
        obtain ⟨rfl, rfl⟩ := Prod.mk.inj h
        rw [iha _ _ _ ha, ihc _ _ _ hc]
        simp [Conj.tokens]
      · next a us _ ha =>
        obtain ⟨rfl, rfl⟩ := Prod.mk.inj (Option.some.inj h)
        rw [iha _ _ _ ha, Conj.tokens]
      · cases h
    · unfold parseAtom at h
      split at h
      · next hn => cases hn
      · next m us hm =>
        obtain rfl := Nat.succ.inj hm
        split at h
        · next e vs he =>
          obtain ⟨rfl, rfl⟩ := Prod.mk.inj (Option.some.inj h)
          rw [ihe _ _ _ he]
          simp [Atom.tokens]
        · cases h
      · obtain ⟨⟨c, us⟩, hc, h⟩ := Option.map_eq_some_iff.1 h
        obtain ⟨rfl, rfl⟩ := Prod.mk.inj h
        rw [tokens_of_parseComparison hc, Atom.tokens]

/-! ## The parser reads back what a tree derives -/

theorem parsePathTail_tailTokens {rest : List Token} (h : rest.head? ≠ some .dot) :
    ∀ ns : List Text, parsePathTail (FieldPath.tailTokens ns ++ rest) = (ns, rest)
  | [] => by
    rw [FieldPath.tailTokens, List.nil_append]
    unfold parsePathTail
    split
    · simp at h
    · rfl
  | n :: ns => by
    simp [FieldPath.tailTokens, parsePathTail, parsePathTail_tailTokens h ns]

theorem parseOperand_tokens (o : Operand) (h : rest.head? ≠ some .dot) :
    parseOperand (o.tokens ++ rest) = some (o, rest) := by
  have hnil := parsePathTail_tailTokens h []
  simp only [FieldPath.tailTokens, List.nil_append] at hnil
  cases o with
  | string raw => rfl
  | number raw => rfl
  | macroName name => rfl
  | trueVal => simp [Operand.tokens, parseOperand, hnil, identOperand, keywords]
  | falseVal => simp [Operand.tokens, parseOperand, hnil, identOperand, keywords]
  | null => simp [Operand.tokens, parseOperand, hnil, identOperand, keywords]
  | fieldPath p =>
    simp only [Operand.tokens, List.cons_append, parseOperand, parsePathTail_tailTokens h]
    rw [identOperand, dif_pos p.notKeyword]

theorem parseComparison_tokens (c : Comparison) (h : rest.head? ≠ some .dot) :
    parseComparison (c.tokens ++ rest) = some (c, rest) := by
  have hl : parseOperand (c.left.tokens ++ .op c.op :: (c.right.tokens ++ rest)) = _ :=
    parseOperand_tokens c.left (by simp)
  simp [parseComparison, Comparison.tokens, hl, parseOperand_tokens c.right h]

theorem parseAtom_of_parseComparison {n : ℕ} {c : Comparison}
    (h : parseComparison ts = some (c, rest)) :
    parseAtom (n + 1) ts = some (.comparison c, rest) := by
  unfold parseAtom
  split
  · next hn => cases hn
  · next us _ => simp [parseComparison, parseOperand] at h
  · next m us _ hm hus =>
    rw [h]
    rfl

theorem Comparison.tokens_ne_nil (c : Comparison) : c.tokens ≠ [] := by
  simp [Comparison.tokens]

mutual

/-- An expression is read back from any input that does not continue it. -/
theorem parseExpr_tokens : ∀ (e : Expr) (n : ℕ) (rest : List Token),
    3 * e.tokens.length + 2 ≤ n → rest.head? ≠ some .dot → rest.head? ≠ some .and →
    rest.head? ≠ some .or → parseExpr n (e.tokens ++ rest) = some (e, rest)
  | .one c, n + 1, rest, hn, hd, ha, ho => by
    have hc := parseConj_tokens c n rest (by simp [Expr.tokens] at hn; omega) hd ha
    rw [Expr.tokens, parseExpr, hc]
    cases rest with
    | nil => rfl
    | cons t rest =>
      cases t with
      | or => simp at ho
      | _ => rfl
  | .or c e, n + 1, rest, hn, hd, ha, ho => by
    simp only [Expr.tokens, List.length_append, List.length_cons] at hn
    have hc := parseConj_tokens c n (.or :: (e.tokens ++ rest)) (by omega)
      (by simp) (by simp)
    have he := parseExpr_tokens e n rest (by omega) hd ha ho
    simp [Expr.tokens, parseExpr, hc, he]

theorem parseConj_tokens : ∀ (c : Conj) (n : ℕ) (rest : List Token),
    3 * c.tokens.length + 1 ≤ n → rest.head? ≠ some .dot → rest.head? ≠ some .and →
    parseConj n (c.tokens ++ rest) = some (c, rest)
  | .one a, n + 1, rest, hn, hd, ha => by
    have h := parseAtom_tokens a n rest (by simp [Conj.tokens] at hn; omega) hd
    rw [Conj.tokens, parseConj, h]
    cases rest with
    | nil => rfl
    | cons t rest =>
      cases t with
      | and => simp at ha
      | _ => rfl
  | .and a c, n + 1, rest, hn, hd, ha => by
    simp only [Conj.tokens, List.length_append, List.length_cons] at hn
    have h := parseAtom_tokens a n (.and :: (c.tokens ++ rest)) (by omega) (by simp)
    have hc := parseConj_tokens c n rest (by omega) hd ha
    simp [Conj.tokens, parseConj, h, hc]

theorem parseAtom_tokens : ∀ (a : Atom) (n : ℕ) (rest : List Token),
    3 * a.tokens.length ≤ n → rest.head? ≠ some .dot →
    parseAtom n (a.tokens ++ rest) = some (a, rest)
  | .comparison c, 0, rest, hn, hd => by
    have := List.length_pos_iff.2 c.tokens_ne_nil
    simp only [Atom.tokens] at hn
    omega
  | .comparison c, n + 1, rest, hn, hd =>
    parseAtom_of_parseComparison (parseComparison_tokens c hd)
  | .paren e, 0, rest, hn, hd => by simp [Atom.tokens] at hn
  | .paren e, n + 1, rest, hn, hd => by
    simp only [Atom.tokens, List.length_append, List.length_cons] at hn
    have he := parseExpr_tokens e n (.rpar :: rest) (by omega) (by simp) (by simp)
      (by simp)
    simp [Atom.tokens, parseAtom, he]

end

/-- The parser returns a tree exactly when the tree derives its input. -/
theorem parseTokens_eq_some {e : Expr} : parseTokens ts = some e ↔ e.tokens = ts := by
  constructor
  · intro h
    unfold parseTokens at h
    split at h
    · next e' he =>
      obtain rfl := Option.some.inj h
      have := (tokens_of_parse _).1 _ _ _ he
      simpa using this.symm
    · cases h
  · rintro rfl
    have := parseExpr_tokens e _ [] (Nat.le_refl _) (by simp) (by simp) (by simp)
    rw [List.append_nil] at this
    rw [parseTokens, this]

end PPBase
