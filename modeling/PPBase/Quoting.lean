import Mathlib.Data.List.Chain
import PPBase.Splice

/-!
# Quoted values in filters

The client library puts a value into a filter between single quotes, with a backslash before every
single quote in it (`quote`). The literal that results ends at its last quote exactly if no
backslash of the value takes a quote, or is left without a character (`lex_quote_iff`). A template
that is filled with such values keeps its terminals and its tree (`lex_fill`,
`skeleton_fill`), and a value whose backslashes stand before no escape is read back
(`unescapeText_escapeQuotes`). `quote_spec` puts the three together.
-/

namespace PPBase

namespace Quoting

/-! ## The quoted value -/

/-- `v.replace("'", "\\'")` -/
def escapeQuotes : Text → Text
  | [] => []
  | c :: cs => if c = '\'' then '\\' :: '\'' :: escapeQuotes cs else c :: escapeQuotes cs

/-- A value as the client library puts it into a filter. -/
def quote (v : Text) : Text := '\'' :: (escapeQuotes v ++ ['\''])

/-- Read from the left, every backslash takes the character after it, and that is no single
quote. -/
def Contained : Text → Prop
  | [] => True
  | c :: cs =>
    if c = '\\' then
      match cs with
      | [] => False
      | d :: ds => d ≠ '\'' ∧ Contained ds
    else Contained cs

/-- The characters that make an escape after a backslash. -/
def escapes : List Char := ['n', 't', 'r', '\\', '\'', '"']

/-- No backslash stands before one of them, or at the end. -/
def Plain (v : Text) : Prop :=
  v.IsChain (fun a b => a = '\\' → b ∉ escapes) ∧ v.getLast? ≠ some '\\'

theorem escapeQuotes_quote (cs : Text) :
    escapeQuotes ('\'' :: cs) = '\\' :: '\'' :: escapeQuotes cs := rfl

variable {c : Char} {v : Text} {us : List Token}

theorem escapeQuotes_cons (h : c ≠ '\'') (cs : Text) :
    escapeQuotes (c :: cs) = c :: escapeQuotes cs := if_neg h

theorem contained_escape (d : Char) (ds : Text) :
    Contained ('\\' :: d :: ds) ↔ d ≠ '\'' ∧ Contained ds := Iff.rfl

theorem contained_cons (h : c ≠ '\\') (cs : Text) : Contained (c :: cs) ↔ Contained cs := by
  cases cs with
  | nil => exact iff_of_eq (if_neg h)
  | cons d ds => exact iff_of_eq (if_neg h)

/-- Backslashes are taken off a text with the character after them. -/
@[elab_as_elim]
theorem escape_induction {motive : Text → Prop} (nil : motive []) (last : motive ['\\'])
    (escape : ∀ d ds, motive ds → motive ('\\' :: d :: ds))
    (cons : ∀ c cs, c ≠ '\\' → motive cs → motive (c :: cs)) : ∀ v, motive v
  | [] => nil
  | c :: cs => by
    by_cases hc : c = '\\'
    · subst hc
      cases cs with
      | nil => exact last
      | cons d ds => exact escape d ds (escape_induction nil last escape cons ds)
    · exact cons c cs hc (escape_induction nil last escape cons cs)

/-! ## The literal -/

theorem step_backslash (acc : Text) :
    lexer.step (.quoted '\'' acc) '\\' = some ([], .escaped '\'' (acc ++ ['\\'])) := rfl

theorem step_escaped (acc : Text) (c : Char) :
    lexer.step (.escaped '\'' acc) c = some ([], .quoted '\'' (acc ++ [c])) := rfl

theorem step_close (acc : Text) :
    lexer.step (.quoted '\'' acc) '\'' = some ([.string (acc ++ ['\''])], .start) := rfl

theorem step_quoted (hslash : c ≠ '\\') (hquote : c ≠ '\'') (acc : Text) :
    lexer.step (.quoted '\'' acc) c = some ([], .quoted '\'' (acc ++ [c])) :=
  (if_neg hslash).trans (if_neg hquote)

/-- Two characters of a literal, the first a backslash. -/
theorem scanFrom_escape (acc : Text) (d : Char) (w : Text) :
    lexer.scanFrom (.quoted '\'' acc) ('\\' :: d :: w) =
      lexer.scanFrom (.quoted '\'' (acc ++ ['\\', d])) w := by
  rw [lexer.scanFrom_silent (step_backslash acc), lexer.scanFrom_silent (step_escaped _ d),
    List.append_assoc]
  rfl

/-- A value that is contained is read up to the closing quote. -/
theorem scanFrom_escapeQuotes (h : Contained v) (acc w : Text) :
    lexer.scanFrom (.quoted '\'' acc) (escapeQuotes v ++ '\'' :: w) =
      (lex w).map (.string (acc ++ escapeQuotes v ++ ['\'']) :: ·) := by
  induction v using escape_induction generalizing acc with
  | nil =>
    rw [escapeQuotes, List.nil_append, List.append_nil]
    exact lexer.scanFrom_cons (step_close acc) w
  | last => exact h.elim
  | escape d ds ih =>
    obtain ⟨hd, hds⟩ := (contained_escape d ds).1 h
    rw [escapeQuotes_cons (by decide), escapeQuotes_cons hd, List.cons_append, List.cons_append,
      scanFrom_escape, ih hds]
    simp
  | cons c cs hc ih =>
    have hcs := (contained_cons hc cs).1 h
    by_cases hquote : c = '\''
    · subst hquote
      rw [escapeQuotes_quote, List.cons_append, List.cons_append, scanFrom_escape, ih hcs]
      simp
    · rw [escapeQuotes_cons hquote, List.cons_append,
        lexer.scanFrom_silent (step_quoted hc hquote _), ih hcs]
      simp

/-- A value that is read up to the closing quote is contained. -/
theorem contained_of_scanFrom {acc : Text}
    (h : lexer.scanFrom (.quoted '\'' acc) (escapeQuotes v ++ ['\'']) = some [.string (acc ++ escapeQuotes v ++ ['\''])]) :
    Contained v := by
  induction v using escape_induction generalizing acc with
  | nil => trivial
  | last =>
    rw [escapeQuotes_cons (by decide), List.cons_append, escapeQuotes, List.nil_append,
      scanFrom_escape] at h
    cases h
  | escape d ds ih =>
    rw [escapeQuotes_cons (by decide)] at h
    refine (contained_escape d ds).2 ?_
    by_cases hd : d = '\''
    · subst hd
      rw [escapeQuotes_quote, List.cons_append, List.cons_append, List.cons_append,
        scanFrom_escape, lexer.scanFrom_cons (step_close _)] at h
      obtain ⟨us, -, hus⟩ := Option.map_eq_some_iff.1 h
      have hlength := congrArg List.length (Token.string.inj (List.cons.inj hus).1)
      simp at hlength
    · rw [escapeQuotes_cons hd, List.cons_append, List.cons_append, scanFrom_escape] at h
      exact ⟨hd, ih (h.trans (by simp))⟩
  | cons c cs hc ih =>
    refine (contained_cons hc cs).2 ?_
    by_cases hquote : c = '\''
    · subst hquote
      rw [escapeQuotes_quote, List.cons_append, List.cons_append, scanFrom_escape] at h
      exact ih (h.trans (by simp))
    · rw [escapeQuotes_cons hquote, List.cons_append,
        lexer.scanFrom_silent (step_quoted hc hquote _)] at h
      exact ih (h.trans (by simp))

/-- A quoted value is one literal that ends at its last quote exactly if it is contained. -/
theorem lex_quote_iff (v : Text) : lex (quote v) = some [.string (quote v)] ↔ Contained v := by
  have hopen : lexer.step .start '\'' = some ([], .quoted '\'' ['\'']) := rfl
  have hlex : lex (quote v) = lexer.scanFrom (.quoted '\'' ['\'']) (escapeQuotes v ++ ['\'']) :=
    lexer.scanFrom_silent hopen _
  rw [hlex]
  constructor
  · exact fun h => contained_of_scanFrom h
  · intro h
    rw [scanFrom_escapeQuotes h]
    rfl

/-! ## The value of the literal -/

theorem unescapeText_cons (h : c ≠ '\\') (cs : Text) :
    unescapeText (c :: cs) = c :: unescapeText cs := by
  rw [unescapeText]
  · rintro rfl
    exact absurd rfl h
  · rintro d ds rfl
    exact absurd rfl h

theorem unescapeText_other {d : Char} (h : d ∉ escapes) (ds : Text) :
    unescapeText ('\\' :: d :: ds) = '\\' :: d :: unescapeText ds := by
  rw [unescapeText]
  · rfl
  all_goals
    rintro rfl
    exact h (by decide)

theorem Plain.tail {cs : Text} (h : Plain (c :: cs)) : Plain cs := by
  refine ⟨h.1.tail, fun hlast => h.2 ?_⟩
  rw [List.getLast?_cons, hlast]
  rfl

/-- A value whose backslashes make no escape is read back. -/
theorem unescapeText_escapeQuotes (h : Plain v) :
    Contained v ∧ unescapeText (escapeQuotes v) = v := by
  induction v using escape_induction with
  | nil => exact ⟨trivial, rfl⟩
  | last => exact absurd rfl h.2
  | escape d ds ih =>
    have hd : d ∉ escapes := (List.isChain_cons_cons.1 h.1).1 rfl
    have hquote : d ≠ '\'' := by
      rintro rfl
      exact hd (by decide)
    obtain ⟨hds, hback⟩ := ih h.tail.tail
    refine ⟨(contained_escape d ds).2 ⟨hquote, hds⟩, ?_⟩
    rw [escapeQuotes_cons (by decide), escapeQuotes_cons hquote, unescapeText_other hd, hback]
  | cons c cs hc ih =>
    obtain ⟨hcs, hback⟩ := ih h.tail
    refine ⟨(contained_cons hc cs).2 hcs, ?_⟩
    by_cases hquote : c = '\''
    · subst hquote
      rw [escapeQuotes_quote]
      exact congrArg ('\'' :: ·) hback
    · rw [escapeQuotes_cons hquote, unescapeText_cons hc, hback]

theorem operandNode_quote (E : FilterEnv) (h : Plain v) :
    E.operandNode (.string (quote v)) = .ok (.literal (.text v)) := by
  have hbody : ((quote v).drop 1).dropLast = escapeQuotes v := List.dropLast_concat
  rw [FilterEnv.operandNode, hbody, (unescapeText_escapeQuotes h).2]

/-! ## Templates -/

/-- A piece of a template: a text, or the place of a value. -/
inductive Piece (ι : Type)
  | text (s : Text)
  | slot (i : ι)

section Templates

variable {ι : Type}

/-- The filter that a template makes of some values. -/
def fill (vals : ι → Text) : List (Piece ι) → Text
  | [] => []
  | .text s :: t => s ++ fill vals t
  | .slot i :: t => quote (vals i) ++ fill vals t

/-- A quote opens a literal here, if anything may stand here. -/
def Outside : LexState → Prop
  | .comment | .quoted .. | .escaped .. => False
  | _ => True

/-- No value stands in a comment or in a literal of the template. -/
def Placed : LexState → List (Piece ι) → Prop
  | _, [] => True
  | st, .text s :: t => ∀ p, lexer.run st s = some p → Placed p.2 t
  | st, .slot _ :: t => Outside st ∧ Placed .start t

/-- The terminals of a template, with the places of the values among them. -/
def terminals : LexState → List (Piece ι) → Option (List (Token ⊕ ι))
  | st, [] => (lexer.finish st).map (·.map .inl)
  | st, .text s :: t =>
    (lexer.run st s).bind fun p => (terminals p.2 t).map (p.1.map .inl ++ ·)
  | st, .slot i :: t =>
    (lexer.step st '\'').bind fun p => (terminals .start t).map (p.1.map .inl ++ .inr i :: ·)

/-- The terminals with the quoted values. -/
def withValues (vals : ι → Text) (ts : List (Token ⊕ ι)) : List Token :=
  ts.map (Sum.elim id fun i => .string (quote (vals i)))

/-- A quote opens a literal outside of comments and literals. -/
theorem step_quote {st : LexState} (h : Outside st) :
    lexer.step st '\'' = none ∨
      ∃ ts, lexer.step st '\'' = some (ts, .quoted '\'' ['\'']) := by
  cases st with
  | comment => exact h.elim
  | quoted => exact h.elim
  | escaped => exact h.elim
  | operator p => cases p <;> first | exact .inl rfl | exact .inr ⟨_, rfl⟩
  | _ => first | exact .inl rfl | exact .inr ⟨_, rfl⟩

theorem withValues_inl (vals : ι → Text) (ts : List Token) (us : List (Token ⊕ ι)) :
    withValues vals (ts.map .inl ++ us) = ts ++ withValues vals us := by
  simp [withValues]

/-- The terminals of a filled template are those of the template. -/
theorem scanFrom_fill {vals : ι → Text} : ∀ {t : List (Piece ι)} {st : LexState},
    (∀ i, .slot i ∈ t → Contained (vals i)) → Placed st t →
      lexer.scanFrom st (fill vals t) = (terminals st t).map (withValues vals)
  | [], st, _, _ => by
    rw [fill, terminals, Scanner.scanFrom, lexer.run_nil, Option.bind_some, Option.map_map]
    congr 1
    funext ts
    have hts := withValues_inl vals ts []
    rw [List.append_nil] at hts
    exact (List.append_nil ts).symm.trans hts.symm
  | .text s :: t, st, h, hplaced => by
    have ht : ∀ i, .slot i ∈ t → Contained (vals i) := fun i hi => h i (List.mem_cons_of_mem _ hi)
    rw [fill, terminals]
    cases hrun : lexer.run st s with
    | none =>
      rw [Scanner.scanFrom, lexer.run_append, hrun]
      rfl
    | some p =>
      rw [lexer.scanFrom_append hrun, scanFrom_fill ht (hplaced p hrun)]
      rw [Option.bind_some, Option.map_map, Option.map_map]
      simp only [Function.comp_def, withValues_inl]
  | .slot i :: t, st, h, ⟨hout, hplaced⟩ => by
    have ht : ∀ i, .slot i ∈ t → Contained (vals i) := fun i hi => h i (List.mem_cons_of_mem _ hi)
    rw [fill, terminals]
    rcases step_quote hout with hstep | ⟨ts, hstep⟩
    · rw [Scanner.scanFrom, quote, List.cons_append, lexer.run_cons_none hstep, hstep]
      rfl
    · have hquote : quote (vals i) ++ fill vals t =
          '\'' :: (escapeQuotes (vals i) ++ '\'' :: fill vals t) := by
        simp [quote]
      have hlex : lex (fill vals t) = (terminals .start t).map (withValues vals) :=
        scanFrom_fill ht hplaced
      rw [hquote, lexer.scanFrom_cons hstep, scanFrom_escapeQuotes (h i List.mem_cons_self), hlex,
        hstep]
      rw [Option.bind_some, Option.map_map, Option.map_map, Option.map_map]
      simp only [Function.comp_def, withValues_inl]
      rfl

end Templates

/-! ## The tree -/

/-- The literals of the texts are left out. -/
def skeletonOperand : Operand → Operand
  | .string _ => .string []
  | o => o

mutual

/-- A tree without the texts of its literals. -/
def skeleton : Expr → Expr
  | .one c => .one (skeletonConj c)
  | .or c e => .or (skeletonConj c) (skeleton e)

def skeletonConj : Conj → Conj
  | .one a => .one (skeletonAtom a)
  | .and a c => .and (skeletonAtom a) (skeletonConj c)

def skeletonAtom : Atom → Atom
  | .comparison c => .comparison ⟨skeletonOperand c.left, c.op, skeletonOperand c.right⟩
  | .paren e => .paren (skeleton e)

end

/-- The same terminal, or two literals. -/
def Alike (t u : Token) : Prop := u = t ∨ ∃ r s, t = .string r ∧ u = .string s

theorem Alike.eq {t u : Token} (h : Alike t u) (ht : ∀ r, t ≠ .string r) : u = t :=
  h.resolve_right fun ⟨r, _, hr, _⟩ => ht r hr

theorem alike_tailTokens : ∀ {ns : List Text} {us : List Token},
    List.Forall₂ Alike (FieldPath.tailTokens ns) us → us = FieldPath.tailTokens ns
  | [], _, h => List.forall₂_nil_left_iff.1 h
  | n :: ns, _, .cons hdot (.cons hn h) => by
    rw [hdot.eq nofun, hn.eq nofun, alike_tailTokens h]
    rfl

theorem alike_single {t : Token} (ht : ∀ r, t ≠ .string r) (h : List.Forall₂ Alike [t] us) :
    us = [t] := by
  obtain ⟨u, us', hu, hus, rfl⟩ := List.forall₂_cons_left_iff.1 h
  rw [hu.eq ht, List.forall₂_nil_left_iff.1 hus]

/-- Other literals at the same places make an operand of the same form. -/
theorem exists_operand {o : Operand} (h : List.Forall₂ Alike o.tokens us) :
    ∃ o', o'.tokens = us ∧ skeletonOperand o' = skeletonOperand o := by
  cases o with
  | string raw =>
    obtain ⟨u, us', hu, hus, rfl⟩ := List.forall₂_cons_left_iff.1 h
    obtain rfl := List.forall₂_nil_left_iff.1 hus
    rcases hu with rfl | ⟨r, s, -, rfl⟩
    · exact ⟨.string raw, rfl, rfl⟩
    · exact ⟨.string s, rfl, rfl⟩
  | fieldPath p =>
    obtain ⟨u, us', hu, hus, rfl⟩ := List.forall₂_cons_left_iff.1 h
    rw [hu.eq nofun, alike_tailTokens hus]
    exact ⟨.fieldPath p, rfl, rfl⟩
  | number raw => exact ⟨.number raw, (alike_single (fun _ => Token.noConfusion) h).symm, rfl⟩
  | trueVal => exact ⟨.trueVal, (alike_single (fun _ => Token.noConfusion) h).symm, rfl⟩
  | falseVal => exact ⟨.falseVal, (alike_single (fun _ => Token.noConfusion) h).symm, rfl⟩
  | null => exact ⟨.null, (alike_single (fun _ => Token.noConfusion) h).symm, rfl⟩
  | macroName name =>
    exact ⟨.macroName name, (alike_single (fun _ => Token.noConfusion) h).symm, rfl⟩

/-- What stands on both sides of a terminal that is no literal. -/
theorem alike_append_cons {ts ts' : List Token} {t : Token} (ht : ∀ r, t ≠ .string r)
    (h : List.Forall₂ Alike (ts ++ t :: ts') us) :
    ∃ vs vs', us = vs ++ t :: vs' ∧ List.Forall₂ Alike ts vs ∧ List.Forall₂ Alike ts' vs' := by
  induction ts generalizing us with
  | nil =>
    obtain ⟨u, vs', hu, hvs', rfl⟩ := List.forall₂_cons_left_iff.1 h
    exact ⟨[], vs', by rw [hu.eq ht]; rfl, .nil, hvs'⟩
  | cons t' ts ih =>
    obtain ⟨u, ws, hu, hws, rfl⟩ := List.forall₂_cons_left_iff.1 h
    obtain ⟨vs, vs', rfl, hvs, hvs'⟩ := ih hws
    exact ⟨u :: vs, vs', rfl, .cons hu hvs, hvs'⟩

theorem exists_comparison {c : Comparison} (h : List.Forall₂ Alike c.tokens us) :
    ∃ c' : Comparison, c'.tokens = us ∧
      skeletonAtom (.comparison c') = skeletonAtom (.comparison c) := by
  obtain ⟨vs, ws, rfl, hvs, hws⟩ := alike_append_cons (fun _ => Token.noConfusion) h
  obtain ⟨l, rfl, hl⟩ := exists_operand hvs
  obtain ⟨r, rfl, hr⟩ := exists_operand hws
  exact ⟨⟨l, c.op, r⟩, rfl, by rw [skeletonAtom, skeletonAtom, hl, hr]⟩

mutual

/-- Other literals at the same places make a tree of the same form. -/
theorem exists_expr : ∀ {e : Expr} {us : List Token}, List.Forall₂ Alike e.tokens us →
    ∃ e' : Expr, e'.tokens = us ∧ skeleton e' = skeleton e
  | .one c, us, h => by
    obtain ⟨c', rfl, hc⟩ := exists_conj h
    exact ⟨.one c', rfl, by rw [skeleton, skeleton, hc]⟩
  | .or c e, us, h => by
    obtain ⟨vs, ws, rfl, hvs, hws⟩ := alike_append_cons (fun _ => Token.noConfusion) h
    obtain ⟨c', rfl, hc⟩ := exists_conj hvs
    obtain ⟨e', rfl, he⟩ := exists_expr hws
    exact ⟨.or c' e', rfl, by rw [skeleton, skeleton, hc, he]⟩

theorem exists_conj : ∀ {c : Conj} {us : List Token}, List.Forall₂ Alike c.tokens us →
    ∃ c' : Conj, c'.tokens = us ∧ skeletonConj c' = skeletonConj c
  | .one a, us, h => by
    obtain ⟨a', rfl, ha⟩ := exists_atom h
    exact ⟨.one a', rfl, by rw [skeletonConj, skeletonConj, ha]⟩
  | .and a c, us, h => by
    obtain ⟨vs, ws, rfl, hvs, hws⟩ := alike_append_cons (fun _ => Token.noConfusion) h
    obtain ⟨a', rfl, ha⟩ := exists_atom hvs
    obtain ⟨c', rfl, hc⟩ := exists_conj hws
    exact ⟨.and a' c', rfl, by rw [skeletonConj, skeletonConj, ha, hc]⟩

theorem exists_atom : ∀ {a : Atom} {us : List Token}, List.Forall₂ Alike a.tokens us →
    ∃ a' : Atom, a'.tokens = us ∧ skeletonAtom a' = skeletonAtom a
  | .comparison c, us, h => by
    obtain ⟨c', rfl, hc⟩ := exists_comparison h
    exact ⟨.comparison c', rfl, hc⟩
  | .paren e, us, h => by
    obtain ⟨u, ws, hu, hws, rfl⟩ := List.forall₂_cons_left_iff.1 h
    obtain ⟨vs, vs', rfl, hvs, hvs'⟩ := alike_append_cons (fun _ => Token.noConfusion) hws
    obtain ⟨e', rfl, he⟩ := exists_expr hvs
    rw [hu.eq nofun, List.forall₂_nil_left_iff.1 hvs']
    exact ⟨.paren e', rfl, by rw [skeletonAtom, skeletonAtom, he]⟩

end

/-- Two fillings of a template derive terminals that differ in literals only. -/
theorem alike_withValues {ι : Type} (vals vals' : ι → Text) (ts : List (Token ⊕ ι)) :
    List.Forall₂ Alike (withValues vals ts) (withValues vals' ts) := by
  rw [withValues, withValues, List.forall₂_map_left_iff, List.forall₂_map_right_iff,
    List.forall₂_same]
  rintro (t | i) -
  · exact .inl rfl
  · exact .inr ⟨_, _, rfl, rfl⟩

section Templates

variable {ι : Type} {t : List (Piece ι)}

theorem lex_fill {vals : ι → Text} (h : ∀ i, .slot i ∈ t → Contained (vals i))
    (hplaced : Placed .start t) :
    lex (fill vals t) = (terminals .start t).map (withValues vals) :=
  scanFrom_fill h hplaced

theorem exists_parseText_fill {v w : ι → Text} (hplaced : Placed .start t)
    (hv : ∀ i, .slot i ∈ t → Contained (v i)) (hw : ∀ i, .slot i ∈ t → Contained (w i)) {e : Expr}
    (he : parseText (fill v t) = some e) :
    ∃ e', parseText (fill w t) = some e' ∧ skeleton e' = skeleton e := by
  rw [parseText_eq_some, lex_fill hv hplaced] at he
  obtain ⟨ts, hts, hvalues⟩ := Option.map_eq_some_iff.1 he
  obtain ⟨e', he', hskeleton⟩ := exists_expr (hvalues ▸ alike_withValues v w ts)
  refine ⟨e', parseText_eq_some.2 ?_, hskeleton⟩
  rw [lex_fill hw hplaced, hts, he']
  rfl

/-- A template keeps its tree, whatever contained values it is filled with. -/
theorem skeleton_fill {v w : ι → Text} (hplaced : Placed .start t)
    (hv : ∀ i, .slot i ∈ t → Contained (v i)) (hw : ∀ i, .slot i ∈ t → Contained (w i)) :
    (parseText (fill v t)).map skeleton = (parseText (fill w t)).map skeleton := by
  cases he : parseText (fill v t) with
  | some e =>
    obtain ⟨e', he', hskeleton⟩ := exists_parseText_fill hplaced hv hw he
    rw [he', Option.map_some, Option.map_some, hskeleton]
  | none =>
    cases he' : parseText (fill w t) with
    | none => rfl
    | some e' =>
      obtain ⟨e, he'', -⟩ := exists_parseText_fill hplaced hw hv he'
      rw [he] at he''
      cases he''

end Templates

/-! ## What quoting gives -/

/-- A quoted value is one literal exactly if it is contained. A template whose values stand outside
of its comments and literals keeps its terminals and its tree, and a plain value is read back. -/
theorem quote_spec :
    (∀ v, lex (quote v) = some [.string (quote v)] ↔ Contained v) ∧
    (∀ (ι : Type) (t : List (Piece ι)), Placed .start t →
      ∃ tree : Option Expr, ∀ vals : ι → Text, (∀ i, .slot i ∈ t → Contained (vals i)) →
        lex (fill vals t) = (terminals .start t).map (withValues vals) ∧
        (parseText (fill vals t)).map skeleton = tree) ∧
    ∀ v, Plain v → Contained v ∧
      ∀ E : FilterEnv, E.operandNode (.string (quote v)) = .ok (.literal (.text v)) := by
  refine ⟨lex_quote_iff, fun ι t hplaced => ?_, fun v h => ?_⟩
  · refine ⟨(parseText (fill (fun _ => []) t)).map skeleton, fun vals h => ?_⟩
    exact ⟨lex_fill h hplaced, skeleton_fill hplaced h fun _ _ => trivial⟩
  · exact ⟨(unescapeText_escapeQuotes h).1, fun E => operandNode_quote E h⟩

/-- A quote, and a backslash that makes no escape. -/
theorem dir_quoted : lex (quote ['\'', '\\', 'd']) = some [.string (quote ['\'', '\\', 'd'])] :=
  (quote_spec.1 _).2 <| (contained_cons (by decide) _).2 <|
    (contained_escape _ _).2 ⟨by decide, trivial⟩

/-- `title = {:title} && owner = {:owner}` -/
def ownPosts : List (Piece Bool) :=
  [.text "title = ", .slot false, .text " && owner = ", .slot true]

/-- A title that hides the end of its literal, and an owner that goes on from there. -/
def injected : Bool → Text
  | false => "\\"
  | true => " || 1 = 1 // "

/-- A backslash at the end of a value takes the closing quote, and the next value is read as a part
of the filter. -/
theorem backslash_breaks_out : lex (quote "\\") = none ∧
    ¬∀ v w : Bool → Text, (parseText (fill v ownPosts)).map skeleton =
      (parseText (fill w ownPosts)).map skeleton := by
  refine ⟨by decide, fun h => ?_⟩
  have hinjected : parseText (fill injected ownPosts) =
      some (.or (.one (.comparison ⟨.fieldPath ⟨"title", [], by decide⟩, .eq,
          .string "'\\' && owner = '"⟩))
        (.one (.one (.comparison ⟨.number ['1'], .eq, .number ['1']⟩)))) :=
    parseText_eq_some.2 (by decide)
  have hempty : parseText (fill (fun _ => []) ownPosts) =
      some (.one (.and (.comparison ⟨.fieldPath ⟨"title", [], by decide⟩, .eq, .string "''"⟩)
        (.one (.comparison ⟨.fieldPath ⟨"owner", [], by decide⟩, .eq, .string "''"⟩)))) :=
    parseText_eq_some.2 (by decide)
  have hsame := h injected fun _ => []
  rw [hinjected, hempty] at hsame
  exact Expr.noConfusion (Option.some.inj hsame)

end Quoting

end PPBase
