import PPBase.Rules
import PPBase.Splice

/-!
# The list rule

The list handler splices the list rule and the client's filter into one text. `Confined`
says that a row the combined filter selects satisfies the rule and the filter on its own.
A rule that does not end inside a comment confines every filter (`confined_of_closed`). A
rule that does end inside one is continued by the filter's second line, and the filters
`escapeFilter` and `emptyFilter` then leave the rule or the filter behind.
-/

namespace PPBase

open Sql

/-- `effective_filter` of the list handler. A missing client filter is an empty one. -/
def effectiveFilter (rule : RuleResult) (filter : Text) : Text :=
  match rule with
  | .expression rule => if filter = [] then rule else spliceFilters rule filter
  | _ => filter

/-- If `(rule) && (filter)` selects the row, the row satisfies the rule and the filter,
whenever `parse_filter` accepts all three and the guard lets the filter pass. -/
def Confined (pg : Pg) (db : Db) (c : Collection) (E : FilterEnv) (rule filter : Text)
    (row : Row) : Prop :=
  ∀ r f both, parseFilter E rule = .ok r → parseFilter E filter = .ok f →
    ClientGuard.assertClientQueryAllowed db c filter [] false = .ok () →
    parseFilter E (effectiveFilter (.expression rule) filter) = .ok both →
    Satisfies pg db E.table both row →
      Satisfies pg db E.table r row ∧ Satisfies pg db E.table f row

variable {E : FilterEnv} {c : Collection} {db : Db} {pg : Pg} {rule : Text}

/-- An accepted filter is blank, or parses and compiles. -/
theorem parseFilter_eq_ok {s : Text} {c : Cond} (h : parseFilter E s = .ok c) :
    (∀ ch ∈ s, Text.isSpace ch = true) ∨
      sanitizeIdent E.table = .ok E.table ∧ ∃ e, parseText s = some e ∧ compileExpr E e = .ok c := by
  unfold parseFilter at h
  split_ifs at h with hs
  · exact Or.inl (Text.strip_eq_nil hs)
  · right
    cases he : parseText s with
    | none => simp [he] at h
    | some e =>
      unfold sanitizeIdent at h ⊢
      cases ht : E.table.find? fun c => !Text.isIdentChar c with
      | some ch => simp [he, ht, bind, Except.bind] at h
      | none => exact ⟨rfl, e, rfl, by simpa [he, ht, bind, Except.bind] using h⟩

theorem parseFilter_of_parseText {s : Text} {e : Expr} {c : Cond}
    (ht : sanitizeIdent E.table = .ok E.table) (hs : parseText s = some e)
    (hc : compileExpr E e = .ok c) : parseFilter E s = .ok c := by
  have hblank : Text.strip s ≠ [] := by
    intro h
    rw [parseText_blank (Text.strip_eq_nil h)] at hs
    cases hs
  simp [parseFilter, hblank, hs, ht, hc, bind, Except.bind]

theorem lpar_mem_spliceFilters (rule filter : Text) : '(' ∈ spliceFilters rule filter :=
  List.mem_cons_self

/-- The guard parses a nonempty filter. -/
theorem parseText_of_allowed {filter : Text}
    (h : ClientGuard.assertClientQueryAllowed db c filter [] false = .ok ()) (hf : filter ≠ []) :
    ∃ f, parseText filter = some f := by
  cases hp : parseText filter with
  | some f => exact ⟨f, rfl⟩
  | none =>
    simp [ClientGuard.assertClientQueryAllowed, ClientGuard.filterPaths, hf, hp, bind,
      Except.bind] at h

theorem compileExpr_splice {r f : Expr} {c d : Cond} (hr : compileExpr E r = .ok c)
    (hf : compileExpr E f = .ok d) : compileExpr E (r.splice f) = .ok (.and c d) := by
  simp only [Expr.splice, compileExpr, conjItems, atomItem, hr, hf]
  rfl

theorem satisfies_tt {table : Text} {c : Cond} {row : Row} (h : Satisfies pg db table c row) :
    Satisfies pg db table .tt row := by
  obtain ⟨⟨s, hs, -⟩, -⟩ := h
  exact ⟨⟨s, hs, rfl⟩, rfl⟩

/-- A rule that does not end inside a comment confines every filter. -/
theorem confined_of_closed (hc : ¬EndsInComment rule) (filter : Text) (row : Row) :
    Confined pg db c E rule filter row := by
  intro r f both hr hf hguard hboth hrow
  by_cases hempty : filter = []
  · subst hempty
    obtain rfl : both = r := by simpa [effectiveFilter, hr] using hboth.symm
    obtain rfl : Cond.tt = f := by simpa [parseFilter, Text.strip] using hf
    exact ⟨hrow, satisfies_tt hrow⟩
  rw [effectiveFilter, if_neg hempty] at hboth
  rcases parseFilter_eq_ok hboth with hblank | ⟨-, e, he, hce⟩
  · exact absurd (hblank _ (lpar_mem_spliceFilters rule filter)) (by decide)
  obtain ⟨fe, hfe⟩ := parseText_of_allowed hguard hempty
  rcases parseFilter_eq_ok hr with hblank | ⟨-, re, hre, hcr⟩
  · rw [parseText_splice_blank hblank] at he
    cases he
  rcases parseFilter_eq_ok hf with hblank | ⟨-, fe', hfe', hcf⟩
  · rw [parseText_blank hblank] at hfe
    cases hfe
  rw [parseText_splice hre hfe' hc] at he
  split_ifs at he with hcf'
  obtain rfl := Option.some.inj he
  rw [compileExpr_splice hcr hcf] at hce
  obtain rfl := Except.ok.inj hce
  exact satisfies_and.1 hrow

/-! ## A rule that ends inside a comment -/

/-- The first line of a filter, swallowed by the comment. False on its own. -/
def swallowed : Text := "null != null"

/-- Selects every row, whatever an open rule says. -/
def escapeFilter : Text := swallowed ++ '\n' :: ("|| null = null" : Text)

/-- Selects no row on its own, and after an open rule what the rule selects. -/
def emptyFilter : Text := swallowed ++ '\n' :: ("|| null != null" : Text)

/-- `null op null` as a conjunction. -/
def nullConj (op : Operator) : Conj := .one (.comparison ⟨.null, op, .null⟩)

/-- One more alternative is one more way to satisfy the condition. -/
theorem compileExpr_snoc {E : FilterEnv} {d : Conj} {items : List Item}
    (hd : conjItems E d = .ok items) : ∀ {e : Expr} {c : Cond}, compileExpr E e = .ok c →
    ∃ c', compileExpr E (e.snoc d) = .ok c' ∧
      (∀ db table, Accepted db table c' ↔
        Accepted db table c ∧ Accepted db table (Item.andExpr items)) ∧
      ∀ pg db table row, (truthAt pg db table c' row).Holds ↔
        (truthAt pg db table c row).Holds ∨ (truthAt pg db table (Item.andExpr items) row).Holds
  | .one k, c, h => by
    cases hk : conjItems E k with
    | error err => simp [compileExpr, hk, Functor.map, Except.map] at h
    | ok ks =>
      obtain rfl : Item.andExpr ks = c := by
        simpa [compileExpr, hk, Functor.map, Except.map] using h
      refine ⟨.or (Item.andExpr ks) (Item.andExpr items), ?_, fun _ _ => accepted_or,
        fun _ _ _ _ => holds_truthAt_or⟩
      simp [Expr.snoc, compileExpr, hk, hd, Functor.map, Except.map, bind, Except.bind, pure,
        Except.pure]
  | .or k e, c, h => by
    cases hk : conjItems E k with
    | error err => simp [compileExpr, hk, bind, Except.bind] at h
    | ok ks =>
      cases he : compileExpr E e with
      | error err => simp [compileExpr, hk, he, bind, Except.bind] at h
      | ok ce =>
        obtain rfl : Cond.or (Item.andExpr ks) ce = c := by
          simpa [compileExpr, hk, he, bind, Except.bind, pure, Except.pure] using h
        obtain ⟨c', hc', hacc, hholds⟩ := compileExpr_snoc hd he
        refine ⟨.or (Item.andExpr ks) c', ?_, fun db table => ?_, fun pg db table row => ?_⟩
        · simp [Expr.snoc, compileExpr, hk, hc', bind, Except.bind, pure, Except.pure]
        · rw [accepted_or, accepted_or, hacc, and_assoc]
        · rw [holds_truthAt_or, holds_truthAt_or, hholds, or_assoc]

/-- An open rule is not blank. -/
theorem parseFilter_open {r : Cond} (hr : parseFilter E rule = .ok r) (hc : EndsInComment rule) :
    sanitizeIdent E.table = .ok E.table ∧
      ∃ e, parseText rule = some e ∧ compileExpr E e = .ok r := by
  refine (parseFilter_eq_ok hr).resolve_left fun hblank => ?_
  have hstate : lexer.stateAfter rule = some .comment := hc
  rcases run_of_isSpace hblank with hrun | hrun <;>
  · have hrun' : lexer.run lexer.start rule = _ := hrun
    simp [Scanner.stateAfter, hrun'] at hstate

/-- What an open rule becomes with `|| null op null` on the filter's second line. -/
theorem parseFilter_splice_open {E : FilterEnv} {rule : Text} {r : Cond} {op : Operator} {k : Cond}
    {rest : Text} (hr : parseFilter E rule = .ok r) (hc : EndsInComment rule)
    (hrest : lex (rest ++ [')']) = some (.or :: ((nullConj op).tokens ++ [.rpar])))
    (hk : conjItems E (nullConj op) = .ok [.sql k]) :
    ∃ both, parseFilter E (spliceFilters rule (swallowed ++ '\n' :: rest)) = .ok both ∧
      (∀ db table, Accepted db table both ↔ Accepted db table r ∧ Accepted db table k) ∧
      ∀ pg db table row, (truthAt pg db table both row).Holds ↔
        (truthAt pg db table r row).Holds ∨ (truthAt pg db table k row).Holds := by
  obtain ⟨ht, re, hre, hcr⟩ := parseFilter_open hr hc
  obtain ⟨both, hboth, hacc, hholds⟩ := compileExpr_snoc hk hcr
  have hparse := parseText_splice_comment (d := nullConj op) hre hc
    (by decide : '\n' ∉ swallowed) hrest
  refine ⟨both, parseFilter_of_parseText ht hparse ?_, hacc, hholds⟩
  simp only [compileExpr, conjItems, atomItem, hboth]
  rfl

/-- A filter without field references passes the guard. -/
theorem assertClientQueryAllowed_of_no_paths {filter : Text} {f : Expr}
    (hf : parseText filter = some f) (hp : ClientGuard.exprPaths f = []) :
    ClientGuard.assertClientQueryAllowed db c filter [] false = .ok () := by
  have hsort : ClientGuard.sortPaths [] = [] := by decide
  by_cases hempty : filter = []
  · simp [ClientGuard.assertClientQueryAllowed, ClientGuard.filterPaths, hempty, hsort, bind,
      Except.bind, pure, Except.pure]
  · simp [ClientGuard.assertClientQueryAllowed, ClientGuard.filterPaths, hempty, hf, hp, hsort,
      bind, Except.bind, pure, Except.pure]

/-- The tree of `null != null`, a newline, `|| null op null`. -/
def nullExpr (op : Operator) : Expr := .or (nullConj .ne) (.one (nullConj op))

/-- A rule that ends inside a comment, and that PostgreSQL accepts, is left at every row by
one of two filters the guard lets pass. -/
theorem not_confined_of_open {r : Cond} (hr : parseFilter E rule = .ok r)
    (hacc : Accepted db E.table r) (hc : EndsInComment rule) (row : Row) :
    ¬Confined pg db c E rule escapeFilter row ∨ ¬Confined pg db c E rule emptyFilter row := by
  obtain ⟨ht, -⟩ := parseFilter_open hr hc
  obtain ⟨s, hs, -⟩ := id hacc
  by_cases hrow : (truthAt pg db E.table r row).Holds
  · right
    intro h
    obtain ⟨both, hboth, hbacc, hbholds⟩ := parseFilter_splice_open (k := .ff) hr hc
      (by decide : lex (("|| null != null" : Text) ++ [')']) =
        some (.or :: ((nullConj .ne).tokens ++ [.rpar]))) rfl
    have hf : parseText emptyFilter = some (nullExpr .ne) := parseText_eq_some.2 (by decide)
    have hcf : parseFilter E emptyFilter = .ok (.or .ff .ff) := parseFilter_of_parseText ht hf rfl
    have hsat : Satisfies pg db E.table both row :=
      ⟨(hbacc _ _).2 ⟨hacc, s, hs, rfl⟩, (hbholds _ _ _ _).2 (Or.inl hrow)⟩
    obtain ⟨-, -, hff⟩ :=
      h _ _ _ hr hcf (assertClientQueryAllowed_of_no_paths hf rfl) hboth hsat
    exact absurd hff (by simp [truthAt, Cond.eval, Truth.Holds, Truth.or])
  · left
    intro h
    obtain ⟨both, hboth, hbacc, hbholds⟩ := parseFilter_splice_open (k := .tt) hr hc
      (by decide : lex (("|| null = null" : Text) ++ [')']) =
        some (.or :: ((nullConj .eq).tokens ++ [.rpar]))) rfl
    have hf : parseText escapeFilter = some (nullExpr .eq) := parseText_eq_some.2 (by decide)
    have hcf : parseFilter E escapeFilter = .ok (.or .ff .tt) := parseFilter_of_parseText ht hf rfl
    have hsat : Satisfies pg db E.table both row :=
      ⟨(hbacc _ _).2 ⟨hacc, s, hs, rfl⟩, (hbholds _ _ _ _).2 (Or.inr rfl)⟩
    obtain ⟨⟨-, hr'⟩, -⟩ :=
      h _ _ _ hr hcf (assertClientQueryAllowed_of_no_paths hf rfl) hboth hsat
    exact hrow hr'

/-- A rule confines every client filter unless it ends inside a comment. A rule that does is
left at every row, if PostgreSQL accepts it at all. -/
theorem confined_iff_closed {r : Cond} (hr : parseFilter E rule = .ok r) :
    (¬EndsInComment rule → ∀ filter row, Confined pg db c E rule filter row) ∧
      (Accepted db E.table r →
        ∀ row, (∀ filter, Confined pg db c E rule filter row) ↔ ¬EndsInComment rule) := by
  refine ⟨confined_of_closed, fun hacc row => ⟨fun h hc => ?_, fun hc filter =>
    confined_of_closed hc filter row⟩⟩
  rcases not_confined_of_open hr hacc hc row with hn | hn
  · exact hn (h _)
  · exact hn (h _)

/-- The filter compiles and selects the row. -/
def selects (pg : Pg) (db : Db) (E : FilterEnv) (filter : Text) (row : Row) : Bool :=
  match parseFilter E filter with
  | .ok c => decide (Satisfies pg db E.table c row)
  | .error _ => false

theorem selects_eq_true {filter : Text} {row : Row} :
    selects pg db E filter row = true ↔
      ∃ c, parseFilter E filter = .ok c ∧ Satisfies pg db E.table c row := by
  unfold selects
  split
  · next c hc => simp [hc]
  · simp [*]

/-- A collection whose list rule carries a remark, with one row outside the rule. -/
def notedPosts : Collection where
  id := "posts00000000000"
  name := "posts"
  schema := [{ name := "a", type := .number }]
  listRule := some "a = 1 // note"

def notedRow : Row := [("id", .text "r1"), ("a", .num 2)]

def notedDb : Db where
  collections := [notedPosts]
  tables := [("posts", ⟨["id", "a"], [notedRow]⟩)]

/-- What `list_records` compiles the combined filter with. -/
def notedEnv (rule filter : Text) : FilterEnv :=
  filterEnv .simple notedDb notedPosts {} (effectiveFilter (.expression rule) filter)

/-- The row does not satisfy the rule and is selected. -/
theorem noted_rule_not_confined :
    ¬Confined .scalars notedDb notedPosts (notedEnv "a = 1 // note" "1 = 2\n|| 1 = 1")
      "a = 1 // note" "1 = 2\n|| 1 = 1" notedRow := by
  intro h
  obtain ⟨both, hboth, hsat⟩ := selects_eq_true.1
    (by decide +kernel : selects .scalars notedDb (notedEnv "a = 1 // note" "1 = 2\n|| 1 = 1")
      (effectiveFilter (.expression "a = 1 // note") "1 = 2\n|| 1 = 1") notedRow = true)
  obtain ⟨f, hf, -⟩ := selects_eq_true.1
    (by decide +kernel : selects .scalars notedDb (notedEnv "a = 1 // note" "1 = 2\n|| 1 = 1")
      "1 = 2\n|| 1 = 1" notedRow = true)
  obtain ⟨r, hr, -⟩ := selects_eq_true.1
    (by decide +kernel : selects .scalars notedDb (notedEnv "a = 1 // note" "1 = 2\n|| 1 = 1")
      "a = 1 // note" [("id", .text "r2"), ("a", .num 1)] = true)
  have hrow := (h r f both hr hf (by decide +kernel) hboth hsat).1
  have hsel := selects_eq_true.2 ⟨r, hr, hrow⟩
  exact absurd hsel (by decide +kernel)

/-- A rule whose remark is closed by a newline confines every filter at the same row. -/
theorem closed_note_confined : ∃ r, parseFilter (notedEnv "a = 1 // note\n" "a = 2") "a = 1 // note\n" = .ok r ∧
    ∀ filter, Confined .scalars notedDb notedPosts (notedEnv "a = 1 // note\n" "a = 2")
      "a = 1 // note\n" filter notedRow := by
  obtain ⟨r, hr, -⟩ := selects_eq_true.1
    (by decide +kernel : selects .scalars notedDb (notedEnv "a = 1 // note\n" "a = 2")
      "a = 1 // note\n" [("id", .text "r2"), ("a", .num 1)] = true)
  exact ⟨r, hr, fun filter => (confined_iff_closed hr).1 (by decide) filter notedRow⟩

end PPBase
