import PPBase.Fidelity
import PPBase.Macros

/-!
# The modifiers of operands

A modifier is split off in three places : by `field_path` from the last part of a path, by
`_resolve_macro` from a macro of the body, and by `_extract_each_operand`. `Means` says that
the SQL of a comparison is that of the operand without its modifier, with the expression of
the modifier in the place of the operand's own; for `:each`, that it is a condition on each
element of the operand's array. `Keeps` is when the code does so (`means_iff`). A relation
path and a path into a JSON field are returned before their modifier is looked at, and a
macro that is not of the body takes it as a part of the name it looks up.
-/

namespace PPBase

open Sql

namespace Modifiers

open Fidelity

/-! ## Operands and their modifiers -/

/-- An operand that ends in a modifier : the operand without it, and the modifier. -/
def bare? : Operand → Option (Operand × Modifier)
  | .macroName name =>
    match splitModifier name with
    | (b, some m) => some (.macroName b, m)
    | (_, none) => none
  | .fieldPath p =>
    match splitModifier (p.parts.getLastD []) with
    | (b, some m) =>
      some (if p.tail =
        [] then identOperand b [] else identOperand p.head (p.tail.dropLast ++ [b]), m)
    | (_, none) => none
  | _ => none

/-- The field of the body a macro without a modifier names. -/
def bodyField? (name : Text) : Option Text :=
  match FilterEnv.bodyMacro? (name.dropWhile (· = '@')) with
  | some f => if f = [] ∨ (splitModifier f).2 ≠ none then none else some f
  | none => none

/-- The expression of a modifier over the SQL of an operand. `changed` compares with the
payload. -/
def stored (m : Modifier) (t : Term) (payload : Option Value) : Option Term :=
  match m with
  | .isset => some (.notNull t)
  | .length => some (.length t)
  | .lower => some (.lower t)
  | .changed =>
    match payload with
    | none => some (.value (.bool false))
    | some v => some (.changed t v)
  | .each => none

/-- The expression of a modifier over a value of the payload, or its absence. -/
def posted (rt : Runtime) (m : Modifier) (column : Term) (v : Option Value) : Option Term :=
  match m with
  | .isset => some (.value (.bool v.isSome))
  | .length => some (.value (.num ((v.map FilterEnv.valueLength).getD 0 : ℕ)))
  | .lower =>
    match v with
    | some .null | none => some (.value (.text []))
    | some v => some (.value (.text (rt.lower (rt.str v))))
  | .changed =>
    match v with
    | none => some (.value (.bool false))
    | some v => some (.changed column v)
  | .each => none

/-- Any-matching that goes through the elements of its left operand, each in a column `value`
of its own. -/
def capturesValue (o : Operator) : Bool :=
  match o.opClass with
  | .anyStandard .eq | .anyStandard .ne | .anyLike _ => true
  | _ => false

/-- No table or element the other operand brings in has a column of the name. A relation or
a collection has the fields it has, so none is taken to be free. -/
def Visible (o : Operator) (other : Node) (left : Bool) (field : Text) : Prop :=
  match kind other with
  | .scalar => left = false → capturesValue o = true → field ≠ "value"
  | .each => field ≠ "_elem"
  | _ => False

section

variable (E : FilterEnv)

/-- The SQL of a column of the record : with its table, or without where no other column of
the name is in scope. -/
def IsColumn (o : Operator) (other : Node) (left : Bool) (field : Text) (t : Term) : Prop :=
  t = .column (some E.table) field ∨ t = .column none field ∧ Visible o other left field

/-- The payload value a macro of the body stands for, if there is one : what was looked up
along a relation, or the payload's own. -/
def denoted (name field : Text) : Option Value :=
  match E.ctx.resolved.get? (name.dropWhile (· = '@')) with
  | some .null => none
  | some v => some v
  | none => E.ctx.data.get? field

/-- The term is the expression of the modifier over the operand. A macro that is not of the
body has no change to test. -/
def Expression (o : Operator) (other : Node) (left : Bool) (m : Modifier) (n : Node) (t : Term) :
    Prop :=
  match n with
  | .field name _ => ∃ u, E.fieldExpr name = .ok u ∧ stored m u (E.dataValue? name) = some t
  | .sqlRef u _ _ | .relationRef _ u _ _ => ∃ payload, stored m u payload = some t
  | .macroName name =>
    match bodyField? name with
    | some f =>
      ∃ column, IsColumn E o other left f column ∧ posted E.rt m column (denoted E name f) = some t
    | none => m ≠ .changed ∧ ∃ u, E.operandToSql n = .ok u ∧ stored m u none = some t
  | _ => False

/-- The operand with another expression in the place of its own. -/
def carrying (t : Term) : Node → Node
  | .relationRef steps _ _ _ => .relationRef steps t false none
  | _ => .sqlRef t false none

/-- The array of an operand. -/
def arrayOf : Node → Option Term
  | .field name _ => (E.fieldExpr name).toOption
  | .sqlRef t _ _ | .relationRef _ t _ _ => some t
  | .macroName name => (bodyField? name).map
    fun f => .value (FilterEnv.eachValues E.rt (denoted E name f))
  | _ => none

/-- `comparison`, with the operand on either side. -/
def compareOn (left : Bool) (n : Node) (o : Operator) (other : Node) : Except FilterError Item :=
  if left then E.comparison n o other else E.comparison other o n

/-- `quantify`, with the operand on either side. -/
def quantifyOn (left : Bool) (n other : Node) (c : Cond) : Except FilterError Item :=
  if left then quantify E n other c else quantify E other n c

/-- The item is the comparison of the operand `n` with the modifier applied to it. -/
def Means (left : Bool) (n : Node) (m : Modifier) (o : Operator) (other : Node) (item : Item) :
    Prop :=
  if m = .each then
    ∃ a c, arrayOf E n = some a ∧
      (kind other = .scalar → E.eachItemCondition o other left = .ok c) ∧
      quantifyOn E left n other (.each a c) = .ok item
  else ∃ t, Expression E o other left m n t ∧ compareOn E left (carrying t n) o other = .ok item

/-- The operand is a field, or a macro of the body for which the payload's own value gives
what the macro stands for. -/
def Keeps (left : Bool) (n : Node) (m : Modifier) (o : Operator) (other : Node) : Prop :=
  match n with
  | .field _ _ => True
  | .macroName name =>
    match bodyField? name with
    | none => False
    | some f =>
      match m with
      | .each => kind other = .scalar ∧
          FilterEnv.eachValues E.rt (denoted E name f) = FilterEnv.eachValues E.rt (E.dataValue? f)
      | .changed => denoted E name f = E.ctx.data.get? f ∧
          ((E.ctx.data.get? f).isSome = true → Visible o other left f)
      | m => posted E.rt m (.column none f) (denoted E name f) =
          posted E.rt m (.column none f) (E.ctx.data.get? f)
  | _ => False

end

/-! ## Splitting a modifier off -/

variable {s suffix : Text}

theorem rsplit?_eq_some {sep : Char} {b : Text} (h : Text.rsplit? sep s = some (b, suffix)) :
    s = b ++ sep :: suffix ∧ sep ∉ suffix := by
  unfold Text.rsplit? at h
  split_ifs at h with hmem
  obtain ⟨rfl, rfl⟩ := Prod.mk.inj (Option.some.inj h)
  have hdrop : s.reverse.dropWhile (· ≠ sep) = sep :: (s.reverse.dropWhile (· ≠ sep)).tail := by
    cases hs : s.reverse.dropWhile (· ≠ sep) with
    | nil =>
      have hall := List.dropWhile_eq_nil_iff.1 hs sep (List.mem_reverse.2 hmem)
      simp at hall
    | cons c cs =>
      have hhead := List.head?_dropWhile_not (fun c => decide (c ≠ sep)) s.reverse
      rw [hs] at hhead
      have hc : c = sep := by simpa using hhead
      rw [hc, List.tail_cons]
  constructor
  · have hall := congrArg List.reverse (List.takeWhile_append_dropWhile (p := (· ≠ sep)) (l :=
    s.reverse))
    rw [hdrop] at hall
    simpa using hall.symm
  · intro h
    have := List.mem_takeWhile_imp (List.mem_reverse.1 h)
    simp at this

theorem rsplit?_append {sep : Char} (h : sep ∉ suffix) (b : Text) :
    Text.rsplit? sep (b ++ sep :: suffix) = some (b, suffix) := by
  have hrev : (b ++ sep :: suffix).reverse = suffix.reverse ++ sep :: b.reverse := by simp
  have hpos : ∀ c ∈ suffix.reverse, decide (c ≠ sep) = true := by
    intro c hc
    have hne : c ≠ sep := fun h' => h (h' ▸ List.mem_reverse.1 hc)
    exact decide_eq_true hne
  unfold Text.rsplit?
  rw [if_pos (List.mem_append_right _ List.mem_cons_self), hrev,
    List.dropWhile_append_of_pos hpos, List.takeWhile_append_of_pos hpos]
  simp

/-- The name of a modifier has no mark in it. -/
theorem plain_of_ofText? {m : Modifier} (h : Modifier.ofText? suffix = some m) :
    ':' ∉ suffix ∧ '.' ∉ suffix := by
  unfold Modifier.ofText? at h
  split_ifs at h <;> subst_vars <;> exact ⟨by decide, by decide⟩

theorem splitModifier_eq_some {b : Text} {m : Modifier} (h : splitModifier s = (b, some m)) :
    ∃ suffix, s = b ++ ':' :: suffix ∧ b ≠ [] ∧ Modifier.ofText? suffix = some m := by
  unfold splitModifier at h
  split at h
  · rename_i base suffix hsplit
    split at h
    · rename_i m' hm
      split_ifs at h with hb
      · cases h
      · obtain ⟨rfl, hm'⟩ := Prod.mk.inj h
        obtain rfl := Option.some.inj hm'
        exact ⟨suffix, (rsplit?_eq_some hsplit).1, hb, hm⟩
    · cases h
  · cases h

theorem splitModifier_append {m : Modifier} (h : Modifier.ofText? suffix = some m) (b : Text) :
    splitModifier (b ++ ':' :: suffix) =
      if b = [] then (b ++ ':' :: suffix, none) else (b, some m) := by
  unfold splitModifier
  rw [rsplit?_append (plain_of_ofText? h).1]
  dsimp only
  rw [h]

theorem splitModifier_of_notMem (h : ':' ∉ s) : splitModifier s = (s, none) := by
  unfold splitModifier Text.rsplit?
  rw [if_neg h]

/-- A name keeps its prefix when a modifier is added. -/
theorem afterPrefix?_append_mark {c : Char} {u : Text} : ∀ {p : Text} (_ : c ∉ p) (s : Text),
    Text.afterPrefix? p (s ++ c :: u) = (Text.afterPrefix? p s).map (· ++ c :: u)
  | [], _, s => by simp
  | d :: p, h, [] => by
    rw [List.mem_cons, not_or] at h
    simp [Text.afterPrefix?, Ne.symm h.1]
  | d :: p, h, e :: s => by
    rw [List.mem_cons, not_or] at h
    by_cases hde : d = e
    · simp [Text.afterPrefix?, hde, afterPrefix?_append_mark h.2 s]
    · simp [Text.afterPrefix?, hde]

theorem bodyMacro?_append {u : Text} (s : Text) :
    FilterEnv.bodyMacro? (s ++ ':' :: u) = (FilterEnv.bodyMacro? s).map (· ++ ':' :: u) := by
  unfold FilterEnv.bodyMacro?
  rw [afterPrefix?_append_mark (by decide), afterPrefix?_append_mark (by decide)]
  cases Text.afterPrefix? "request.body." s <;> simp

theorem dropWhile_append_mark (b u : Text) :
    (b ++ ':' :: u).dropWhile (· = '@') = b.dropWhile (· = '@') ++ ':' :: u := by
  rw [List.dropWhile_append]
  split_ifs with h
  · rw [List.isEmpty_iff.1 h]
    simp
  · rfl

/-- The last part of a text is the one its end is in. -/
theorem split_append_mark {u : Text} (h : '.' ∉ u) : ∀ s : Text,
    ∃ init last, Text.split '.' (s ++ ':' :: u) = init ++ [last] ∧ ':' ∈ last
  | [] => by
    refine ⟨[], ':' :: u, ?_, List.mem_cons_self⟩
    have hsplit : ∀ {s : Text}, '.' ∉ s → Text.split '.' s = [s] := by
      intro s hs
      induction s with
      | nil => rfl
      | cons c s ih =>
        rw [List.mem_cons, not_or] at hs
        rw [Text.split, if_neg (Ne.symm hs.1), ih hs.2]
    exact hsplit (List.not_mem_cons_of_ne_of_not_mem (by decide) h)
  | c :: s => by
    obtain ⟨init, last, hs, hmem⟩ := split_append_mark h s
    rw [List.cons_append, Text.split, hs]
    split_ifs
    · exact ⟨[] :: init, last, rfl, hmem⟩
    · cases init with
      | nil => exact ⟨[], c :: last, rfl, List.mem_cons_of_mem _ hmem⟩
      | cons p ps => exact ⟨(c :: p) :: ps, last, rfl, hmem⟩

theorem sanitizeIdent_eq_ok {t : Text} (h : sanitizeIdent s = .ok t) : t = s ∧ ':' ∉ s := by
  unfold sanitizeIdent at h
  split at h
  · cases h
  · rename_i hfind
    refine ⟨(Except.ok.inj h).symm, fun hmem => ?_⟩
    have := List.find?_eq_none.1 hfind ':' hmem
    exact this (by decide)

theorem mapM_sanitizeIdent : ∀ {parts qs : List Text}, parts.mapM sanitizeIdent = .ok qs →
    qs = parts ∧ ∀ p ∈ parts, ':' ∉ p
  | [], qs, h => by
    obtain rfl := Except.ok.inj h
    exact ⟨rfl, fun _ hp => absurd hp List.not_mem_nil⟩
  | p :: ps, qs, h => by
    rw [List.mapM_cons] at h
    obtain ⟨p', hp, h⟩ := Failing.bind_eq_ok.1 h
    obtain ⟨qs', hqs, h⟩ := Failing.bind_eq_ok.1 h
    obtain rfl := Except.ok.inj h
    obtain ⟨rfl, hcolon⟩ := sanitizeIdent_eq_ok hp
    obtain ⟨rfl, hall⟩ := mapM_sanitizeIdent hqs
    exact ⟨rfl, List.forall_mem_cons.2 ⟨hcolon, hall⟩⟩

/-! ## The nodes of an operand with and without its modifier -/

section

variable {E : FilterEnv} {n n₀ other : Node} {m : Modifier} {name b : Text} {t u : Term}

/-- A reference into a collection does not take a modifier, and any other macro keeps it in
its name. -/
theorem macroNode_modified (hm : splitModifier name = (b, some m))
    (h : FilterEnv.macroNode name = .ok n) :
    n = .macroName name ∧ FilterEnv.macroNode b = .ok (.macroName b) := by
  obtain ⟨suffix, rfl, -, hsuffix⟩ := splitModifier_eq_some hm
  unfold FilterEnv.macroNode at h ⊢
  dsimp only at h ⊢
  rw [dropWhile_append_mark, afterPrefix?_append_mark (by decide)] at h
  cases hp : Text.afterPrefix? "collection." (b.dropWhile (· = '@')) with
  | none =>
    rw [hp] at h
    exact ⟨(Except.ok.inj h).symm, rfl⟩
  | some r =>
    rw [hp] at h
    obtain ⟨init, last, hsplit, hlast⟩ :=
      split_append_mark (plain_of_ofText? hsuffix).2 (b.dropWhile (· = '@'))
    simp only [Option.map_some, Option.isSome_some, if_true, hsplit] at h
    split at h
    · rename_i c coll field rest heq
      have hmem : last ∈ field :: rest := by
        rcases init with _ | ⟨a, _ | ⟨d, init⟩⟩
        · cases heq
        · cases heq
        · obtain ⟨-, heq⟩ := List.cons.inj heq
          obtain ⟨-, heq⟩ := List.cons.inj heq
          rw [← heq]
          exact List.mem_append_right _ (List.mem_singleton.2 rfl)
      split_ifs at h
      all_goals
        first
        | cases h
        | obtain ⟨path, hpath, -⟩ := Failing.bind_eq_ok.1 h
          have hnil : last ≠ [] := List.ne_nil_of_mem hlast
          have hfilter : last ∈ (field :: rest).filter (· ≠ []) :=
            List.mem_filter.2 ⟨hmem, by simpa using hnil⟩
          exact absurd hlast ((mapM_sanitizeIdent hpath).2 last hfilter)
    · cases h

/-- A path into a JSON field has no type of its own. -/
theorem fieldType_of_resolveFrom {idx : RelationIndex} {x y : Bool} {whole : Text} {p :
    ResolvedPath} :
    ∀ {parts : List Text} {table : Text} {steps : List Step},
      resolveFrom idx x y whole table steps parts = .ok (some p) →
        (p.isJson = true → p.fieldType = none) ∧
          ((∃ tab col, p.sql = .column tab col) ∨ ∃ u path, p.sql = .jsonPath u path)
  | [], table, steps, h => by cases h
  | [part], table, steps, h => by
    obtain rfl := Option.some.inj (Except.ok.inj h)
    exact ⟨by rintro ⟨⟩, Or.inl ⟨_, _, rfl⟩⟩
  | part :: next :: rest, table, steps, h => by
    unfold resolveFrom at h
    by_cases hjson : isJsonType (idx.fieldType? table part) = true
    · rw [if_pos hjson] at h
      obtain rfl := Option.some.inj (Except.ok.inj h)
      exact ⟨fun _ => rfl, Or.inr ⟨_, _, rfl⟩⟩
    · rw [if_neg hjson] at h
      cases hinfo : idx.relationInfo? table part with
      | some info =>
        rw [hinfo] at h
        obtain ⟨step, -, h⟩ := Failing.bind_eq_ok.1 h
        split_ifs at h
        · obtain rfl := Option.some.inj (Except.ok.inj h)
          exact ⟨by rintro ⟨⟩, Or.inl ⟨_, _, rfl⟩⟩
        · exact fieldType_of_resolveFrom h
      | none =>
        rw [hinfo] at h
        dsimp only at h
        split_ifs at h
        cases h

/-- A term that no modifier has been applied to. -/
def Unmodified (t : Term) : Prop :=
    (∃ tab col, t = .column tab col) ∨ ∃ u path, t = .jsonPath u path

theorem ne_stored (h : Unmodified u) {payload : Option Value} {v : Term}
    (hv : stored m v payload = some t) : u ≠ t := by
  rintro rfl
  unfold stored at hv
  rcases h with ⟨tab, col, rfl⟩ | ⟨w, path, rfl⟩ <;> split at hv <;> first
    | cases hv
    | split at hv <;> cases hv

/-- A path that is resolved along relations or into a JSON field. -/
inductive Traversed : Node → Prop
  | relation {steps : List Step} {sql : Term} {isJson : Bool} {type : Option FieldType}
      (hsql : Unmodified sql) : Traversed (.relationRef steps sql isJson type)
  | json {sql : Term} (hsql : Unmodified sql) : Traversed (.sqlRef sql true none)

theorem traversed_of_resolveDottedPath {parts : List Text} {p : ResolvedPath}
    (h : resolveDottedPath E.relations true false E.table parts = .ok (some p)) :
    Traversed (.relationRef p.steps p.sql p.isJson p.fieldType) ∧
      (p.isJson = true → Traversed (.sqlRef p.sql p.isJson p.fieldType)) := by
  obtain ⟨qs, -, h⟩ := Failing.bind_eq_ok.1 h
  obtain ⟨start, -, h⟩ := Failing.bind_eq_ok.1 h
  obtain ⟨htype, hsql⟩ := fieldType_of_resolveFrom h
  refine ⟨.relation hsql, fun hjson => ?_⟩
  rw [htype hjson, hjson]
  exact .json hsql

/-- `field_path` for a name that is not traversed. -/
def plainNode (E : FilterEnv) (parts : List Text) (modifier : Option Modifier) :
    Except FilterError Node :=
  let name := Text.join '.' parts
  match modifier with
  | some m => .ok (.fieldModifier name m)
  | none => if parts.length =
    1 then .field name <$> E.fieldTypeForTable name else .ok (.field name none)

/-- `field_path`, once the modifier is split off. -/
def pathNode (E : FilterEnv) (parts : List Text) (modifier : Option Modifier) :
    Except FilterError Node :=
  if 2 ≤ parts.length then do
    match ← resolveDottedPath E.relations true false E.table parts with
    | some r =>
      if r.steps ≠ [] then return .relationRef r.steps r.sql r.isJson r.fieldType
      else if r.isJson then return .sqlRef r.sql r.isJson r.fieldType
      else plainNode E parts modifier
    | none => plainNode E parts modifier
  else plainNode E parts modifier

theorem fieldPath_eq {parts : List Text} {modifier : Option Modifier}
    (h : splitModifier (parts.getLastD []) = (b, modifier)) :
    E.fieldPath parts = pathNode E (parts.dropLast ++ [b]) modifier := by
  unfold FilterEnv.fieldPath
  rw [h]
  rfl

/-- A path that is traversed is the same node with any modifier. -/
theorem pathNode_cases {parts : List Text} {modifier : Option Modifier}
    (h : pathNode E parts modifier = .ok n) :
    (2 ≤ parts.length → ∀ p ∈ parts, ':' ∉ p) ∧
      ((2 ≤ parts.length ∧ Traversed n ∧ ∀ m', pathNode E parts m' = .ok n) ∨
        ∀ m', pathNode E parts m' = plainNode E parts m') := by
  unfold pathNode at h ⊢
  by_cases hlen : 2 ≤ parts.length
  · rw [if_pos hlen] at h
    obtain ⟨r?, hr, h⟩ := Failing.bind_eq_ok.1 h
    have hmarks : ∀ p ∈ parts, ':' ∉ p := by
      obtain ⟨qs, hqs, -⟩ := Failing.bind_eq_ok.1 hr
      exact (mapM_sanitizeIdent hqs).2
    refine ⟨fun _ => hmarks, ?_⟩
    simp only [if_pos hlen, hr, Failing.ok_bind]
    cases r? with
    | none => exact Or.inr fun _ => rfl
    | some r =>
      obtain ⟨hrelation, hjson⟩ := traversed_of_resolveDottedPath hr
      dsimp only at h ⊢
      by_cases hsteps : r.steps ≠ []
      · rw [if_pos hsteps] at h
        obtain rfl := Except.ok.inj h
        exact Or.inl ⟨hlen, hrelation, fun _ => if_pos hsteps⟩
      · rw [if_neg hsteps] at h
        by_cases hj : r.isJson = true
        · rw [if_pos hj] at h
          obtain rfl := Except.ok.inj h
          refine Or.inl ⟨hlen, hjson hj, fun _ => ?_⟩
          rw [if_neg hsteps, if_pos hj]
          rfl
        · refine Or.inr fun _ => ?_
          rw [if_neg hsteps, if_neg hj]
  · exact ⟨fun h' => absurd h' hlen, Or.inr fun _ => if_neg hlen⟩

/-- The node of an operand with a modifier, and the node without it. A name of a field may be
a keyword without its modifier. -/
inductive Modified (m : Modifier) : Node → Node → Prop
  | macroName {name b : Text} (h : splitModifier name = (b, some m)) :
      Modified m (.macroName name) (.macroName b)
  | traversed {n : Node} (h : Traversed n) : Modified m n n
  | field {name : Text} {type : Option FieldType} :
      Modified m (.fieldModifier name m) (.field name type)
  | keyword {name : Text} {n : Node} (h : (∃ v, n = .literal v) ∨ n = .null) :
      Modified m (.fieldModifier name m) n
  | refused {name : Text} {n : Node} (h : ':' ∈ name) : Modified m (.fieldModifier name m) n

theorem modified_of_pathNode (init : List Text)
    (h : pathNode E (init ++ [b]) (some m) = .ok n)
    (h₀ : E.fieldPath (init ++ [b]) = .ok n₀) : Modified m n n₀ := by
  obtain ⟨hmarks, hcases⟩ := pathNode_cases h
  by_cases hb : ':' ∈ b
  · have hlen : ¬2 ≤ (init ++ [b]).length := fun hlen =>
      hmarks hlen b (List.mem_append_right _ (List.mem_singleton.2 rfl)) hb
    obtain rfl : init = [] := by
      rw [List.length_append, List.length_singleton] at hlen
      exact List.eq_nil_of_length_eq_zero (by omega)
    unfold pathNode at h
    rw [if_neg hlen] at h
    obtain rfl := Except.ok.inj h
    exact .refused hb
  · have hsplit : splitModifier ((init ++ [b]).getLastD []) = (b, none) := by
      rw [List.getLastD_concat, splitModifier_of_notMem hb]
    rw [fieldPath_eq hsplit, List.dropLast_concat] at h₀
    rcases hcases with ⟨-, ht, hall⟩ | hplain
    · obtain rfl := Except.ok.inj ((hall none).symm.trans h₀)
      exact .traversed ht
    · rw [hplain] at h h₀
      obtain rfl := Except.ok.inj h
      unfold plainNode at h₀
      dsimp only at h₀
      split_ifs at h₀
      · obtain ⟨type, -, rfl⟩ := Failing.map_eq_ok.1 h₀
        exact .field
      · obtain rfl := Except.ok.inj h₀
        exact .field

/-- What an operand with a modifier becomes. -/
theorem modified_of_operandNode {x base : Operand} (hx : bare? x = some (base, m))
    (hn : E.operandNode x = .ok n) (hn₀ : E.operandNode base = .ok n₀) : Modified m n n₀ := by
  cases x with
  | string | number | trueVal | falseVal | null => cases hx
  | macroName name =>
    unfold bare? at hx
    dsimp only at hx
    split at hx
    · rename_i b m' hsplit
      obtain ⟨rfl, rfl⟩ := Prod.mk.inj (Option.some.inj hx)
      obtain ⟨rfl, hbare⟩ := macroNode_modified hsplit hn
      obtain rfl := Except.ok.inj (hbare.symm.trans hn₀)
      exact .macroName hsplit
    · cases hx
  | fieldPath p =>
    unfold bare? at hx
    dsimp only at hx
    split at hx
    · rename_i b m' hsplit
      obtain ⟨rfl, rfl⟩ := Prod.mk.inj (Option.some.inj hx)
      have hpath : pathNode E (p.parts.dropLast ++ [b]) (some m') = .ok n :=
        (fieldPath_eq hsplit).symm.trans hn
      obtain ⟨head, tail, hkey⟩ := p
      cases tail with
      | nil =>
        rw [if_pos rfl] at hn₀
        unfold identOperand at hn₀
        split_ifs at hn₀
        · exact modified_of_pathNode [] hpath hn₀
        all_goals
          obtain rfl := Except.ok.inj hn₀
          obtain ⟨-, ⟨hlen, -⟩ | hplain⟩ := pathNode_cases hpath
          · exact absurd hlen (by simp [FieldPath.parts])
          · rw [hplain] at hpath
            obtain rfl := Except.ok.inj hpath
            first
            | exact .keyword (Or.inl ⟨_, rfl⟩)
            | exact .keyword (Or.inr rfl)
      | cons next rest =>
        rw [if_neg (List.cons_ne_nil _ _)] at hn₀
        have hne : (next :: rest).dropLast ++ [b] ≠ [] :=
          List.append_ne_nil_of_right_ne_nil _ (List.cons_ne_nil _ _)
        unfold identOperand at hn₀
        rw [dif_pos fun h => absurd h hne] at hn₀
        exact modified_of_pathNode (head :: (next :: rest).dropLast) hpath hn₀
    · cases hx

/-! ## The term of a macro with a modifier -/

/-- The names the request context holds already have no modifier. -/
def Unmarked (E : FilterEnv) : Prop := ∀ k v, E.ctx.resolved.get? k = some v → ':' ∉ k

theorem colon_notMem_of_matchAt {source : MacroSource} {s : Text} {x : MacroSource × Text}
    (h : Macros.matchAt source s = some x) : ':' ∉ x.1.key x.2 := by
  obtain ⟨-, rest, -, hpath⟩ := Macros.matchAt_eq_some.1 h
  have hrun : ':' ∉ x.2 := by
    unfold Macros.matchedPath? at hpath
    dsimp only at hpath
    split_ifs at hpath with hok
    rw [← Option.some.inj hpath]
    exact hok.1
  rw [Macros.key_cons]
  refine fun hmem => (List.mem_append.1 hmem).elim ?_ hrun
  cases x.1 <;> decide

/-- The pre-pass resolves no name with a modifier. -/
theorem unmarked_resolveRequestMacros (rt : Runtime) (db : Db) (filter : Text) {ctx :
    RequestContext}
    (c : Collection) (hctx : ctx.resolved = []) {k : Text} {v : Value}
    (h : (resolveRequestMacros rt db filter ctx c).resolved.get? k = some v) : ':' ∉ k := by
  unfold resolveRequestMacros at h
  rw [Macros.get?_foldl_addResolved, hctx, Dict.get?_nil, Option.none_or] at h
  obtain ⟨x, hx, hk⟩ := List.exists_of_findSome?_eq_some h
  obtain ⟨u, w, -, hm⟩ := Macros.mem_findAll.1 hx
  split_ifs at hk with hkey
  rw [← hkey]
  exact colon_notMem_of_matchAt hm

theorem clock?_of_mem (h : ':' ∈ name) : FilterEnv.clock? name = none := by
  unfold FilterEnv.clock?
  refine Dict.get?_eq_none_iff.2 fun hkey => ?_
  have hall : ∀ k ∈ Dict.keys ([("now", .now), ("second", .second), ("minute", .minute),
      ("hour", .hour), ("weekday", .weekday), ("day", .day), ("month", .month), ("year", .year),
      ("yesterday", .yesterday), ("tomorrow", .tomorrow), ("todayStart", .todayStart),
      ("todayEnd", .todayEnd), ("monthStart", .monthStart), ("monthEnd", .monthEnd),
      ("yearStart", .yearStart), ("yearEnd", .yearEnd)] : Dict Text Clock), ':' ∉ k := by decide
  exact hall name hkey h

/-- A name with a modifier is a field of the body, or a value. -/
theorem resolveMacro_marked (hE : Unmarked E) (h : ':' ∈ name) :
    (∀ f, FilterEnv.bodyMacro? name = some f → E.resolveMacro name = E.resolveBodyMacro f) ∧
      (FilterEnv.bodyMacro? name = none → ∃ v, E.resolveMacro name = .ok (.value v)) := by
  have hresolved : E.ctx.resolved.get? name = none := by
    cases hget : E.ctx.resolved.get? name with
    | none => rfl
    | some v => exact absurd h (hE name v hget)
  have hcontext : name ≠ "request.context".toList := by
    rintro rfl
    exact absurd h (by decide)
  have hmethod : name ≠ "request.method".toList := by
    rintro rfl
    exact absurd h (by decide)
  unfold FilterEnv.resolveMacro
  simp only [hresolved, clock?_of_mem h, hcontext, hmethod, if_false]
  constructor
  · intro f hf
    have hheads : Text.afterPrefix? "request.headers." name = none ∧
        Text.afterPrefix? "request.auth." name = none := by
      unfold FilterEnv.bodyMacro? at hf
      rcases Option.or_eq_some_iff.1 hf with hf | ⟨-, hf⟩ <;>
      · rw [Text.afterPrefix?_eq_some.1 hf]
        exact ⟨rfl, rfl⟩
    simp only [hheads.1, hheads.2, hf]
  · intro hf
    cases Text.afterPrefix? "request.headers." name with
    | some f => exact ⟨_, rfl⟩
    | none =>
      cases Text.afterPrefix? "request.auth." name with
      | some f => exact ⟨_, rfl⟩
      | none =>
        simp only [hf]
        cases Text.afterPrefix? "request.query." name <;> exact ⟨_, rfl⟩

variable {f : Text} {op : CompareOp} {o : Operator} {c : Cond} {r : Node} {isJson : Bool}

theorem resolveBodyMacro_eq (hf : splitModifier name = (f, some m)) (hm : m ≠ .each)
    (h : E.resolveBodyMacro name = .ok t) :
    posted E.rt m (.column none f) (E.ctx.data.get? f) = some t := by
  unfold FilterEnv.resolveBodyMacro at h
  rw [hf] at h
  dsimp only at h
  unfold posted
  cases m with
  | each => exact absurd rfl hm
  | isset | length => exact congrArg some (Except.ok.inj h)
  | changed =>
    dsimp only at h ⊢
    cases hv : E.ctx.data.get? f with
    | none =>
      rw [hv] at h
      exact congrArg some (Except.ok.inj h)
    | some v =>
      rw [hv] at h
      change (sanitizeIdent f >>= fun field => Except.ok ((Term.column none field).changed v)) =
        _ at h
      obtain ⟨g, hg, ht⟩ := Failing.bind_eq_ok.1 h
      rw [← (sanitizeIdent_eq_ok hg).1]
      exact congrArg some (Except.ok.inj ht)
  | lower =>
    dsimp only at h ⊢
    split at h <;> simp_all

/-- What is looked up of a macro with a modifier. -/
theorem bodyMacro?_modified (hm : splitModifier name = (b, some m)) : ∃ suffix,
    Modifier.ofText? suffix = some m ∧ ':' ∈ name.dropWhile (· = '@') ∧
      FilterEnv.bodyMacro? (name.dropWhile (· = '@')) =
        (FilterEnv.bodyMacro? (b.dropWhile (· = '@'))).map (· ++ ':' :: suffix) := by
  obtain ⟨suffix, rfl, -, hsuffix⟩ := splitModifier_eq_some hm
  rw [dropWhile_append_mark, bodyMacro?_append]
  exact ⟨suffix, hsuffix, List.mem_append_right _ List.mem_cons_self, rfl⟩

theorem bodyField?_eq_some (h : bodyField? b = some f) :
    FilterEnv.bodyMacro? (b.dropWhile (· = '@')) = some f ∧ f ≠ [] := by
  unfold bodyField? at h
  split at h
  · rename_i g hg
    split_ifs at h with hplain
    obtain rfl := Option.some.inj h
    exact ⟨hg, fun hnil => hplain (Or.inl hnil)⟩
  · cases h

/-- The modifier of a field of the body is split off again. -/
theorem bodyMacro?_field (hm : splitModifier name = (b, some m)) (hf : bodyField? b = some f) : ∃ g,
      FilterEnv.bodyMacro? (name.dropWhile (· = '@')) = some g ∧ splitModifier g = (f, some m) := by
  obtain ⟨suffix, hsuffix, -, hbody⟩ := bodyMacro?_modified hm
  obtain ⟨hb, hne⟩ := bodyField?_eq_some hf
  rw [hb] at hbody
  refine ⟨_, hbody, ?_⟩
  rw [splitModifier_append hsuffix, if_neg hne]

/-- The term of a body macro with a modifier is over the payload's own value. -/
theorem operandToSql_body (hE : Unmarked E) (hm : splitModifier name = (b, some m))
    (hf : bodyField? b = some f) (heach : m ≠ .each) (h : E.operandToSql (.macroName name) = .ok t) :
    posted E.rt m (.column none f) (E.ctx.data.get? f) = some t := by
  obtain ⟨-, -, hmark, -⟩ := bodyMacro?_modified hm
  obtain ⟨g, hg, hsplit⟩ := bodyMacro?_field hm hf
  exact resolveBodyMacro_eq hsplit heach (((resolveMacro_marked hE hmark).1 g hg).symm.trans h)

/-- Of any other macro, a modifier but `changed` leaves a value. -/
theorem operandToSql_other (hE : Unmarked E) (hm : splitModifier name = (b, some m))
    (hchanged : m ≠ .changed) (h : E.operandToSql (.macroName name) = .ok t) :
    ∃ v, t = .value v := by
  obtain ⟨suffix, hsuffix, hmark, hbody⟩ := bodyMacro?_modified hm
  obtain ⟨hfield, hother⟩ := resolveMacro_marked hE hmark
  change E.resolveMacro (name.dropWhile (· = '@')) = .ok t at h
  cases hb : FilterEnv.bodyMacro? (b.dropWhile (· = '@')) with
  | none =>
    rw [hb] at hbody
    obtain ⟨v, hv⟩ := hother hbody
    exact ⟨v, Except.ok.inj (h.symm.trans hv)⟩
  | some g =>
    rw [hb] at hbody
    rw [hfield _ hbody] at h
    unfold FilterEnv.resolveBodyMacro at h
    rw [splitModifier_append hsuffix] at h
    split_ifs at h
    · exact ⟨_, (Except.ok.inj h).symm⟩
    · cases m with
      | changed => exact absurd rfl hchanged
      | isset | length | each => exact ⟨_, (Except.ok.inj h).symm⟩
      | lower =>
        dsimp only at h
        split at h <;> exact ⟨_, (Except.ok.inj h).symm⟩

theorem kind_macroName (hm : splitModifier name = (b, some m)) (heach : m ≠ .each) :
    kind (.macroName name) = .scalar := by
  obtain ⟨suffix, hsuffix, -, hbody⟩ := bodyMacro?_modified hm
  have hscalar : isEachMacro name = false := by
    unfold isEachMacro
    rw [hbody]
    cases FilterEnv.bodyMacro? (b.dropWhile (· = '@')) with
    | none => rfl
    | some g =>
      dsimp only [Option.map_some]
      rw [splitModifier_append hsuffix]
      split_ifs
      · rfl
      · exact decide_eq_false fun h => heach (Option.some.inj h)
  unfold kind
  dsimp only
  rw [hscalar]
  rfl

/-- The array of a body macro for each of its values. -/
theorem extractEachOperand_body (hm : splitModifier name = (b, some .each))
    (hf : bodyField? b = some f) : E.extractEachOperand (.macroName name) =
      .ok (some (.value (FilterEnv.eachValues E.rt (E.dataValue? f)))) := by
  obtain ⟨g, hg, hsplit⟩ := bodyMacro?_field hm hf
  unfold FilterEnv.extractEachOperand
  dsimp only
  rw [hg]
  dsimp only
  rw [hsplit]

/-! ## Where the term of an operand stands -/

/-- The condition of a leaf, with the term of the operand where the operator has it.
`null` is when the other side is written as `NULL`, `elem` when the operator is an equality
in any case. -/
def Form (null elem : Bool) (o : Operator) (left : Bool) (t : Term) (c : Cond) : Prop :=
  match o.opClass with
  | .standard op => (∃ negated, c = emptiness negated t) ∨
      null = true ∧ c = nullComparison op t ∨
      null = false ∧ ∃ x, c = if left then .compare op t x else .compare op x t
  | .like negated => ∃ x, c =
    if left then .ilike negated (.text t) x else .ilike negated x (.pattern t)
  | .anyStandard op =>
    if elem then ∃ x, c = if left then .compare .eq t x else .compare .eq x t
    else ∃ x, c = if left then scalarOrArrayAny t x op else scalarOrArrayAny x t op
  | .anyLike negated =>
    if elem then ∃ x, c = if left then .compare .eq t x else .compare .eq x t
    else ∃ x, c =
      if left then scalarOrArrayLike t x negated else scalarOrArrayLike x (.pattern t) negated

theorem emptiness_injective {negated negated' : Bool}
    (h : emptiness negated t = emptiness negated' u) :
    t = u := by
  cases negated <;> cases negated' <;> first
    | cases h
      done
    | exact Term.text.inj (Cond.isNull.inj (Cond.or.inj h).2)
    | exact Term.text.inj (Cond.notNull.inj (Cond.and.inj h).2)

theorem nullComparison_injective (h : nullComparison op t = nullComparison op u) : t = u := by
  cases op with
  | eq => exact Cond.isNull.inj h
  | ne => exact Cond.notNull.inj h
  | gt | ge | lt | le => exact (Cond.compare.inj h).2.1

theorem emptiness_ne_nullComparison {negated : Bool} :
    emptiness negated t ≠ nullComparison op u := by
  cases negated <;> cases op <;> nofun

theorem emptiness_ne_compare {negated left : Bool} {x : Term} :
    emptiness negated t ≠ if left then Cond.compare op u x else .compare op x u := by
  cases negated <;> cases left <;> nofun

theorem scalarOrArrayAny_injective {x y : Term}
    (h : scalarOrArrayAny t x op = scalarOrArrayAny u y op) : t = u ∧ x = y := by
  cases op with
  | eq | ne =>
    obtain ⟨ht, hx, -⟩ := Cond.caseArray.inj h
    exact ⟨ht, Term.text.inj (Cond.compare.inj hx).2.1⟩
  | gt | ge | lt | le =>
    obtain ⟨-, hx, ht⟩ := Cond.any.inj h
    exact ⟨ht, hx⟩

/-- The term is found again in the condition. -/
theorem Form.injective {null elem left : Bool} (h : Form null elem o left t c)
    (h' : Form null elem o left u c) : t = u := by
  have hcompare : ∀ {op : CompareOp}, (∃ x, c = if left then .compare op t x else .compare op x t) →
      (∃ x, c = if left then .compare op u x else .compare op x u) → t = u := by
    rintro op ⟨x, rfl⟩ ⟨y, hy⟩
    cases left with
    | true => exact (Cond.compare.inj hy).2.1
    | false => exact (Cond.compare.inj hy).2.2
  unfold Form at h h'
  cases hclass : o.opClass with
  | standard op =>
    rw [hclass] at h h'
    rcases h with ⟨negated, rfl⟩ | ⟨hnull, rfl⟩ | ⟨hnull, x, hx⟩
    · rcases h' with ⟨negated', h'⟩ | ⟨-, h'⟩ | ⟨-, y, hy⟩
      · exact emptiness_injective h'
      · exact absurd h' emptiness_ne_nullComparison
      · exact absurd hy emptiness_ne_compare
    · rcases h' with ⟨negated', h'⟩ | ⟨-, h'⟩ | ⟨hnot, -⟩
      · exact absurd h'.symm emptiness_ne_nullComparison
      · exact nullComparison_injective h'
      · exact absurd (hnot.symm.trans hnull) Bool.false_ne_true
    · rcases h' with ⟨negated', rfl⟩ | ⟨hyes, -⟩ | ⟨-, h'⟩
      · exact absurd hx emptiness_ne_compare
      · exact absurd (hnull.symm.trans hyes) Bool.false_ne_true
      · exact hcompare ⟨x, hx⟩ h'
  | like negated =>
    rw [hclass] at h h'
    obtain ⟨x, rfl⟩ := h
    obtain ⟨y, hy⟩ := h'
    cases left with
    | true => exact Term.text.inj (Cond.ilike.inj hy).2.1
    | false => exact Term.pattern.inj (Cond.ilike.inj hy).2.2
  | anyStandard op =>
    rw [hclass] at h h'
    cases elem with
    | true => exact hcompare h h'
    | false =>
      obtain ⟨x, rfl⟩ := h
      obtain ⟨y, hy⟩ := h'
      cases left with
      | true => exact (scalarOrArrayAny_injective hy).1
      | false => exact (scalarOrArrayAny_injective hy).2
  | anyLike negated =>
    rw [hclass] at h h'
    cases elem with
    | true => exact hcompare h h'
    | false =>
      obtain ⟨x, rfl⟩ := h
      obtain ⟨y, hy⟩ := h'
      cases left with
      | true => exact (Cond.caseArray.inj hy).1
      | false => exact Term.pattern.inj (Cond.ilike.inj (Cond.caseArray.inj hy).2.1).2.2

/-- The emptiness of an operand, for whichever side is empty. -/
theorem eq_emptiness {l : Node} {lt rt : Term} (h : emptyEqualitySql op l lt r rt = some c) :
    (l.isEmpty = false → ∃ negated, c = emptiness negated lt) ∧
      (r.isEmpty = false → ∃ negated, c = emptiness negated rt) := by
  obtain ⟨negated, -, ⟨hl, hr, -⟩ | ⟨hl, hc⟩ | ⟨hr, hc⟩⟩ := of_emptyEqualitySql h
  · exact ⟨fun h => absurd (h.symm.trans hl) Bool.false_ne_true,
      fun h => absurd (h.symm.trans hr) Bool.false_ne_true⟩
  · exact ⟨fun h => absurd (h.symm.trans hl) Bool.false_ne_true, fun _ => ⟨negated, hc⟩⟩
  · exact ⟨fun _ => ⟨negated, hc⟩, fun h => absurd (h.symm.trans hr) Bool.false_ne_true⟩

/-- The traversed column of a comparison. -/
theorem form_refCondition (run : Runtime) (left : Bool) {rt : Term} (hn : n.isEmpty = false) :
    Form r.isNull false o left t (refCondition run n t o r rt left) := by
  unfold Form refCondition
  cases o.opClass with
  | standard op =>
    dsimp only
    cases hempty : emptyEqualitySql op n t r rt with
    | some c => exact Or.inl ((eq_emptiness hempty).1 hn)
    | none =>
      dsimp only
      by_cases hnull : r.isNull = true
      · rw [if_pos hnull]
        exact Or.inr (Or.inl ⟨hnull, rfl⟩)
      · rw [if_neg hnull]
        exact Or.inr (Or.inr ⟨Bool.eq_false_iff.2 hnull, rt, rfl⟩)
  | like negated => cases left <;> exact ⟨_, rfl⟩
  | anyStandard op => cases left <;> exact ⟨_, rfl⟩
  | anyLike negated => cases left <;> exact ⟨_, rfl⟩

/-- The other operand of a comparison with a traversed column. -/
theorem form_refCondition_other (run : Runtime) (left : Bool) {x : Term} (hn : n.isEmpty = false) :
    Form false false o (!left) t (refCondition run n x o (.sqlRef t isJson none) t left) := by
  unfold Form refCondition
  cases o.opClass with
  | standard op =>
    dsimp only
    rw [emptyEqualitySql_eq_none hn rfl]
    refine Or.inr (Or.inr ⟨rfl, x, ?_⟩)
    cases left <;> rfl
  | like negated => cases left <;> exact ⟨_, rfl⟩
  | anyStandard op => cases left <;> exact ⟨_, rfl⟩
  | anyLike negated => cases left <;> exact ⟨_, rfl⟩

/-- `NULL` on the other side is written as a test where the source looks for it. -/
def nullSide (o : Operator) (left : Bool) (other : Node) : Bool :=
  other.isNull && (left || o.standardOrEq = .eq || o.standardOrEq = .ne)

theorem form_regularComparison_left (h : E.regularComparison (.sqlRef t isJson none) o r = .ok c) :
    Form (nullSide o true r) false o true t c := by
  unfold FilterEnv.regularComparison at h
  obtain ⟨lt, hlt, h⟩ := Failing.bind_eq_ok.1 h
  obtain rfl := Except.ok.inj hlt
  obtain ⟨rt, hrt, h⟩ := Failing.bind_eq_ok.1 h
  unfold Form nullSide
  cases hclass : o.opClass with
  | standard op =>
    rw [hclass] at h
    dsimp only at h ⊢
    cases hempty : emptyEqualitySql op (.sqlRef t isJson none) t r rt with
    | some d =>
      rw [hempty] at h
      obtain rfl := Except.ok.inj h
      exact Or.inl ((eq_emptiness hempty).1 rfl)
    | none =>
      rw [hempty] at h
      dsimp only at h
      refine Or.inr ?_
      cases hnull : r.isNull with
      | false =>
        rw [if_neg fun h' => Bool.false_ne_true (hnull.symm.trans h'.1), if_neg
          fun h' => Bool.false_ne_true h'.1] at h
        exact Or.inr ⟨rfl, rt, (Except.ok.inj h).symm⟩
      | true =>
        refine Or.inl ⟨rfl, ?_⟩
        obtain rfl := eq_null_of_writes (writes_operandToSql hrt) hnull
        by_cases hop : op = .eq ∨ op = .ne
        · rw [if_pos ⟨hnull, hop⟩] at h
          exact (Except.ok.inj h).symm
        · rw [if_neg fun h' => hop h'.2, if_neg fun h' => hop h'.2] at h
          obtain rfl := Except.ok.inj h
          cases op with
          | eq => exact absurd (Or.inl rfl) hop
          | ne => exact absurd (Or.inr rfl) hop
          | gt | ge | lt | le => rfl
  | like negated =>
    rw [hclass] at h
    exact ⟨_, (Except.ok.inj h).symm⟩
  | anyStandard op =>
    rw [hclass] at h
    exact ⟨_, (Except.ok.inj h).symm⟩
  | anyLike negated =>
    rw [hclass] at h
    exact ⟨_, (Except.ok.inj h).symm⟩

theorem form_regularComparison_right {l : Node}
    (h : E.regularComparison l o (.sqlRef t isJson none) = .ok c) :
    Form (nullSide o false l) false o false t c := by
  unfold FilterEnv.regularComparison at h
  obtain ⟨lt, hlt, h⟩ := Failing.bind_eq_ok.1 h
  obtain ⟨rt, hrt, h⟩ := Failing.bind_eq_ok.1 h
  obtain rfl := Except.ok.inj hrt
  unfold Form nullSide Operator.standardOrEq
  cases hclass : o.opClass with
  | standard op =>
    rw [hclass] at h
    dsimp only at h ⊢
    cases hempty : emptyEqualitySql op l lt (.sqlRef t isJson none) t with
    | some d =>
      rw [hempty] at h
      obtain rfl := Except.ok.inj h
      exact Or.inl ((eq_emptiness hempty).2 rfl)
    | none =>
      rw [hempty] at h
      dsimp only at h
      rw [if_neg fun h' => Bool.false_ne_true h'.1] at h
      refine Or.inr ?_
      by_cases hnull : l.isNull = true ∧ (op = .eq ∨ op = .ne)
      · rw [if_pos hnull] at h
        refine Or.inl ⟨?_, (Except.ok.inj h).symm⟩
        rcases hnull with ⟨hl, rfl | rfl⟩ <;> rw [hl] <;> rfl
      · rw [if_neg hnull] at h
        refine Or.inr ⟨?_, lt, (Except.ok.inj h).symm⟩
        cases hl : l.isNull with
        | false => rfl
        | true =>
          cases op with
          | eq => exact absurd ⟨hl, Or.inl rfl⟩ hnull
          | ne => exact absurd ⟨hl, Or.inr rfl⟩ hnull
          | gt | ge | lt | le => rfl
  | like negated =>
    rw [hclass] at h
    exact ⟨_, (Except.ok.inj h).symm⟩
  | anyStandard op =>
    rw [hclass] at h
    exact ⟨_, (Except.ok.inj h).symm⟩
  | anyLike negated =>
    rw [hclass] at h
    exact ⟨_, (Except.ok.inj h).symm⟩

/-- The other operand of a condition on each element. -/
theorem form_eachItemCondition {left : Bool}
    (h : E.eachItemCondition o (.sqlRef t isJson none) left = .ok c) :
    Form false true o (!left) t c := by
  obtain ⟨ot, hot, h⟩ := Failing.bind_eq_ok.1 h
  obtain rfl := Except.ok.inj hot
  cases hclass : o.opClass with
  | standard op | like negated =>
    rw [hclass] at h
    have hc := Except.ok.inj h
    have hform : Form false false o (!left) t (refCondition E.rt
        (.sqlRef (.column none "_elem") false none) (.column none "_elem") o
        (.sqlRef t isJson none) t left) := form_refCondition_other E.rt left rfl
    rw [← hc]
    unfold Form at hform ⊢
    rw [hclass] at hform ⊢
    exact hform
  | anyStandard op | anyLike negated =>
    rw [hclass] at h
    obtain rfl := Except.ok.inj h
    unfold Form
    rw [hclass]
    cases left <;> exact ⟨_, rfl⟩

/-! ## Comparing an operand with another -/

variable {o : Operator} {item : Item} {c : Cond} {left : Bool}

theorem literalForFieldType_of_not (run : Runtime) (type : Option FieldType)
    (h : n.isLiteral = false) :
    literalForFieldType run n type = n := by
  cases n with
  | literal => cases h
  | null | field | fieldModifier | relationRef | sqlRef | collectionRef | macroName => rfl

/-- An operand without a type leaves the other as it is. -/
theorem compareOn_eq (hn : n.isLiteral = false) (htype : n.fieldType = none) :
    compareOn E left n o other =
      if left then E.compareNodes n o other else E.compareNodes other o n := by
  have hdate : isDatetime n.fieldType = false := by
    rw [htype]
    rfl
  have hright : coerceLiterals E.rt n other = (n, other) := by
    unfold coerceLiterals
    rw [literalForFieldType_of_not _ _ hn, hdate]
    simp
  have hleft : coerceLiterals E.rt other n = (other, n) := by
    unfold coerceLiterals
    rw [literalForFieldType_of_not _ _ hn, hdate]
    simp
  unfold compareOn FilterEnv.comparison
  rw [hright, hleft]
  cases o.opClass <;> rfl

@[simp] theorem quantifyOn_true : quantifyOn E true n other c = quantify E n other c := rfl

@[simp] theorem quantifyOn_false : quantifyOn E false n other c = quantify E other n c := rfl

/-- `NULL` as `nullSide` has it, next to an operand of the record. -/
def nullOf (o : Operator) (left : Bool) (other : Node) : Bool :=
  match kind other with
  | .scalar => nullSide o left other
  | _ => false

/-- The condition of a comparison with an operand of the record, under the quantifiers of the
other. -/
theorem exists_form (h : compareOn E left (.sqlRef t isJson none) o other = .ok item) :
    ∃ c, quantifyOn E left (.sqlRef t isJson none) other c = .ok item ∧
      Form (nullOf o left other) (kind other = .each) o left t c := by
  rw [compareOn_eq rfl rfl] at h
  have hown : kind (.sqlRef t isJson none) = .each ∨ kind (.sqlRef t isJson none) = .scalar :=
    Or.inr rfl
  have hrelation : kind (.sqlRef t isJson none) ≠ .relation := ne_relation_of_own hown
  rcases kind_cases other with ⟨steps, u, j, y, rfl⟩ | ⟨coll, path, key, rfl⟩ | hother
  · cases left with
    | true =>
      rw [if_pos rfl, compareNodes_relationRight hrelation] at h
      obtain ⟨ot, hot, h⟩ := Failing.bind_eq_ok.1 h
      obtain rfl := Except.ok.inj hot
      refine ⟨refCondition E.rt (.relationRef steps u j y) u o (.sqlRef t isJson none) t false, ?_,
        form_refCondition_other E.rt false rfl⟩
      rw [quantifyOn_true, quantify_relationRight hrelation]
      exact h
    | false =>
      rw [if_neg Bool.false_ne_true, compareNodes_relationLeft hrelation] at h
      obtain ⟨ot, hot, h⟩ := Failing.bind_eq_ok.1 h
      obtain rfl := Except.ok.inj hot
      refine ⟨refCondition E.rt (.relationRef steps u j y) u o (.sqlRef t isJson none) t true, ?_,
        form_refCondition_other E.rt true rfl⟩
      rw [quantifyOn_false, quantify_relationLeft hrelation]
      exact h
  · cases left with
    | true =>
      rw [if_pos rfl, compareNodes_collectionRight hown] at h
      obtain ⟨ref, href, h⟩ := Failing.bind_eq_ok.1 h
      obtain ⟨ot, hot, h⟩ := Failing.bind_eq_ok.1 h
      obtain rfl := Except.ok.inj hot
      refine ⟨refCondition E.rt (.sqlRef ref.sql ref.isJson ref.type) ref.sql o (.sqlRef t isJson none) t false, ?_,
        form_refCondition_other E.rt false rfl⟩
      rw [quantifyOn_true, quantify_collectionRight hown, href]
      exact h
    | false =>
      rw [if_neg Bool.false_ne_true, compareNodes_collectionLeft hown] at h
      obtain ⟨ref, href, h⟩ := Failing.bind_eq_ok.1 h
      obtain ⟨ot, hot, h⟩ := Failing.bind_eq_ok.1 h
      obtain rfl := Except.ok.inj hot
      refine ⟨refCondition E.rt (.sqlRef ref.sql ref.isJson ref.type) ref.sql o (.sqlRef t isJson none) t true, ?_,
        form_refCondition_other E.rt true rfl⟩
      rw [quantifyOn_false, quantify_collectionLeft hown, href]
      exact h
  · have hnone : E.extractEachOperand (.sqlRef t isJson none) = .ok none := rfl
    have hform : ∀ {a : Option Term}, E.extractEachOperand other = .ok a →
        (if left then compareOwn E (.sqlRef t isJson none) o other none a
          else compareOwn E other o (.sqlRef t isJson none) a none) = .ok item →
        ∃ c, item = .sql (overElements a none c) ∧
          Form (nullOf o left other) (kind other = .each) o left t c := by
      intro a ha h
      cases a with
      | some a =>
        have hk := (extractEachOperand_eq_ok ha).2 rfl
        unfold nullOf
        rw [hk]
        cases left with
        | true =>
          obtain ⟨c, hc, rfl⟩ := Failing.map_eq_ok.1 h
          exact ⟨c, rfl, form_eachItemCondition hc⟩
        | false =>
          obtain ⟨c, hc, rfl⟩ := Failing.map_eq_ok.1 h
          exact ⟨c, rfl, form_eachItemCondition hc⟩
      | none =>
        have hk :=
          hother.resolve_left fun hk => Bool.false_ne_true ((extractEachOperand_eq_ok ha).1 hk)
        unfold nullOf
        rw [hk]
        cases left with
        | true =>
          obtain ⟨c, hc, rfl⟩ := Failing.map_eq_ok.1 h
          exact ⟨c, rfl, form_regularComparison_left hc⟩
        | false =>
          obtain ⟨c, hc, rfl⟩ := Failing.map_eq_ok.1 h
          exact ⟨c, rfl, form_regularComparison_right hc⟩
    cases left with
    | true =>
      rw [if_pos rfl, compareNodes_own hown hother, hnone, Failing.ok_bind] at h
      obtain ⟨a, ha, h⟩ := Failing.bind_eq_ok.1 h
      obtain ⟨c, rfl, hc⟩ := hform ha h
      refine ⟨c, ?_, hc⟩
      rw [quantifyOn_true, quantify_own hown hother, hnone, ha]
      cases a <;> rfl
    | false =>
      rw [if_neg Bool.false_ne_true, compareNodes_own hother hown] at h
      obtain ⟨a, ha, h⟩ := Failing.bind_eq_ok.1 h
      rw [hnone, Failing.ok_bind] at h
      obtain ⟨c, rfl, hc⟩ := hform ha h
      refine ⟨c, ?_, hc⟩
      rw [quantifyOn_false, quantify_own hother hown, ha, Failing.ok_bind, hnone]
      rfl

theorem quantifyOn_injective {d : Cond} (hc : quantifyOn E left n other c = .ok item)
    (hd : quantifyOn E left n other d = .ok item) : c = d := by
  cases left with
  | true => exact quantify_injective hc hd
  | false => exact quantify_injective hc hd

theorem quantifyOn_sqlRef {isJson' : Bool} : quantifyOn E left (.sqlRef t isJson none) other c =
    quantifyOn E left (.sqlRef u isJson' none) other c := by
  cases left with
  | true => cases other <;> rfl
  | false =>
    cases other with
    | relationRef steps => rcases steps with _ | ⟨s, _ | _⟩ <;> rfl
    | literal | null | field | fieldModifier | sqlRef | collectionRef | macroName => rfl

/-- Two comparisons of operands of the record are the same only if the operands are. -/
theorem term_of_compareOn {isJson' : Bool}
    (h : compareOn E left (.sqlRef t isJson none) o other = .ok item)
    (h' : compareOn E left (.sqlRef u isJson' none) o other = .ok item) : t = u := by
  obtain ⟨c, hc, hform⟩ := exists_form h
  obtain ⟨d, hd, hform'⟩ := exists_form h'
  have hd' : quantifyOn E left (.sqlRef t isJson none) other d = .ok item :=
    quantifyOn_sqlRef.trans hd
  obtain rfl := quantifyOn_injective hc hd'
  exact hform.injective hform'

theorem isNull_of_alike {r' : Node} (h : Alike r r') : r'.isNull = r.isNull := by
  rcases h with rfl | ⟨v, w, rfl, rfl⟩ <;> rfl

/-- The other operand of a comparison may be read as a date. -/
theorem exists_compareNodes (hn : n.isLiteral = false) (h : compareOn E left n o other = .ok item) :
    ∃ other', Alike other other' ∧
      (if left then E.compareNodes n o other' else E.compareNodes other' o n) = .ok item := by
  have hsame : ∀ {r : Node}, ReadAs E n r → r = n := by
    rintro r ⟨type, rfl⟩
    exact literalForFieldType_of_not _ _ hn
  unfold compareOn FilterEnv.comparison at h
  cases left with
  | true =>
    obtain ⟨hl, hr⟩ := readAs_coerceLiterals (E := E) n other
    rw [if_pos rfl] at h
    split at h
    · rw [hsame hl] at h
      exact ⟨_, hr.alike, h⟩
    · exact ⟨other, Or.inl rfl, h⟩
  | false =>
    obtain ⟨hl, hr⟩ := readAs_coerceLiterals (E := E) other n
    rw [if_neg Bool.false_ne_true] at h
    split at h
    · rw [hsame hr] at h
      exact ⟨_, hl.alike, h⟩
    · exact ⟨other, Or.inl rfl, h⟩

variable {type : Option FieldType}

theorem exists_form_relation {steps : List Step} (hother : kind other ≠ .relation)
    (h : compareOn E left (.relationRef steps t isJson type) o other = .ok item) :
    ∃ c, item = E.relationConditionForSteps steps c ∧ Form other.isNull false o left t c := by
  obtain ⟨other', halike, h⟩ := exists_compareNodes rfl h
  rw [← isNull_of_alike halike]
  rw [← halike.kind] at hother
  cases left with
  | true =>
    rw [if_pos rfl, compareNodes_relationLeft hother] at h
    obtain ⟨ot, -, h⟩ := Failing.bind_eq_ok.1 h
    exact ⟨_, (Except.ok.inj h).symm, form_refCondition E.rt true rfl⟩
  | false =>
    rw [if_neg Bool.false_ne_true, compareNodes_relationRight hother] at h
    obtain ⟨ot, -, h⟩ := Failing.bind_eq_ok.1 h
    exact ⟨_, (Except.ok.inj h).symm, form_refCondition E.rt false rfl⟩

/-- Two traversals are compared under the tables of both. -/
theorem exists_pair {steps : List Step} (hother : kind other = .relation)
    (h : compareOn E left (.relationRef steps t isJson type) o other = .ok item) :
    ∃ x, ∀ isJson' type' u, quantifyOn E left (.relationRef steps u isJson' type') other
      (if left then .compare o.standardOrEq t x else .compare o.standardOrEq x t) = .ok item := by
  obtain ⟨other', halike, h⟩ := exists_compareNodes rfl h
  rcases kind_cases other with ⟨rs, x, j, y, rfl⟩ | ⟨coll, path, key, rfl⟩ | hown
  · obtain rfl : other' = .relationRef rs x j y := by
      rcases halike with rfl | ⟨v, w, hv, -⟩
      · rfl
      · cases hv
    refine ⟨x, fun isJson' type' u => ?_⟩
    cases left with
    | true =>
      change E.relationPairComparison steps t o rs x = .ok item at h
      unfold FilterEnv.relationPairComparison at h
      split at h
      · exact h
      · cases h
    | false =>
      change E.relationPairComparison rs x o steps t = .ok item at h
      unfold FilterEnv.relationPairComparison at h
      split at h
      · exact h
      · cases h
  · cases hother
  · exact absurd hother (ne_relation_of_own hown)

/-- Two traversals along the same relations are compared alike only if their columns are the
same. -/
theorem term_of_compareOn_relation {steps : List Step} {isJson' : Bool} {type' : Option FieldType}
    (h : compareOn E left (.relationRef steps t isJson type) o other = .ok item)
    (h' : compareOn E left (.relationRef steps u isJson' type') o other = .ok item) : t = u := by
  by_cases hother : kind other = .relation
  · obtain ⟨x, hx⟩ := exists_pair hother h
    obtain ⟨y, hy⟩ := exists_pair hother h'
    have heq := quantifyOn_injective (hx isJson type t) (hy isJson type t)
    cases left with
    | true => exact (Cond.compare.inj heq).2.1
    | false => exact (Cond.compare.inj heq).2.2
  · obtain ⟨c, hc, hform⟩ := exists_form_relation hother h
    obtain ⟨d, hd, hform'⟩ := exists_form_relation hother h'
    obtain rfl := relationConditionForSteps_injective (hc.symm.trans hd)
    exact hform.injective hform'

/-! ## No leaf is a condition on each element -/

def isEach : Cond → Bool
  | .each _ _ => true
  | _ => false

theorem Form.isEach_eq_false {null elem : Bool} (h : Form null elem o left t c) :
    isEach c = false := by
  unfold Form at h
  cases hclass : o.opClass with
  | standard op =>
    rw [hclass] at h
    rcases h with ⟨negated, rfl⟩ | ⟨-, rfl⟩ | ⟨-, x, rfl⟩
    · cases negated <;> rfl
    · cases op <;> rfl
    · cases left <;> rfl
  | like negated =>
    rw [hclass] at h
    obtain ⟨x, rfl⟩ := h
    cases left <;> rfl
  | anyStandard op =>
    rw [hclass] at h
    cases elem <;> obtain ⟨x, rfl⟩ := h <;> cases left <;> cases op <;> rfl
  | anyLike negated =>
    rw [hclass] at h
    cases elem <;> obtain ⟨x, rfl⟩ := h <;> cases left <;> rfl

/-! ## Operands that are written as a term -/

/-- The operand is compared as its SQL is. -/
structure Reads (E : FilterEnv) (n : Node) (t : Term) : Prop where
  sql : E.operandToSql n = .ok t
  kind : kind n = .scalar
  isEmpty : n.isEmpty = false
  isNull : n.isNull = false
  isLiteral : n.isLiteral = false
  isJson : n.isJson = false
  fieldType : n.fieldType = none
  pattern : ∀ run u, likePattern run n u = .pattern u

theorem reads_fieldModifier (hm : m ≠ .each) (h : E.operandToSql (.fieldModifier name m) = .ok t) :
    Reads E (.fieldModifier name m) t where
  sql := h
  kind := by cases m <;> first | rfl | exact absurd rfl hm
  isEmpty := rfl
  isNull := rfl
  isLiteral := rfl
  isJson := rfl
  fieldType := rfl
  pattern _ _ := rfl

theorem reads_macroName (hk : kind (.macroName name) = .scalar)
    (h : E.operandToSql (.macroName name) = .ok t) : Reads E (.macroName name) t where
  sql := h
  kind := hk
  isEmpty := rfl
  isNull := rfl
  isLiteral := rfl
  isJson := rfl
  fieldType := rfl
  pattern _ _ := rfl

theorem emptyEqualitySql_reads (h : Reads E n t) (op : CompareOp) (r : Node) (rt : Term) :
    emptyEqualitySql op n t r rt = emptyEqualitySql op (.sqlRef t false none) t r rt ∧
      emptyEqualitySql op r rt n t = emptyEqualitySql op r rt (.sqlRef t false none) t := by
  have hempty : (Node.sqlRef t false none).isEmpty = false := rfl
  have hliteral : (Node.sqlRef t false none).isLiteral = false := rfl
  have hjson : (Node.sqlRef t false none).isJson = false := rfl
  unfold emptyEqualitySql
  rw [h.isEmpty, hempty]
  cases r.isEmpty <;>
    simp only [Bool.not_false, Bool.not_true, Bool.and_true, Bool.and_false, if_true, if_false,
      h.isLiteral, h.isJson, hliteral, hjson, Bool.false_eq_true, and_self]

theorem refCondition_reads (h : Reads E n t) (run : Runtime) (r : Node) (rt : Term) :
    refCondition run r rt o n t left = refCondition run r rt o (.sqlRef t false none) t left := by
  unfold refCondition likeComparison
  rw [h.pattern, h.isNull]
  cases o.opClass with
  | standard op =>
    dsimp only
    rw [(emptyEqualitySql_reads h op r rt).2]
    rfl
  | like | anyStandard | anyLike => rfl

theorem regularComparison_reads (h : Reads E n t) (r : Node) :
    E.regularComparison n o r = E.regularComparison (.sqlRef t false none) o r ∧
      E.regularComparison r o n = E.regularComparison r o (.sqlRef t false none) := by
  have hsql : E.operandToSql (.sqlRef t false none) = .ok t := rfl
  unfold FilterEnv.regularComparison
  rw [h.sql, hsql]
  simp only [Failing.ok_bind]
  cases E.operandToSql r with
  | error e => exact ⟨rfl, rfl⟩
  | ok rt =>
    simp only [Failing.ok_bind]
    cases o.opClass with
    | standard op =>
      dsimp only
      rw [(emptyEqualitySql_reads h op r rt).1, (emptyEqualitySql_reads h op r rt).2, h.isNull]
      exact ⟨rfl, rfl⟩
    | like negated =>
      dsimp only
      unfold likeComparison
      rw [h.pattern]
      exact ⟨rfl, rfl⟩
    | anyStandard op => exact ⟨rfl, rfl⟩
    | anyLike negated =>
      dsimp only
      rw [h.pattern]
      exact ⟨rfl, rfl⟩

theorem eachItemCondition_reads (h : Reads E n t) :
    E.eachItemCondition o n left = E.eachItemCondition o (.sqlRef t false none) left := by
  have hsql : E.operandToSql (.sqlRef t false none) = .ok t := rfl
  unfold FilterEnv.eachItemCondition
  rw [h.sql, hsql]
  simp only [Failing.ok_bind]
  rw [refCondition_reads h]

theorem compareOwn_reads (h : Reads E n t) (a : Option Term) :
    compareOwn E n o other none a = compareOwn E (.sqlRef t false none) o other none a ∧
      compareOwn E other o n a none = compareOwn E other o (.sqlRef t false none) a none := by
  unfold compareOwn
  rw [(regularComparison_reads h other).1, (regularComparison_reads h other).2,
    eachItemCondition_reads h, eachItemCondition_reads h]
  exact ⟨rfl, rfl⟩

theorem compareOn_reads (h : Reads E n t) :
    compareOn E left n o other = compareOn E left (.sqlRef t false none) o other := by
  have hown : kind n = .each ∨ kind n = .scalar := Or.inr h.kind
  have hown' : kind (.sqlRef t false none) = .each ∨ kind (.sqlRef t false none) = .scalar :=
    Or.inr rfl
  have hsql : E.operandToSql (.sqlRef t false none) = .ok t := rfl
  have hsame : ∀ type, literalForFieldType E.rt (.sqlRef t false none) type =
      .sqlRef t false none :=
    fun _ => rfl
  rw [compareOn_eq h.isLiteral h.fieldType, compareOn_eq rfl rfl]
  rcases kind_cases other with ⟨steps, u, j, y, rfl⟩ | ⟨coll, path, key, rfl⟩ | hother
  · rw [compareNodes_relationRight (ne_relation_of_own hown),
    compareNodes_relationLeft (ne_relation_of_own hown),
      compareNodes_relationRight (ne_relation_of_own hown'),
        compareNodes_relationLeft (ne_relation_of_own hown')]
    unfold FilterEnv.relationComparison
    rw [h.sql, hsql]
    simp only [Failing.ok_bind]
    rw [refCondition_reads h, refCondition_reads h]
  · rw [compareNodes_collectionRight hown, compareNodes_collectionLeft hown,
      compareNodes_collectionRight hown', compareNodes_collectionLeft hown']
    unfold FilterEnv.collectionComparison
    simp only [literalForFieldType_of_not _ _ h.isLiteral, hsame, h.sql, hsql, Failing.ok_bind]
    simp only [refCondition_reads h]
  · have hnone := extractEachOperand_scalar (E := E) h.kind
    have hnone' : E.extractEachOperand (.sqlRef t false none) = .ok none := rfl
    rw [compareNodes_own hown hother, compareNodes_own hother hown, compareNodes_own hown' hother,
      compareNodes_own hother hown', hnone, hnone']
    simp only [Failing.ok_bind]
    simp only [(compareOwn_reads h _).1, (compareOwn_reads h _).2]

/-- Next to a traversal or a collection, an operand of the record is written out. -/
theorem exists_far (hn : n.isLiteral = false) (htype : n.fieldType = none)
    (hown : kind n = .each ∨ kind n = .scalar) (hother : ¬(kind other = .each ∨ kind other =
        .scalar))
    (h : compareOn E left n o other = .ok item) : ∃ t d, E.operandToSql n = .ok t ∧
      isEach d = false ∧ ∀ n' : Node, (kind n' = .each ∨ kind n' = .scalar) →
        quantifyOn E left n' other d = .ok item := by
  rw [compareOn_eq hn htype] at h
  rcases kind_cases other with ⟨steps, u, j, y, rfl⟩ | ⟨coll, path, key, rfl⟩ | hk
  · cases left with
    | true =>
      rw [if_pos rfl, compareNodes_relationRight (ne_relation_of_own hown)] at h
      obtain ⟨t, ht, h⟩ := Failing.bind_eq_ok.1 h
      have hd : isEach (refCondition E.rt (.relationRef steps u j y) u o n t false) = false :=
        (form_refCondition E.rt false rfl).isEach_eq_false
      refine ⟨t, _, ht, hd, fun n' hn' => ?_⟩
      rw [quantifyOn_true, quantify_relationRight (ne_relation_of_own hn')]
      exact h
    | false =>
      rw [if_neg Bool.false_ne_true, compareNodes_relationLeft (ne_relation_of_own hown)] at h
      obtain ⟨t, ht, h⟩ := Failing.bind_eq_ok.1 h
      have hd : isEach (refCondition E.rt (.relationRef steps u j y) u o n t true) = false :=
        (form_refCondition E.rt true rfl).isEach_eq_false
      refine ⟨t, _, ht, hd, fun n' hn' => ?_⟩
      rw [quantifyOn_false, quantify_relationLeft (ne_relation_of_own hn')]
      exact h
  · cases left with
    | true =>
      rw [if_pos rfl, compareNodes_collectionRight hown] at h
      obtain ⟨ref, href, h⟩ := Failing.bind_eq_ok.1 h
      unfold FilterEnv.collectionComparison at h
      rw [literalForFieldType_of_not _ _ hn] at h
      obtain ⟨t, ht, h⟩ := Failing.bind_eq_ok.1 h
      have hd : isEach (refCondition E.rt (.sqlRef ref.sql ref.isJson ref.type) ref.sql o n t false) =
          false := (form_refCondition E.rt false rfl).isEach_eq_false
      refine ⟨t, _, ht, hd, fun n' hn' => ?_⟩
      rw [quantifyOn_true, quantify_collectionRight hn', href]
      exact h
    | false =>
      rw [if_neg Bool.false_ne_true, compareNodes_collectionLeft hown] at h
      obtain ⟨ref, href, h⟩ := Failing.bind_eq_ok.1 h
      unfold FilterEnv.collectionComparison at h
      rw [literalForFieldType_of_not _ _ hn] at h
      obtain ⟨t, ht, h⟩ := Failing.bind_eq_ok.1 h
      have hd : isEach (refCondition E.rt (.sqlRef ref.sql ref.isJson ref.type) ref.sql o n t true) =
          false := (form_refCondition E.rt true rfl).isEach_eq_false
      refine ⟨t, _, ht, hd, fun n' hn' => ?_⟩
      rw [quantifyOn_false, quantify_collectionLeft hn', href]
      exact h
  · exact absurd hk hother

/-- Next to an operand of the record, both have their arrays looked up first. -/
theorem exists_own (hn : n.isLiteral = false) (htype : n.fieldType = none)
    (hown : kind n = .each ∨ kind n = .scalar) (hother : kind other = .each ∨ kind other = .scalar)
    (h : compareOn E left n o other = .ok item) : ∃ a b, E.extractEachOperand n = .ok a ∧
      E.extractEachOperand other = .ok b ∧
      (if left then compareOwn E n o other a b else compareOwn E other o n b a) = .ok item := by
  rw [compareOn_eq hn htype] at h
  cases left with
  | true =>
    rw [if_pos rfl, compareNodes_own hown hother] at h
    obtain ⟨a, ha, h⟩ := Failing.bind_eq_ok.1 h
    obtain ⟨b, hb, h⟩ := Failing.bind_eq_ok.1 h
    exact ⟨a, b, ha, hb, h⟩
  | false =>
    rw [if_neg Bool.false_ne_true, compareNodes_own hother hown] at h
    obtain ⟨b, hb, h⟩ := Failing.bind_eq_ok.1 h
    obtain ⟨a, ha, h⟩ := Failing.bind_eq_ok.1 h
    exact ⟨a, b, ha, hb, h⟩

/-- An operand of an accepted comparison is written as something. -/
theorem exists_operandToSql (hk : kind n = .scalar) (hn : n.isLiteral = false)
    (htype : n.fieldType = none) (h : compareOn E left n o other = .ok item) :
    ∃ t, E.operandToSql n = .ok t := by
  by_cases hother : kind other = .each ∨ kind other = .scalar
  · obtain ⟨a, b, ha, hb, h⟩ := exists_own hn htype (Or.inr hk) hother h
    obtain rfl := Except.ok.inj (ha.symm.trans (extractEachOperand_scalar hk))
    cases left with
    | true =>
      rw [if_pos rfl] at h
      cases b with
      | some b =>
        obtain ⟨c, hc, -⟩ := Failing.map_eq_ok.1 h
        obtain ⟨t, ht, -⟩ := Failing.bind_eq_ok.1 hc
        exact ⟨t, ht⟩
      | none =>
        obtain ⟨c, hc, -⟩ := Failing.map_eq_ok.1 h
        obtain ⟨t, ht, -⟩ := Failing.bind_eq_ok.1 hc
        exact ⟨t, ht⟩
    | false =>
      rw [if_neg Bool.false_ne_true] at h
      cases b with
      | some b =>
        obtain ⟨c, hc, -⟩ := Failing.map_eq_ok.1 h
        obtain ⟨t, ht, -⟩ := Failing.bind_eq_ok.1 hc
        exact ⟨t, ht⟩
      | none =>
        obtain ⟨c, hc, -⟩ := Failing.map_eq_ok.1 h
        obtain ⟨lt, -, hr⟩ := Failing.bind_eq_ok.1 hc
        obtain ⟨t, ht, -⟩ := Failing.bind_eq_ok.1 hr
        exact ⟨t, ht⟩
  · obtain ⟨t, -, ht, -⟩ := exists_far hn htype (Or.inr hk) hother h
    exact ⟨t, ht⟩

/-- An array is compared item by item with an operand that has none. -/
theorem each_own {a : Term} (hn : n.isLiteral = false) (htype : n.fieldType = none)
    (ha : E.extractEachOperand n = .ok (some a)) (hother : kind other = .each ∨ kind other =
        .scalar)
    (h : compareOn E left n o other = .ok item) : kind other = .scalar ∧
      ∃ c, E.eachItemCondition o other left = .ok c ∧ item = .sql (.each a c) := by
  have hk : kind n = .each := (extractEachOperand_eq_ok ha).2 rfl
  obtain ⟨a', b, ha', hb, h⟩ := exists_own hn htype (Or.inl hk) hother h
  obtain rfl := Except.ok.inj (ha.symm.trans ha')
  cases b with
  | some b => cases left <;> cases h
  | none =>
    refine ⟨hother.resolve_left fun hk => Bool.false_ne_true ((extractEachOperand_eq_ok hb).1 hk),
      ?_⟩
    cases left with
    | true =>
      obtain ⟨c, hc, rfl⟩ := Failing.map_eq_ok.1 h
      exact ⟨c, hc, rfl⟩
    | false =>
      obtain ⟨c, hc, rfl⟩ := Failing.map_eq_ok.1 h
      exact ⟨c, hc, rfl⟩

theorem quantifyOn_scalar (hn : kind n = .scalar) (hother : kind other = .scalar) :
    quantifyOn E left n other c = .ok (.sql c) := by
  cases left with
  | true =>
    rw [quantifyOn_true, quantify_own (Or.inr hn) (Or.inr hother), extractEachOperand_scalar hn,
      extractEachOperand_scalar hother]
    rfl
  | false =>
    rw [quantifyOn_false, quantify_own (Or.inr hother) (Or.inr hn), extractEachOperand_scalar hn,
      extractEachOperand_scalar hother]
    rfl

/-! ## What the compiler keeps -/

theorem colon_notMem_of_fieldExpr (h : E.fieldExpr name = .ok t) : ':' ∉ name := by
  unfold FilterEnv.fieldExpr at h
  split at h
  · cases h
  · rename_i hfind
    intro hmem
    exact List.find?_eq_none.1 hfind ':' hmem (by decide)

theorem operandToSql_fieldModifier (h : E.operandToSql (.fieldModifier name m) = .ok t) :
    ∃ u, E.fieldExpr name = .ok u ∧ stored m u (E.dataValue? name) = some t := by
  unfold FilterEnv.operandToSql FilterEnv.resolveFieldModifier at h
  obtain ⟨u, hu, h⟩ := Failing.bind_eq_ok.1 h
  refine ⟨u, hu, ?_⟩
  unfold stored
  cases m with
  | isset | length | lower => exact congrArg some (Except.ok.inj h)
  | changed =>
    dsimp only at h ⊢
    cases hv : E.dataValue? name <;> rw [hv] at h <;> exact congrArg some (Except.ok.inj h)
  | each => cases h

/-- A path that is traversed drops its modifier. -/
theorem not_means_of_traversed (ht : Traversed n) (h : compareOn E left n o other = .ok item) :
    ¬Means E left n m o other item := by
  unfold Means
  split_ifs with hm
  · rintro ⟨a, c, -, -, hc⟩
    cases ht with
    | json hsql =>
      obtain ⟨d, hd, hform⟩ := exists_form h
      obtain rfl := quantifyOn_injective hd hc
      cases hform.isEach_eq_false
    | @relation steps sql isJson type hsql =>
      by_cases hother : kind other = .relation
      · obtain ⟨x, hx⟩ := exists_pair hother h
        have heq := quantifyOn_injective (hx isJson type sql) hc
        cases left <;> cases heq
      · obtain ⟨d, rfl, hform⟩ := exists_form_relation hother h
        have hq : quantifyOn E left (.relationRef steps sql isJson type) other d =
            .ok (E.relationConditionForSteps steps d) := by
          cases left with
          | true => exact quantify_relationLeft hother
          | false => exact quantify_relationRight hother
        obtain rfl := quantifyOn_injective hq hc
        cases hform.isEach_eq_false
  · rintro ⟨t, ht', h'⟩
    cases ht with
    | json hsql =>
      obtain ⟨payload, hst⟩ := ht'
      exact ne_stored hsql hst (term_of_compareOn h h')
    | relation hsql =>
      obtain ⟨payload, hst⟩ := ht'
      exact ne_stored hsql hst (term_of_compareOn_relation h h')

/-- A field keeps its modifier. -/
theorem means_of_field (h : compareOn E left (.fieldModifier name m) o other = .ok item) :
    Means E left (.field name type) m o other item := by
  by_cases hm : m = .each
  · subst hm
    unfold Means
    rw [if_pos rfl]
    by_cases hother : kind other = .each ∨ kind other = .scalar
    · obtain ⟨a, b, ha, -, -⟩ := exists_own rfl rfl (Or.inl rfl) hother h
      obtain ⟨u, hu, rfl⟩ := Failing.map_eq_ok.1 ha
      obtain ⟨hk, c, hc, rfl⟩ := each_own rfl rfl ha hother h
      refine ⟨u, c, ?_, fun _ => hc, quantifyOn_scalar rfl hk⟩
      show (E.fieldExpr name).toOption = some u
      rw [hu]
      rfl
    · obtain ⟨t, d, ht, -⟩ := exists_far rfl rfl (Or.inl rfl) hother h
      obtain ⟨u, -, hu⟩ := operandToSql_fieldModifier ht
      cases hu
  · unfold Means
    rw [if_neg hm]
    have hk : kind (.fieldModifier name m) = .scalar := by
      cases m <;> first | rfl | exact absurd rfl hm
    obtain ⟨t, ht⟩ := exists_operandToSql hk rfl rfl h
    exact ⟨t, operandToSql_fieldModifier ht,
      (compareOn_reads (reads_fieldModifier hm ht)).symm.trans h⟩

/-- A name with a mark left in it is refused. -/
theorem colon_notMem_of_compareOn (h : compareOn E left (.fieldModifier name m) o other =
    .ok item) :
    ':' ∉ name := by
  by_cases hm : m = .each
  · subst hm
    by_cases hother : kind other = .each ∨ kind other = .scalar
    · obtain ⟨a, b, ha, -, -⟩ := exists_own rfl rfl (Or.inl rfl) hother h
      obtain ⟨u, hu, -⟩ := Failing.map_eq_ok.1 ha
      exact colon_notMem_of_fieldExpr hu
    · obtain ⟨t, d, ht, -⟩ := exists_far rfl rfl (Or.inl rfl) hother h
      obtain ⟨u, -, hu⟩ := operandToSql_fieldModifier ht
      cases hu
  · have hk : kind (.fieldModifier name m) = .scalar := by
      cases m <;> first | rfl | exact absurd rfl hm
    obtain ⟨t, ht⟩ := exists_operandToSql hk rfl rfl h
    obtain ⟨u, hu, -⟩ := operandToSql_fieldModifier ht
    exact colon_notMem_of_fieldExpr hu

theorem posted_column (hm : m ≠ .changed) (run : Runtime) (u t : Term) (v : Option Value) :
    posted run m u v = posted run m t v := by
  cases m with
  | changed => exact absurd rfl hm
  | isset | length | each | lower => rfl

theorem kind_bodyField (h : bodyField? b = some f) : kind (.macroName b) = .scalar := by
  have hscalar : isEachMacro b = false := by
    unfold bodyField? at h
    unfold isEachMacro
    cases hb : FilterEnv.bodyMacro? (b.dropWhile (· = '@')) with
    | none => rfl
    | some g =>
      rw [hb] at h
      dsimp only at h ⊢
      split_ifs at h with hplain
      refine decide_eq_false fun heach => hplain (Or.inr ?_)
      rw [heach]
      exact Option.some_ne_none _
  unfold kind
  dsimp only
  rw [hscalar]
  rfl

/-- A macro that is not of the body does not keep a modifier. -/
theorem not_means_other (hE : Unmarked E) (hm : splitModifier name = (b, some m))
    (hf : bodyField? b = none) (h : compareOn E left (.macroName name) o other = .ok item) :
    ¬Means E left (.macroName b) m o other item := by
  unfold Means
  split_ifs with heach
  · rintro ⟨a, c, ha, -⟩
    unfold arrayOf at ha
    dsimp only at ha
    rw [hf] at ha
    cases ha
  · rintro ⟨t, ht, h'⟩
    unfold Expression at ht
    dsimp only at ht
    rw [hf] at ht
    obtain ⟨hchanged, u, -, hst⟩ := ht
    have hk := kind_macroName hm heach
    obtain ⟨τ, hτ⟩ := exists_operandToSql hk rfl rfl h
    obtain ⟨v, rfl⟩ := operandToSql_other hE hm hchanged hτ
    have heq := term_of_compareOn ((compareOn_reads (reads_macroName hk hτ)).symm.trans h) h'
    subst heq
    cases m with
    | isset | length | lower | each => cases hst
    | changed => exact hchanged rfl

/-- A macro of the body for each of its values. -/
theorem means_body_each (hm : splitModifier name = (b, some .each)) (hf : bodyField? b = some f)
    (h : compareOn E left (.macroName name) o other = .ok item) :
    Means E left (.macroName b) .each o other item ↔ kind other = .scalar ∧
      FilterEnv.eachValues E.rt (denoted E b f) = FilterEnv.eachValues E.rt (E.dataValue? f) := by
  have ha := extractEachOperand_body (E := E) hm hf
  have hk : kind (.macroName name) = .each := (extractEachOperand_eq_ok ha).2 rfl
  have hkb := kind_bodyField hf
  have harray : arrayOf E (.macroName b) =
      some (.value (FilterEnv.eachValues E.rt (denoted E b f))) := by
    unfold arrayOf
    dsimp only
    rw [hf]
    rfl
  unfold Means
  rw [if_pos rfl, harray]
  by_cases hother : kind other = .each ∨ kind other = .scalar
  · obtain ⟨hs, c, hc, rfl⟩ := each_own rfl rfl ha hother h
    constructor
    · rintro ⟨a, d, ha', -, hd⟩
      obtain rfl := Option.some.inj ha'
      rw [quantifyOn_scalar hkb hs] at hd
      exact ⟨hs, Term.value.inj (Cond.each.inj (Item.sql.inj (Except.ok.inj hd))).1⟩
    · rintro ⟨-, hv⟩
      exact ⟨_, c, rfl, fun _ => hc, by rw [quantifyOn_scalar hkb hs, hv]⟩
  · refine iff_of_false ?_ fun hkeeps => hother (Or.inr hkeeps.1)
    rintro ⟨a, c, -, -, hc⟩
    obtain ⟨t, d, -, hd, hq⟩ := exists_far rfl rfl (Or.inl hk) hother h
    obtain rfl := quantifyOn_injective (hq _ (Or.inr hkb)) hc
    cases hd

/-- The value of a macro of the body with a modifier. -/
theorem means_body (hE : Unmarked E) (hm : splitModifier name = (b, some m)) (heach : m ≠ .each)
    (hf : bodyField? b = some f) (h : compareOn E left (.macroName name) o other = .ok item) :
    Means E left (.macroName b) m o other item ↔
      ∃ column, IsColumn E o other left f column ∧ posted E.rt m column (denoted E b f) =
        posted E.rt m (.column none f) (E.ctx.data.get? f) := by
  have hk := kind_macroName hm heach
  obtain ⟨τ, hτ⟩ := exists_operandToSql hk rfl rfl h
  have hposted := operandToSql_body hE hm hf heach hτ
  have hsql := (compareOn_reads (reads_macroName hk hτ)).symm.trans h
  unfold Means Expression
  rw [if_neg heach, hposted]
  dsimp only
  rw [hf]
  constructor
  · rintro ⟨t, ⟨column, hcolumn, ht⟩, h'⟩
    rw [term_of_compareOn hsql h']
    exact ⟨column, hcolumn, ht⟩
  · rintro ⟨column, hcolumn, ht⟩
    exact ⟨τ, ⟨column, hcolumn, ht⟩, hsql⟩

/-- The change of a field is tested with an unqualified column. -/
theorem posted_changed_iff {run : Runtime} {v w : Option Value} :
    (∃ column, IsColumn E o other left f column ∧
      posted run .changed column v = posted run .changed (.column none f) w) ↔
      v = w ∧ (w.isSome = true → Visible o other left f) := by
  cases w with
  | none =>
    cases v with
    | none => exact iff_of_true ⟨_, Or.inl rfl, rfl⟩ ⟨rfl, nofun⟩
    | some v =>
      refine iff_of_false ?_ nofun
      rintro ⟨column, -, hp⟩
      cases Option.some.inj hp
  | some w =>
    cases v with
    | none =>
      refine iff_of_false ?_ nofun
      rintro ⟨column, -, hp⟩
      cases Option.some.inj hp
    | some v =>
      constructor
      · rintro ⟨column, hcolumn, hp⟩
        obtain ⟨rfl, rfl⟩ := Term.changed.inj (Option.some.inj hp)
        refine ⟨rfl, fun _ => ?_⟩
        rcases hcolumn with hcolumn | ⟨-, hvisible⟩
        · cases hcolumn
        · exact hvisible
      · rintro ⟨hv, hvisible⟩
        exact ⟨_, Or.inr ⟨rfl, hvisible rfl⟩, by rw [hv]⟩

theorem means_macro_iff (hE : Unmarked E) (hm : splitModifier name = (b, some m))
    (h : compareOn E left (.macroName name) o other = .ok item) :
    Means E left (.macroName b) m o other item ↔ Keeps E left (.macroName b) m o other := by
  cases hf : bodyField? b with
  | none =>
    refine iff_of_false (not_means_other hE hm hf h) fun hkeeps => ?_
    unfold Keeps at hkeeps
    dsimp only at hkeeps
    rw [hf] at hkeeps
    exact hkeeps
  | some f =>
    unfold Keeps
    dsimp only
    rw [hf]
    by_cases heach : m = .each
    · subst heach
      exact means_body_each hm hf h
    rw [means_body hE hm heach hf h]
    by_cases hchanged : m = .changed
    · subst hchanged
      exact posted_changed_iff
    · have hcolumn : IsColumn E o other left f (.column (some E.table) f) := Or.inl rfl
      have hiff : (∃ column, IsColumn E o other left f column ∧
          posted E.rt m column (denoted E b f) =
          posted E.rt m (.column none f) (E.ctx.data.get? f)) ↔
          posted E.rt m (.column none f) (denoted E b f) =
            posted E.rt m (.column none f) (E.ctx.data.get? f) := by
        constructor
        · rintro ⟨column, -, hp⟩
          rwa [posted_column hchanged _ column (.column none f)] at hp
        · intro hp
          exact ⟨_, hcolumn, by rwa [posted_column hchanged _ _ (.column none f)]⟩
      rw [hiff]
      cases m with
      | each => exact absurd rfl heach
      | changed => exact absurd rfl hchanged
      | isset | length | lower => exact Iff.rfl

/-- An operand keeps its modifier exactly if it is one of `Keeps`. -/
theorem means_iff (hE : Unmarked E) (hmod : Modified m n n₀)
    (h : compareOn E left n o other = .ok item) :
    Means E left n₀ m o other item ↔ Keeps E left n₀ m o other := by
  cases hmod with
  | macroName hm => exact means_macro_iff hE hm h
  | traversed ht =>
    refine iff_of_false (not_means_of_traversed ht h) ?_
    cases ht <;> exact not_false
  | field => exact iff_of_true (means_of_field h) trivial
  | refused hmark => exact absurd hmark (colon_notMem_of_compareOn h)
  | keyword hkey =>
    have hnot : ¬Means E left n₀ m o other item := by
      unfold Means
      rcases hkey with ⟨v, rfl⟩ | rfl <;> split_ifs
      · rintro ⟨a, c, ha, -⟩
        cases ha
      · rintro ⟨t, ht, -⟩
        exact ht
      · rintro ⟨a, c, ha, -⟩
        cases ha
      · rintro ⟨t, ht, -⟩
        exact ht
    refine iff_of_false hnot ?_
    rcases hkey with ⟨v, rfl⟩ | rfl <;> exact not_false

/-- The operand on a side of a comparison. -/
def sideOf {α : Type} (left : Bool) (l r : α) : α := if left then l else r

/-- Every operand of an accepted filter that ends in a modifier keeps it, exactly if it is one of
`Keeps`. -/
theorem modifiers_kept_iff {s : Text} {k : Cond} {e : Expr} (hE : Unmarked E)
    (h : parseFilter E s = .ok k) (he : parseText s = some e) :
    ∀ x ∈ exprComparisons e, ∃ l r item, Compiled E x l r item ∧
      ∀ (left : Bool) (base : Operand) (m : Modifier) (n₀ : Node),
        bare? (sideOf left x.left x.right) = some (base, m) → E.operandNode base = .ok n₀ →
          (Means E left n₀ m x.op (sideOf left r l) item ↔
            Keeps E left n₀ m x.op (sideOf left r l)) := by
  intro x hx
  rcases parseFilter_eq_ok h with hblank | ⟨-, e', he', hk⟩
  · rw [parseText_blank hblank] at he
    cases he
  rw [he] at he'
  obtain rfl := Option.some.inj he'
  obtain ⟨l, r, item, hl, hr, hitem⟩ := compiled_of_compileExpr hk x hx
  refine ⟨l, r, item, ⟨hl, hr, hitem⟩, fun left base m n₀ hb hn₀ => ?_⟩
  cases left with
  | true => exact means_iff hE (modified_of_operandNode hb hl hn₀) hitem
  | false => exact means_iff hE (modified_of_operandNode hb hr hn₀) hitem

end

/-! ## Two filters -/

/-- `title:lower` -/
def titleOperand : Operand := .fieldPath ⟨"title:lower", [], fun _ => by decide⟩

/-- `title:lower = 'x'` -/
def titleLower : Comparison := ⟨titleOperand, .eq, .string "'x'"⟩

theorem unmarked_postsEnv : Unmarked postsEnv := nofun

theorem title_lower_kept : ∃ k, parseFilter postsEnv "title:lower = 'x'" = .ok k ∧
    ∃ l r item, Compiled postsEnv titleLower l r item ∧
      ∀ (left : Bool) (base : Operand) (m : Modifier) (n₀ : Node),
        bare? (sideOf left titleLower.left titleLower.right) = some (base, m) →
          postsEnv.operandNode base = .ok n₀ →
            (Means postsEnv left n₀ m .eq (sideOf left r l) item ↔
              Keeps postsEnv left n₀ m .eq (sideOf left r l)) := by
  have hok : (parseFilter postsEnv "title:lower = 'x'").isOk = true := by decide +kernel
  have hparse : parseText "title:lower = 'x'" = some (.one (.one (.comparison titleLower))) :=
    parseText_eq_some.2 (by decide +kernel)
  cases h : parseFilter postsEnv "title:lower = 'x'" with
  | error e =>
    rw [h] at hok
    cases hok
  | ok k =>
    exact ⟨k, rfl,
      modifiers_kept_iff unmarked_postsEnv h hparse titleLower (List.mem_singleton.2 rfl)⟩

/-- Posts with an author. -/
def authoredEnv : FilterEnv where
  rt := .simple
  ctx := {}
  relations := {
    collections := [
      ("posts", ⟨[("author", .relation)], [("author", ⟨.forward, "author", "users", 1⟩)]⟩),
      ("users", ⟨[("name", .text)], []⟩)] }
  collections := none
  table := "posts"

/-- `author.name:lower` -/
def authorOperand : Operand := .fieldPath ⟨"author", ["name:lower"], nofun⟩

/-- `author.name:lower = 'x'` -/
def authorLower : Comparison := ⟨authorOperand, .eq, .string "'x'"⟩

def authorName : Node := .relationRef [⟨"author", ⟨.forward, "author", "users", 1⟩⟩]
  (.column (some "users") "name") false (some .text)

/-- A relation path is compared without its modifier. -/
theorem relation_modifier_dropped :
    authoredEnv.operandNode authorOperand =
      authoredEnv.operandNode (.fieldPath ⟨"author", ["name"], nofun⟩) ∧
    ¬∀ s k e, parseFilter authoredEnv s = .ok k → parseText s = some e → ∀ x ∈ exprComparisons e,
      ∃ l r item, Compiled authoredEnv x l r item ∧
        ∀ (left : Bool) (base : Operand) (m : Modifier) (n₀ : Node),
          bare? (sideOf left x.left x.right) = some (base, m) → authoredEnv.operandNode base =
            .ok n₀ →
            Means authoredEnv left n₀ m x.op (sideOf left r l) item := by
  refine ⟨rfl, fun h => ?_⟩
  have hok : (parseFilter authoredEnv "author.name:lower = 'x'").isOk = true := by decide +kernel
  have hparse : parseText "author.name:lower = 'x'" =
      some (.one (.one (.comparison authorLower))) := parseText_eq_some.2 (by decide +kernel)
  cases hk : parseFilter authoredEnv "author.name:lower = 'x'" with
  | error e =>
    rw [hk] at hok
    cases hok
  | ok k =>
    obtain ⟨l, r, item, ⟨hl, hr, hitem⟩, hmeans⟩ :=
      h _ _ _ hk hparse authorLower (List.mem_singleton.2 rfl)
    have hbare : bare? authorLower.left =
        some (.fieldPath ⟨"author", ["name"], nofun⟩, .lower) := by decide
    have hn₀ : authoredEnv.operandNode (.fieldPath ⟨"author", ["name"], nofun⟩) = .ok authorName :=
      rfl
    have hmod := modified_of_operandNode hbare hl hn₀
    have hcompare : compareOn authoredEnv true l .eq r = .ok item := hitem
    have hE : Unmarked authoredEnv := nofun
    exact (means_iff hE hmod hcompare).1 (hmeans true _ _ _ hbare hn₀)

end Modifiers

end PPBase
