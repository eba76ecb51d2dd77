import PPBase.Rules

/-!
# What a compiled filter depends on

Two environments of one table compile a filter alike if they look its operands up alike
(`compileExpr_congr`). That covers two changes. The resolvers are chosen from the whole text a
filter stands in : `compileExpr_reread` says that the result only depends on the macros of the
filter's own operands, the types of its own fields, and the index only if it has a dotted path
or an `@collection` reference. And the context and the headers of the request only matter to a
filter that mentions them (`compileExpr_relabel`).
-/

namespace PPBase

open Sql

/-- The two environments compile the filters of one table. -/
structure FilterEnv.OneTable (E E' : FilterEnv) : Prop where
  rt : E'.rt = E.rt
  table : E'.table = E.table

/-- The two environments make the same of the node. -/
structure Node.Alike (E E' : FilterEnv) (n : Node) : Prop where
  sql : E'.operandToSql n = E.operandToSql n
  each : E'.extractEachOperand n = E.extractEachOperand n
  collection : ∀ coll path key, n = .collectionRef coll path key →
    E'.resolveCollectionRef coll path key = E.resolveCollectionRef coll path key

/-- The two environments make the same of the operand. -/
structure Operand.Alike (E E' : FilterEnv) (o : Operand) : Prop where
  node : E'.operandNode o = E.operandNode o
  alike : ∀ n, E.operandNode o = .ok n → n.Alike E E'

section

variable {E E' : FilterEnv} (hE : E.OneTable E') {l r n : Node}

theorem literalForFieldType_alike (h : n.Alike E E') (rt : Runtime) (t : Option FieldType) :
    (literalForFieldType rt n t).Alike E E' := by
  unfold literalForFieldType
  repeat' split
  all_goals first
    | exact h
    | exact ⟨rfl, rfl, nofun⟩

include hE

theorem eachItemCondition_congr (h : n.Alike E E') (o : Operator) (left : Bool) :
    E'.eachItemCondition o n left = E.eachItemCondition o n left := by
  unfold FilterEnv.eachItemCondition
  rw [h.sql, hE.rt]

theorem regularComparison_congr (hl : l.Alike E E') (hr : r.Alike E E') (o : Operator) :
    E'.regularComparison l o r = E.regularComparison l o r := by
  unfold FilterEnv.regularComparison
  rw [hl.sql, hr.sql, hE.rt]

theorem relationComparison_congr (h : n.Alike E E') (steps : List Step) (ref : Node) (t : Term)
    (o : Operator) (left : Bool) :
    E'.relationComparison steps ref t o n left = E.relationComparison steps ref t o n left := by
  unfold FilterEnv.relationComparison FilterEnv.relationConditionForSteps
  rw [h.sql, hE.rt, hE.table]

theorem relationPairComparison_congr (ls : List Step) (lt : Term) (o : Operator) (rs : List Step)
    (rt : Term) : E'.relationPairComparison ls lt o rs rt = E.relationPairComparison ls lt o rs rt := by
  unfold FilterEnv.relationPairComparison
  rw [hE.table]

theorem collectionComparison_congr (h : n.Alike E E') (ref : CollectionRef) (o : Operator)
    (left : Bool) : E'.collectionComparison ref o n left = E.collectionComparison ref o n left := by
  unfold FilterEnv.collectionComparison
  dsimp only
  rw [hE.rt, (literalForFieldType_alike h E.rt ref.type).sql]

theorem compareNodes_congr (hl : l.Alike E E') (hr : r.Alike E E') (o : Operator) :
    E'.compareNodes l o r = E.compareNodes l o r := by
  cases l <;> cases r <;>
    simp only [FilterEnv.compareNodes, relationPairComparison_congr hE,
      relationComparison_congr hE hl, relationComparison_congr hE hr, hl.each, hr.each,
      eachItemCondition_congr hE hl, eachItemCondition_congr hE hr,
      regularComparison_congr hE hl hr, collectionComparison_congr hE hl,
      collectionComparison_congr hE hr, hl.collection, hr.collection]

theorem comparison_congr (hl : l.Alike E E') (hr : r.Alike E E') (o : Operator) :
    E'.comparison l o r = E.comparison l o r := by
  have hcoerced : (coerceLiterals E.rt l r).1.Alike E E' ∧ (coerceLiterals E.rt l r).2.Alike E E' := by
    unfold coerceLiterals
    dsimp only
    constructor
    · split_ifs
      · exact literalForFieldType_alike hl _ _
      · exact hl
    · split_ifs
      · exact literalForFieldType_alike hr _ _
      · exact hr
  unfold FilterEnv.comparison
  rw [hE.rt, compareNodes_congr hE hl hr, compareNodes_congr hE hcoerced.1 hcoerced.2]

end

section

variable {E E' : FilterEnv}

mutual

/-- The compiled expression depends on what its operands look up. -/
theorem compileExpr_congr (hE : E.OneTable E') : ∀ {e : Expr}, (∀ o ∈ e.operands, o.Alike E E') →
    compileExpr E' e = compileExpr E e
  | .one k, h => by
    rw [compileExpr, compileExpr, conjItems_congr hE h]
  | .or k e, h => by
    simp only [Expr.operands, List.mem_append] at h
    rw [compileExpr, compileExpr, conjItems_congr hE fun o ho => h o (Or.inl ho),
      compileExpr_congr hE fun o ho => h o (Or.inr ho)]

theorem conjItems_congr (hE : E.OneTable E') : ∀ {k : Conj}, (∀ o ∈ k.operands, o.Alike E E') →
    conjItems E' k = conjItems E k
  | .one t, h => by
    rw [conjItems, conjItems, atomItem_congr hE h]
  | .and t k, h => by
    simp only [Conj.operands, List.mem_append] at h
    rw [conjItems, conjItems, atomItem_congr hE fun o ho => h o (Or.inl ho),
      conjItems_congr hE fun o ho => h o (Or.inr ho)]

theorem atomItem_congr (hE : E.OneTable E') : ∀ {t : Atom}, (∀ o ∈ t.operands, o.Alike E E') →
    atomItem E' t = atomItem E t
  | .comparison k, h => by
    have hl := h k.left (by simp [Atom.operands])
    have hr := h k.right (by simp [Atom.operands])
    rw [atomItem, atomItem, hl.node, hr.node]
    cases hnl : E.operandNode k.left with
    | error err => rfl
    | ok nl =>
      cases hnr : E.operandNode k.right with
      | error err => rfl
      | ok nr =>
        simp only [bind, Except.bind]
        exact comparison_congr hE (hl.alike nl hnl) (hr.alike nr hnr) k.op
  | .paren e, h => by
    rw [atomItem, atomItem, compileExpr_congr hE h]

end

end

/-! ## The nodes of operands -/

section

variable {E : FilterEnv}

/-- A macro operand becomes itself or a collection reference. -/
theorem macroNode_macroName {m n : Text} (h : FilterEnv.macroNode m = .ok (.macroName n)) : m = n := by
  unfold FilterEnv.macroNode at h
  dsimp only at h
  split_ifs at h
  · exfalso
    split at h
    · split_ifs at h <;> simp [bind, Except.bind, pure, Except.pure] at h <;>
        (repeat' split at h) <;> simp at h
    · cases h
  · cases h
    rfl

theorem fieldPath_ne {parts : List Text} {node : Node} (h : E.fieldPath parts = .ok node) :
    (∀ n, node ≠ .macroName n) ∧ ∀ coll path key, node ≠ .collectionRef coll path key := by
  simp only [FilterEnv.fieldPath, bind, Except.bind, pure, Except.pure, Functor.map,
    Except.map] at h
  cases node with
  | macroName _ | collectionRef _ _ _ =>
    exfalso
    repeat' split at h
    all_goals simp at h
  | _ => exact ⟨nofun, nofun⟩

/-- Only a macro operand becomes a macro. -/
theorem operandNode_macroName {o : Operand} {n : Text} (h : E.operandNode o = .ok (.macroName n)) :
    o = .macroName n := by
  cases o with
  | macroName m => rw [macroNode_macroName h]
  | fieldPath p => exact absurd rfl ((fieldPath_ne h).1 n)
  | number raw =>
    replace h : numberLiteral E.rt raw = .ok (.macroName n) := h
    unfold numberLiteral at h
    repeat' split at h
    all_goals cases h
  | _ => cases Except.ok.inj h

end

/-! ## Other look-ups -/

namespace FilterEnv

/-- The same environment with other look-ups. -/
def reread (E : FilterEnv) (resolved : Dict Text Value) (relations : RelationIndex)
    (collections : Option RelationIndex) : FilterEnv :=
  { E with ctx := { E.ctx with resolved := resolved }, relations, collections }

end FilterEnv

/-- `@collection.…` -/
def isCollectionMacro (name : Text) : Bool :=
  (Text.afterPrefix? "collection." (name.dropWhile (· = '@'))).isSome

/-- The two environments look the operand up alike. -/
def Operand.Agrees (E E' : FilterEnv) : Operand → Prop
  | .macroName n =>
    E'.ctx.resolved.get? (n.dropWhile (· = '@')) = E.ctx.resolved.get? (n.dropWhile (· = '@')) ∧
      (isCollectionMacro n = true → E'.collections = E.collections)
  | .fieldPath p =>
    E'.relations = E.relations ∨
      p.tail = [] ∧ ∀ f, E'.relations.fieldType? E.table f = E.relations.fieldType? E.table f
  | _ => True

/-- The two environments look the node up alike. -/
def Node.Agrees (E E' : FilterEnv) : Node → Prop
  | .macroName n =>
    E'.ctx.resolved.get? (n.dropWhile (· = '@')) = E.ctx.resolved.get? (n.dropWhile (· = '@'))
  | .collectionRef _ _ _ => E'.collections = E.collections
  | _ => True

section

variable {E : FilterEnv} {a : Dict Text Value} {b : RelationIndex} {c : Option RelationIndex}

theorem fieldPath_reread {p : FieldPath} (h : (Operand.fieldPath p).Agrees E (E.reread a b c)) :
    (E.reread a b c).fieldPath p.parts = E.fieldPath p.parts := by
  rcases h with h | ⟨htail, htype⟩
  · have hb : b = E.relations := h
    subst hb
    rfl
  · have hparts : p.parts = [p.head] := by rw [FieldPath.parts, htail]
    have hft : ∀ f, (E.reread a b c).fieldTypeForTable f = E.fieldTypeForTable f := by
      intro f
      unfold FilterEnv.fieldTypeForTable
      simp only [FilterEnv.reread] at htype ⊢
      simp only [htype]
    rw [hparts]
    simp [FilterEnv.fieldPath, hft]

theorem operandNode_reread {o : Operand} (h : o.Agrees E (E.reread a b c)) :
    (E.reread a b c).operandNode o = E.operandNode o := by
  cases o with
  | fieldPath p => exact fieldPath_reread h
  | _ => rfl

variable {node : Node}

theorem macroNode_agrees {n : Text} (h : (Operand.macroName n).Agrees E (E.reread a b c))
    (hn : FilterEnv.macroNode n = .ok node) : node.Agrees E (E.reread a b c) := by
  cases node with
  | macroName m =>
    obtain rfl := macroNode_macroName hn
    exact h.1
  | collectionRef _ _ _ =>
    refine h.2 ?_
    by_contra hc
    unfold FilterEnv.macroNode at hn
    dsimp only at hn
    rw [if_neg (show ¬(Text.afterPrefix? "collection." (n.dropWhile (· = '@'))).isSome = true from hc)]
      at hn
    cases hn
  | _ => trivial

theorem fieldPath_agrees {parts : List Text} (h : E.fieldPath parts = .ok node) :
    node.Agrees E (E.reread a b c) := by
  cases node with
  | macroName n => exact absurd rfl ((fieldPath_ne h).1 n)
  | collectionRef coll path key => exact absurd rfl ((fieldPath_ne h).2 coll path key)
  | _ => trivial

theorem numberLiteral_agrees {raw : Text} (h : numberLiteral E.rt raw = .ok node) :
    node.Agrees E (E.reread a b c) := by
  unfold numberLiteral at h
  repeat' split at h
  all_goals
    cases h
    try trivial

theorem operandNode_agrees {o : Operand} (h : o.Agrees E (E.reread a b c))
    (hn : E.operandNode o = .ok node) : node.Agrees E (E.reread a b c) := by
  cases o with
  | macroName n => exact macroNode_agrees h hn
  | fieldPath p => exact fieldPath_agrees hn
  | number raw => exact numberLiteral_agrees hn
  | _ =>
    obtain rfl := Except.ok.inj hn
    trivial

/-- The node is compiled alike. -/
theorem Node.Agrees.alike {n : Node} (h : n.Agrees E (E.reread a b c)) :
    n.Alike E (E.reread a b c) where
  sql := by
    cases n with
    | macroName name =>
      have hres : a.get? (name.dropWhile (· = '@')) = E.ctx.resolved.get? (name.dropWhile (· = '@')) := h
      simp only [FilterEnv.operandToSql, FilterEnv.resolveMacro]
      simp only [FilterEnv.reread, hres]
      rfl
    | _ => rfl
  each := by cases n <;> rfl
  collection := by
    rintro coll path key rfl
    obtain rfl : c = E.collections := h
    rfl

theorem Operand.Agrees.alike {o : Operand} (h : o.Agrees E (E.reread a b c)) :
    o.Alike E (E.reread a b c) :=
  ⟨operandNode_reread h, fun _ hn => (operandNode_agrees h hn).alike⟩

/-- The compiled expression depends on the macros, fields and references of its operands. -/
theorem compileExpr_reread {e : Expr} (h : ∀ o ∈ e.operands, o.Agrees E (E.reread a b c)) :
    compileExpr (E.reread a b c) e = compileExpr E e :=
  @compileExpr_congr E (E.reread a b c) ⟨rfl, rfl⟩ e fun o ho => (h o ho).alike

end

/-! ## Another request -/

namespace FilterEnv

/-- The same environment in another context, with other headers. -/
def relabel (E : FilterEnv) (context : Text) (headers : Dict Text Value) : FilterEnv :=
  { E with ctx := { E.ctx with context := context, headers := headers } }

end FilterEnv

/-- `@request.context` and `@request.headers.*`. -/
def Operand.ReadsRequest : Operand → Prop
  | .macroName n =>
    n.dropWhile (· = '@') = "request.context" ∨
      (Text.afterPrefix? "request.headers." (n.dropWhile (· = '@'))).isSome = true
  | _ => False

instance : DecidablePred Operand.ReadsRequest
  | .macroName _ => inferInstanceAs (Decidable (_ ∨ _))
  | .string _ | .number _ | .trueVal | .falseVal | .null | .fieldPath _ =>
    inferInstanceAs (Decidable False)

section

variable {E : FilterEnv} {context : Text} {headers : Dict Text Value}

theorem resolveMacro_relabel {name : Text} (hcontext : name ≠ "request.context".toList)
    (hheaders : Text.afterPrefix? "request.headers." name = none) :
    (E.relabel context headers).resolveMacro name = E.resolveMacro name := by
  unfold FilterEnv.resolveMacro
  rw [if_neg hcontext, if_neg hcontext, hheaders]
  rfl

theorem Operand.alike_relabel {o : Operand} (h : ¬o.ReadsRequest) :
    o.Alike E (E.relabel context headers) where
  node := by cases o <;> rfl
  alike := by
    intro n hn
    refine ⟨?_, by cases n <;> rfl, fun coll path key _ => rfl⟩
    cases n with
    | macroName name =>
      obtain rfl := operandNode_macroName hn
      obtain ⟨hcontext, hheaders⟩ := not_or.1 h
      exact resolveMacro_relabel hcontext (Option.not_isSome_iff_eq_none.1 hheaders)
    | _ => rfl

/-- A filter that mentions neither compiles alike for another request. -/
theorem compileExpr_relabel {e : Expr} (h : ∀ o ∈ e.operands, ¬o.ReadsRequest) :
    compileExpr (E.relabel context headers) e = compileExpr E e :=
  @compileExpr_congr E (E.relabel context headers) ⟨rfl, rfl⟩ e fun o ho => Operand.alike_relabel (h o ho)

/-- A rule that mentions `@request.context` or a header. -/
def MentionsRequest (rule : Text) : Prop :=
  ∃ e, parseText rule = some e ∧ ∃ o ∈ e.operands, o.ReadsRequest

theorem parseFilter_relabel {rule : Text} (h : ¬MentionsRequest rule) :
    parseFilter (E.relabel context headers) rule = parseFilter E rule := by
  unfold parseFilter
  cases hparse : parseText rule with
  | none => rfl
  | some e =>
    have hcompile : compileExpr (E.relabel context headers) e = compileExpr E e :=
      compileExpr_relabel fun o ho hreads => h ⟨e, hparse, o, ho, hreads⟩
    dsimp only
    rw [hcompile]
    rfl

theorem resolveRequestMacros_relabel (rt : Runtime) (db : Db) (c : Collection) (rule : Text)
    (ctx : RequestContext) :
    resolveRequestMacros rt db rule { ctx with context := context, headers := headers } c =
      { resolveRequestMacros rt db rule ctx c with context := context, headers := headers } := by
  unfold resolveRequestMacros
  generalize Macros.findAll rule = ms
  induction ms generalizing ctx with
  | nil => rfl
  | cons m ms ih =>
    have hstep : Macros.addResolved rt db c { ctx with context := context, headers := headers } m =
        { Macros.addResolved rt db c ctx m with context := context, headers := headers } := by
      have hresolve : Macros.resolve rt db { ctx with context := context, headers := headers } c m =
          Macros.resolve rt db ctx c m := by
        obtain ⟨source, path⟩ := m
        cases source <;> rfl
      unfold Macros.addResolved
      rw [hresolve]
      dsimp only
      split_ifs
      · rfl
      · cases Macros.resolve rt db ctx c m <;> rfl
    rw [List.foldl_cons, List.foldl_cons, hstep, ih]

/-- A rule that mentions neither is evaluated alike for another request. -/
theorem checkRecordRule_relabel {rt : Runtime} {pg : Pg} {db : Db} {c : Collection} {id rule : Text}
    (h : ¬MentionsRequest rule) (ctx : RequestContext) :
    checkRecordRule rt pg db c id rule { ctx with context := context, headers := headers } =
      checkRecordRule rt pg db c id rule ctx := by
  have henv : filterEnv rt db c { ctx with context := context, headers := headers } rule =
      (filterEnv rt db c ctx rule).relabel context headers := by
    unfold filterEnv
    rw [resolveRequestMacros_relabel]
    rfl
  unfold checkRecordRule
  rw [henv, parseFilter_relabel h]

end

end PPBase
