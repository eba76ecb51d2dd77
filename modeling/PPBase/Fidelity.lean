import PPBase.Failing
import PPBase.ListRule

/-!
# The operator of a comparison

`comparison` has a builder for each kind of operand, and each builder its own last branch.
`Applies` says, from the operator tables alone, which conditions apply an operator to two
terms, and `quantify` puts a condition under the rows and elements its operands range over.
`emits_iff` : what the builders give for two operands is a condition that applies the operator
to them, exactly if the combination is one the builders have a branch for (`supported`). The
others are compiled all the same : to an equality, to an order the other way round, or with
another operand.
-/

namespace PPBase

open Sql

namespace CompareOp

/-- The order read from right to left. -/
def converse : CompareOp → CompareOp
  | eq => eq
  | ne => ne
  | gt => lt
  | ge => le
  | lt => gt
  | le => ge

end CompareOp

namespace Operator

def isStandard (o : Operator) : Bool :=
  match o.opClass with
  | .standard _ => true
  | _ => false

def isLike (o : Operator) : Bool :=
  match o.opClass with
  | .like _ => true
  | _ => false

/-- `?>`, `?>=`, `?<` and `?<=`. -/
def isAnyOrder (o : Operator) : Bool :=
  match o.opClass with
  | .anyStandard .eq | .anyStandard .ne => false
  | .anyStandard _ => true
  | _ => false

end Operator

namespace Fidelity

/-! ## Conditions that apply an operator -/

/-- `''` or `NULL`. -/
def IsEmpty (t : Term) : Prop := t = .value .null ∨ t = .value (.text [])

/-- The emptiness rule of `_empty_equality_sql`. -/
def emptiness (negated : Bool) (t : Term) : Cond :=
  if negated then .and (.compare .ne (.text t) (.value (.text []))) (.notNull (.text t))
  else .or (.compare .eq (.text t) (.value (.text []))) (.isNull (.text t))

/-- What `LIKE` matches a text with : `%` around it, in the parameter or in the query. -/
inductive IsPattern (rt : Runtime) (t : Term) : Term → Prop
  | literal {v : Value} (h : t = .value v) :
      IsPattern rt t (.value (.text ('%' :: (rt.str v ++ ['%']))))
  | null (h : t = .value .null) : IsPattern rt t (.value .null)
  | term : IsPattern rt t (.pattern t)

/-- The condition applies the operator to the terms. Equality with something empty is
emptiness, and any-matching goes through the elements of the term on the left. -/
inductive Applies (rt : Runtime) (o : Operator) (l r : Term) : Cond → Prop
  | compare {op : CompareOp} (h : o.opClass = .standard op) : Applies rt o l r (.compare op l r)
  | null {op : CompareOp} {t : Term} (h : o.opClass = .standard op)
      (hnull : l = t ∧ r = .value .null ∨ l = .value .null ∧ r = t) :
      Applies rt o l r (nullComparison op t)
  | empty {negated : Bool} {t : Term} (h : o.opClass = .standard (if negated then .ne else .eq))
      (hempty : l = t ∧ IsEmpty r ∨ IsEmpty l ∧ r = t) : Applies rt o l r (emptiness negated t)
  | constant {negated : Bool} (h : o.opClass = .standard (if negated then .ne else .eq))
      (hl : IsEmpty l) (hr : IsEmpty r) : Applies rt o l r (if negated then .ff else .tt)
  | like {negated : Bool} {p : Term} (h : o.opClass = .like negated) (hp : IsPattern rt r p) :
      Applies rt o l r (.ilike negated (.text l) p)
  | anyEquality {op : CompareOp} (h : o.opClass = .anyStandard op) (hop : op = .eq ∨ op = .ne) :
      Applies rt o l r
        (.caseArray l (.compare op (.text r) elemValue) (.compare op (.text r) (.text l)))
  | anyOrder {op : CompareOp} (h : o.opClass = .anyStandard op) :
      Applies rt o l r (.any op.converse r l)
  | anyLike {negated : Bool} {p : Term} (h : o.opClass = .anyLike negated) (hp : IsPattern rt r p) :
      Applies rt o l r (.caseArray l (.ilike negated elemValue p) (.ilike negated (.text l) p))

/-! ## Operands -/

inductive OperandKind
  | relation | collection | each | scalar
  deriving DecidableEq

/-- A macro for each value of a field of the body. -/
def isEachMacro (name : Text) : Bool :=
  match FilterEnv.bodyMacro? (name.dropWhile (· = '@')) with
  | some f => (splitModifier f).2 = some .each
  | none => false

def kind : Node → OperandKind
  | .relationRef .. => .relation
  | .collectionRef .. => .collection
  | .fieldModifier _ .each => .each
  | .macroName name => if isEachMacro name then .each else .scalar
  | _ => .scalar

/-- The combinations the builders have a branch for. -/
def supported (o : Operator) : OperandKind → OperandKind → Bool
  | .relation, .relation | .collection, .collection => o.isStandard
  | .each, .scalar | .scalar, .each => o.isStandard || o.isLike
  | .relation, .scalar | .scalar, .relation | .collection, .scalar | .scalar, .collection
  | .scalar, .scalar => !o.isAnyOrder
  | _, _ => false

/-- The condition for each element of the array, if there is one. -/
def overElements (a b : Option Term) (c : Cond) : Cond :=
  match a, b with
  | some x, _ | none, some x => .each x c
  | none, none => c

section

variable (E : FilterEnv)

/-- The term an operand stands for, in the scope of its rows and elements. -/
def term (n : Node) : Except FilterError Term :=
  match n with
  | .relationRef _ t _ _ => .ok t
  | .collectionRef coll path key => (E.resolveCollectionRef coll path key).map CollectionRef.sql
  | n => do
    match ← E.extractEachOperand n with
    | some _ => return .column none "_elem"
    | none => E.operandToSql n

/-- The condition, for some rows and each element its operands range over. -/
def quantify (l r : Node) (c : Cond) : Except FilterError Item :=
  match l, r with
  | .relationRef [ls] _ _ _, .relationRef [rs] _ _ _ =>
    .ok (.sql (.existsIn [ls.info.table, rs.info.table]
      (.and (joinCondition ls E.table) (.and (joinCondition rs E.table) c))))
  | .relationRef ls _ _ _, _ => .ok (E.relationConditionForSteps ls c)
  | _, .relationRef rs _ _ _ => .ok (E.relationConditionForSteps rs c)
  | .collectionRef lc lp lk, .collectionRef rc rp rk => do
    let l ← E.resolveCollectionRef lc lp lk
    let r ← E.resolveCollectionRef rc rp rk
    let inner := wrapExists r.table r.steps (wrapExists l.table l.steps c)
    return if l.groupKey = r.groupKey then .collection l.table l.groupKey inner
      else .sql (.existsIn [l.table, r.table] inner)
  | .collectionRef lc lp lk, _ => do
    let l ← E.resolveCollectionRef lc lp lk
    return .collection l.table l.groupKey (wrapExists l.table l.steps c)
  | _, .collectionRef rc rp rk => do
    let r ← E.resolveCollectionRef rc rp rk
    return .collection r.table r.groupKey (wrapExists r.table r.steps c)
  | l, r => do
    let a ← E.extractEachOperand l
    let b ← E.extractEachOperand r
    return .sql (overElements a b c)

/-- The operand, or the literal it is read as next to a field of some type. -/
def ReadAs (n n' : Node) : Prop := ∃ type, n' = literalForFieldType E.rt n type

/-- The item is a comparison of the two operands with the operator. -/
def Emits (l : Node) (o : Operator) (r : Node) (item : Item) : Prop :=
  ∃ l' r' lt rt c, ReadAs E l l' ∧ ReadAs E r r' ∧ term E l' = .ok lt ∧ term E r' = .ok rt ∧
    Applies E.rt o lt rt c ∧ quantify E l' r' c = .ok item

end

/-! ## What the builders apply -/

/-- A term as an operand gives it. -/
structure Writes (n : Node) (t : Term) : Prop where
  literal : ∀ v, n = .literal v → t = .value v
  null : n = .null → t = .value .null

section

variable {E : FilterEnv} {n l r : Node} {t lt rt : Term} {o : Operator} {c d : Cond} {item : Item}

theorem writes_operandToSql (h : E.operandToSql n = .ok t) : Writes n t where
  literal := by
    rintro v rfl
    exact (Except.ok.inj h).symm
  null := by
    rintro rfl
    exact (Except.ok.inj h).symm

theorem isEmpty_of_writes (h : Writes n t) (hempty : n.isEmpty = true) : IsEmpty t := by
  unfold Node.isEmpty at hempty
  split at hempty
  · exact Or.inl (h.null rfl)
  · exact Or.inr (h.literal _ rfl)
  · cases hempty

theorem eq_null_of_writes (h : Writes n t) (hnull : n.isNull = true) : t = .value .null := by
  unfold Node.isNull at hnull
  split at hnull
  · exact h.null rfl
  · cases hnull

theorem isPattern_likePattern (rt : Runtime) (h : Writes n t) : IsPattern rt t (likePattern rt n t) := by
  unfold likePattern
  split
  · exact .literal (h.literal _ rfl)
  · exact .null (h.null rfl)
  · exact .term

variable {op : CompareOp} {run : Runtime} {j : Bool} {y : Option FieldType} {coll key : Text}
  {path : List Text}

/-- The emptiness rule, where it applies. -/
theorem of_emptyEqualitySql (h : emptyEqualitySql op l lt r rt = some c) :
    ∃ negated : Bool, op = (if negated then .ne else .eq) ∧
      (l.isEmpty = true ∧ r.isEmpty = true ∧ c = (if negated then .ff else .tt) ∨
        l.isEmpty = true ∧ c = emptiness negated rt ∨
        r.isEmpty = true ∧ c = emptiness negated lt) := by
  unfold emptyEqualitySql at h
  by_cases hop : op ≠ .eq ∧ op ≠ .ne
  · rw [if_pos hop] at h
    cases h
  have hneg : ∃ negated : Bool, op = (if negated then .ne else .eq) := by
    by_cases heq : op = .eq
    · exact ⟨false, heq⟩
    · exact ⟨true, not_not.1 fun hne => hop ⟨heq, hne⟩⟩
  obtain ⟨negated, rfl⟩ := hneg
  refine ⟨negated, rfl, ?_⟩
  rw [if_neg hop] at h
  by_cases hl : l.isEmpty = true <;> by_cases hr : r.isEmpty = true <;>
    simp only [hl, hr, Bool.not_true, Bool.not_false, Bool.and_true, Bool.and_false,
      Bool.false_eq_true, if_true, if_false] at h
  · cases negated <;> exact Or.inl ⟨hl, hr, (Option.some.inj h).symm⟩
  · refine Or.inr (Or.inl ⟨hl, ?_⟩)
    split_ifs at h <;> cases negated <;> first | contradiction | exact (Option.some.inj h).symm
  · refine Or.inr (Or.inr ⟨hr, ?_⟩)
    split_ifs at h <;> cases negated <;> first | contradiction | exact (Option.some.inj h).symm
  · cases h

theorem applies_emptyEqualitySql (ho : o.opClass = .standard op) (hl : Writes l lt)
    (hr : Writes r rt) (h : emptyEqualitySql op l lt r rt = some c) : Applies run o lt rt c := by
  obtain ⟨negated, rfl, ⟨hle, hre, rfl⟩ | ⟨hle, rfl⟩ | ⟨hre, rfl⟩⟩ := of_emptyEqualitySql h
  · exact .constant ho (isEmpty_of_writes hl hle) (isEmpty_of_writes hr hre)
  · exact .empty ho (Or.inr ⟨isEmpty_of_writes hl hle, rfl⟩)
  · exact .empty ho (Or.inl ⟨rfl, isEmpty_of_writes hr hre⟩)

/-- The operand is the column of a path, and no operand of its own. -/
structure Plain (n : Node) : Prop where
  notEmpty : n.isEmpty = false
  notNull : n.isNull = false

/-- An operator applied to a column and an operand, on the sides they stand. -/
theorem applies_refCondition (left : Bool) (hn : Plain n) (hr : Writes r rt)
    (ho : o.isAnyOrder = false) :
    Applies run o (if left then t else rt) (if left then rt else t)
      (refCondition run n t o r rt left) := by
  unfold refCondition
  cases hclass : o.opClass with
  | standard op =>
    dsimp only
    cases hempty : emptyEqualitySql op n t r rt with
    | some c =>
      obtain ⟨negated, rfl, ⟨hne, -, -⟩ | ⟨hne, -⟩ | ⟨hre, rfl⟩⟩ := of_emptyEqualitySql hempty
      · exact absurd (hn.notEmpty.symm.trans hne) Bool.false_ne_true
      · exact absurd (hn.notEmpty.symm.trans hne) Bool.false_ne_true
      · cases left
        · exact .empty hclass (Or.inr ⟨isEmpty_of_writes hr hre, rfl⟩)
        · exact .empty hclass (Or.inl ⟨rfl, isEmpty_of_writes hr hre⟩)
    | none =>
      dsimp only
      by_cases hnull : r.isNull = true
      · rw [if_pos hnull]
        obtain rfl := eq_null_of_writes hr hnull
        cases left
        · exact .null hclass (Or.inr ⟨rfl, rfl⟩)
        · exact .null hclass (Or.inl ⟨rfl, rfl⟩)
      · rw [if_neg hnull]
        cases left
        · exact .compare hclass
        · exact .compare hclass
  | like negated =>
    cases left
    · exact .like hclass .term
    · exact .like hclass (isPattern_likePattern run hr)
  | anyStandard op =>
    have hop : op = .eq ∨ op = .ne := by
      unfold Operator.isAnyOrder at ho
      rw [hclass] at ho
      cases op <;> first | exact Or.inl rfl | exact Or.inr rfl | cases ho
    have hany : ∀ x y : Term, scalarOrArrayAny x y op =
        .caseArray x (.compare op (.text y) elemValue) (.compare op (.text y) (.text x)) := by
      rcases hop with rfl | rfl <;> exact fun _ _ => rfl
    cases left
    · show Applies run o rt t (scalarOrArrayAny rt t op)
      rw [hany]
      exact .anyEquality hclass hop
    · show Applies run o t rt (scalarOrArrayAny t rt op)
      rw [hany]
      exact .anyEquality hclass hop
  | anyLike negated =>
    cases left
    · exact .anyLike hclass .term
    · exact .anyLike hclass (isPattern_likePattern run hr)

theorem applies_regularComparison (hlt : E.operandToSql l = .ok lt) (hrt : E.operandToSql r = .ok rt)
    (h : E.regularComparison l o r = .ok c) (ho : o.isAnyOrder = false) : Applies E.rt o lt rt c := by
  have hl := writes_operandToSql hlt
  have hr := writes_operandToSql hrt
  unfold FilterEnv.regularComparison at h
  rw [hlt, hrt] at h
  simp only [Failing.ok_bind] at h
  cases hclass : o.opClass with
  | standard op =>
    rw [hclass] at h
    dsimp only at h
    cases hempty : emptyEqualitySql op l lt r rt with
    | some d =>
      rw [hempty] at h
      obtain rfl := Except.ok.inj h
      exact applies_emptyEqualitySql hclass hl hr hempty
    | none =>
      rw [hempty] at h
      dsimp only at h
      split_ifs at h with hrnull hlnull
      · obtain rfl := Except.ok.inj h
        exact .null hclass (Or.inl ⟨rfl, eq_null_of_writes hr hrnull.1⟩)
      · obtain rfl := Except.ok.inj h
        exact .null hclass (Or.inr ⟨eq_null_of_writes hl hlnull.1, rfl⟩)
      · obtain rfl := Except.ok.inj h
        exact .compare hclass
  | like negated =>
    rw [hclass] at h
    obtain rfl := Except.ok.inj h
    exact .like hclass (isPattern_likePattern _ hr)
  | anyStandard op =>
    rw [hclass] at h
    obtain rfl := Except.ok.inj h
    unfold Operator.isAnyOrder at ho
    rw [hclass] at ho
    cases op with
    | eq => exact .anyEquality hclass (Or.inl rfl)
    | ne => exact .anyEquality hclass (Or.inr rfl)
    | gt | ge | lt | le => cases ho
  | anyLike negated =>
    rw [hclass] at h
    obtain rfl := Except.ok.inj h
    exact .anyLike hclass (isPattern_likePattern _ hr)

/-! ## What the builders give -/

/-- The comparison the builders make of two operands, before it is quantified. -/
inductive Leaf (E : FilterEnv) (o : Operator) : Node → Node → Cond → Prop
  | relations {l r : Step} {lt rt : Term} {lj rj : Bool} {ly ry : Option FieldType} :
      Leaf E o (.relationRef [l] lt lj ly) (.relationRef [r] rt rj ry)
        (.compare o.standardOrEq lt rt)
  | relationLeft {ls : List Step} {t : Term} {j : Bool} {y : Option FieldType} {r : Node} {rt : Term}
      (hr : kind r ≠ .relation) (h : E.operandToSql r = .ok rt) :
      Leaf E o (.relationRef ls t j y) r (refCondition E.rt (.relationRef ls t j y) t o r rt true)
  | relationRight {rs : List Step} {t : Term} {j : Bool} {y : Option FieldType} {l : Node}
      {lt : Term} (hl : kind l ≠ .relation) (h : E.operandToSql l = .ok lt) :
      Leaf E o l (.relationRef rs t j y) (refCondition E.rt (.relationRef rs t j y) t o l lt false)
  | collections {lc rc lk rk : Text} {lp rp : List Text} {l r : CollectionRef}
      (hl : E.resolveCollectionRef lc lp lk = .ok l) (hr : E.resolveCollectionRef rc rp rk = .ok r) :
      Leaf E o (.collectionRef lc lp lk) (.collectionRef rc rp rk)
        (.compare o.standardOrEq l.sql r.sql)
  | collectionLeft {lc lk : Text} {lp : List Text} {l : CollectionRef} {r : Node} {rt : Term}
      (hr : kind r = .each ∨ kind r = .scalar) (hl : E.resolveCollectionRef lc lp lk = .ok l)
      (h : E.operandToSql (literalForFieldType E.rt r l.type) = .ok rt) :
      Leaf E o (.collectionRef lc lp lk) r
        (refCondition E.rt (.sqlRef l.sql l.isJson l.type) l.sql o
          (literalForFieldType E.rt r l.type) rt true)
  | collectionRight {rc rk : Text} {rp : List Text} {r : CollectionRef} {l : Node} {lt : Term}
      (hl : kind l = .each ∨ kind l = .scalar) (hr : E.resolveCollectionRef rc rp rk = .ok r)
      (h : E.operandToSql (literalForFieldType E.rt l r.type) = .ok lt) :
      Leaf E o l (.collectionRef rc rp rk)
        (refCondition E.rt (.sqlRef r.sql r.isJson r.type) r.sql o
          (literalForFieldType E.rt l r.type) lt false)
  | eachLeft {l r : Node} {a : Term} {c : Cond} (hl : E.extractEachOperand l = .ok (some a))
      (hr : kind r = .scalar) (h : E.eachItemCondition o r true = .ok c) : Leaf E o l r c
  | eachRight {l r : Node} {a : Term} {c : Cond} (hl : kind l = .scalar)
      (hr : E.extractEachOperand r = .ok (some a)) (h : E.eachItemCondition o l false = .ok c) :
      Leaf E o l r c
  | scalars {l r : Node} {c : Cond} (hl : kind l = .scalar) (hr : kind r = .scalar)
      (h : E.regularComparison l o r = .ok c) : Leaf E o l r c

/-- The array of an operand, by its kind. -/
theorem extractEachOperand_eq_ok {a : Option Term} (h : E.extractEachOperand n = .ok a) :
    kind n = .each ↔ a.isSome = true := by
  unfold FilterEnv.extractEachOperand at h
  split at h
  · obtain ⟨t, -, rfl⟩ := Failing.map_eq_ok.1 h
    exact iff_of_true rfl rfl
  · rename_i name
    cases hbody : FilterEnv.bodyMacro? (name.dropWhile (· = '@')) with
    | none =>
      rw [hbody] at h
      obtain rfl := Except.ok.inj h
      simp [kind, isEachMacro, hbody]
    | some f =>
      rw [hbody] at h
      dsimp only at h
      split at h
      · rename_i heq
        obtain rfl := Except.ok.inj h
        simp [kind, isEachMacro, hbody, heq]
      · rename_i hne
        obtain rfl := Except.ok.inj h
        have hmod : (splitModifier f).2 ≠ some .each := fun heq =>
          hne (splitModifier f).1 (by rw [← heq])
        simp [kind, isEachMacro, hbody, hmod]
  · rename_i hfield hname
    obtain rfl := Except.ok.inj h
    refine iff_of_false ?_ Bool.false_ne_true
    cases n with
    | fieldModifier name m =>
      cases m with
      | each => exact absurd rfl (hfield name)
      | isset | changed | length | lower => nofun
    | macroName name => exact absurd rfl (hname name)
    | literal | null | field | relationRef | sqlRef | collectionRef => nofun

theorem relation_not_own : ¬(OperandKind.relation = .each ∨ OperandKind.relation = .scalar) := by
  decide

theorem collection_not_own :
    ¬(OperandKind.collection = .each ∨ OperandKind.collection = .scalar) := by
  decide

theorem quantify_relationLeft {ls : List Step} (hr : kind r ≠ .relation) :
    quantify E (.relationRef ls t j y) r c = .ok (E.relationConditionForSteps ls c) := by
  cases r with
  | relationRef => exact absurd rfl hr
  | literal | null | field | fieldModifier | sqlRef | collectionRef | macroName =>
    rcases ls with _ | ⟨s, _ | _⟩ <;> rfl

theorem quantify_relationRight {rs : List Step} (hl : kind l ≠ .relation) :
    quantify E l (.relationRef rs t j y) c = .ok (E.relationConditionForSteps rs c) := by
  cases l with
  | relationRef => exact absurd rfl hl
  | literal | null | field | fieldModifier | sqlRef | collectionRef | macroName => rfl

theorem quantify_collectionLeft (hr : kind r = .each ∨ kind r = .scalar) :
    quantify E (.collectionRef coll path key) r c =
      (E.resolveCollectionRef coll path key).map fun ref =>
        .collection ref.table ref.groupKey (wrapExists ref.table ref.steps c) := by
  have heq : quantify E (.collectionRef coll path key) r c =
      (E.resolveCollectionRef coll path key >>= fun ref =>
        .ok (.collection ref.table ref.groupKey (wrapExists ref.table ref.steps c))) := by
    cases r with
    | relationRef => exact absurd hr relation_not_own
    | collectionRef => exact absurd hr collection_not_own
    | literal | null | field | fieldModifier | sqlRef | macroName => rfl
  rw [heq]
  cases E.resolveCollectionRef coll path key <;> rfl

theorem quantify_collectionRight (hl : kind l = .each ∨ kind l = .scalar) :
    quantify E l (.collectionRef coll path key) c =
      (E.resolveCollectionRef coll path key).map fun ref =>
        .collection ref.table ref.groupKey (wrapExists ref.table ref.steps c) := by
  have heq : quantify E l (.collectionRef coll path key) c =
      (E.resolveCollectionRef coll path key >>= fun ref =>
        .ok (.collection ref.table ref.groupKey (wrapExists ref.table ref.steps c))) := by
    cases l with
    | relationRef => exact absurd hl relation_not_own
    | collectionRef => exact absurd hl collection_not_own
    | literal | null | field | fieldModifier | sqlRef | macroName => rfl
  rw [heq]
  cases E.resolveCollectionRef coll path key <;> rfl

theorem quantify_own (hl : kind l = .each ∨ kind l = .scalar)
    (hr : kind r = .each ∨ kind r = .scalar) : quantify E l r c =
      (E.extractEachOperand l >>= fun a => E.extractEachOperand r >>= fun b =>
        .ok (.sql (overElements a b c))) := by
  cases l with
  | relationRef => exact absurd hl relation_not_own
  | collectionRef => exact absurd hl collection_not_own
  | literal | null | field | fieldModifier | sqlRef | macroName =>
    cases r with
    | relationRef => exact absurd hr relation_not_own
    | collectionRef => exact absurd hr collection_not_own
    | literal | null | field | fieldModifier | sqlRef | macroName => rfl

theorem kind_cases (n : Node) : (∃ steps t j y, n = .relationRef steps t j y) ∨
    (∃ coll path key, n = .collectionRef coll path key) ∨ (kind n = .each ∨ kind n = .scalar) := by
  cases n with
  | relationRef steps t j y => exact Or.inl ⟨steps, t, j, y, rfl⟩
  | collectionRef coll path key => exact Or.inr (Or.inl ⟨coll, path, key, rfl⟩)
  | fieldModifier name m => cases m <;> simp [kind]
  | macroName name => cases hm : isEachMacro name <;> simp [kind, hm]
  | literal | null | field | sqlRef => simp [kind]

theorem ne_relation_of_own (h : kind n = .each ∨ kind n = .scalar) : kind n ≠ .relation := by
  rcases h with h | h <;> rw [h] <;> decide

theorem compareNodes_relationLeft {ls : List Step} (hr : kind r ≠ .relation) :
    E.compareNodes (.relationRef ls t j y) o r =
      E.relationComparison ls (.relationRef ls t j y) t o r true := by
  cases r with
  | relationRef => exact absurd rfl hr
  | literal | null | field | fieldModifier | sqlRef | collectionRef | macroName => rfl

theorem compareNodes_relationRight {rs : List Step} (hl : kind l ≠ .relation) :
    E.compareNodes l o (.relationRef rs t j y) =
      E.relationComparison rs (.relationRef rs t j y) t o l false := by
  cases l with
  | relationRef => exact absurd rfl hl
  | literal | null | field | fieldModifier | sqlRef | collectionRef | macroName => rfl

theorem compareNodes_collectionLeft (hr : kind r = .each ∨ kind r = .scalar) :
    E.compareNodes (.collectionRef coll path key) o r =
      (E.resolveCollectionRef coll path key >>= fun ref => E.collectionComparison ref o r true) := by
  cases r with
  | relationRef => exact absurd hr relation_not_own
  | collectionRef => exact absurd hr collection_not_own
  | literal | null | field | fieldModifier | sqlRef | macroName => rfl

theorem compareNodes_collectionRight (hl : kind l = .each ∨ kind l = .scalar) :
    E.compareNodes l o (.collectionRef coll path key) =
      (E.resolveCollectionRef coll path key >>= fun ref => E.collectionComparison ref o l false) := by
  cases l with
  | relationRef => exact absurd hl relation_not_own
  | collectionRef => exact absurd hl collection_not_own
  | literal | null | field | fieldModifier | sqlRef | macroName => rfl

/-- The comparison of two operands of the record itself. -/
def compareOwn (E : FilterEnv) (l : Node) (o : Operator) (r : Node) (a b : Option Term) :
    Except FilterError Item :=
  match a, b with
  | some _, some _ => .error .eachBothSides
  | some a, none => (E.eachItemCondition o r true).map fun c => .sql (.each a c)
  | none, some a => (E.eachItemCondition o l false).map fun c => .sql (.each a c)
  | none, none => (E.regularComparison l o r).map .sql

theorem compareNodes_own (hl : kind l = .each ∨ kind l = .scalar)
    (hr : kind r = .each ∨ kind r = .scalar) : E.compareNodes l o r =
      (E.extractEachOperand l >>= fun a => E.extractEachOperand r >>= fun b =>
        compareOwn E l o r a b) := by
  have heq : E.compareNodes l o r = (do
      match ← E.extractEachOperand l, ← E.extractEachOperand r with
      | some _, some _ => throw .eachBothSides
      | some a, none => return .sql (.each a (← E.eachItemCondition o r true))
      | none, some a => return .sql (.each a (← E.eachItemCondition o l false))
      | none, none => .sql <$> E.regularComparison l o r) := by
    cases l with
    | relationRef => exact absurd hl relation_not_own
    | collectionRef => exact absurd hl collection_not_own
    | literal | null | field | fieldModifier | sqlRef | macroName =>
      cases r with
      | relationRef => exact absurd hr relation_not_own
      | collectionRef => exact absurd hr collection_not_own
      | literal | null | field | fieldModifier | sqlRef | macroName => rfl
  rw [heq]
  cases E.extractEachOperand l with
  | error e => rfl
  | ok a =>
    cases E.extractEachOperand r with
    | error e => rfl
    | ok b =>
      cases a <;> cases b <;> rfl

/-- A comparison that is accepted is a leaf under the quantifiers of its operands. -/
theorem leaf_of_compareNodes (h : E.compareNodes l o r = .ok item) :
    ∃ c, Leaf E o l r c ∧ quantify E l r c = .ok item := by
  rcases kind_cases l with ⟨ls, lt, lj, ly, rfl⟩ | ⟨lc, lp, lk, rfl⟩ | hl
  · rcases kind_cases r with ⟨rs, rt, rj, ry, rfl⟩ | hr
    · change E.relationPairComparison ls lt o rs rt = .ok item at h
      unfold FilterEnv.relationPairComparison at h
      split at h
      · exact ⟨_, .relations, h⟩
      · cases h
    · have hr : kind r ≠ .relation := by
        rcases hr with ⟨rc, rp, rk, rfl⟩ | hr
        · nofun
        · exact ne_relation_of_own hr
      rw [compareNodes_relationLeft hr] at h
      obtain ⟨rt, hrt, h⟩ := Failing.bind_eq_ok.1 h
      exact ⟨_, .relationLeft hr hrt, (quantify_relationLeft hr).trans h⟩
  · rcases kind_cases r with ⟨rs, rt, rj, ry, rfl⟩ | ⟨rc, rp, rk, rfl⟩ | hr
    · have hl : kind (.collectionRef lc lp lk) ≠ .relation := nofun
      rw [compareNodes_relationRight hl] at h
      obtain ⟨lt, hlt, h⟩ := Failing.bind_eq_ok.1 h
      exact ⟨_, .relationRight hl hlt, (quantify_relationRight hl).trans h⟩
    · obtain ⟨l, hl, h⟩ := Failing.bind_eq_ok.1 h
      obtain ⟨r, hr, h⟩ := Failing.bind_eq_ok.1 h
      refine ⟨_, .collections hl hr, ?_⟩
      unfold quantify
      dsimp only
      rw [hl, hr]
      exact h
    · rw [compareNodes_collectionLeft hr] at h
      obtain ⟨ref, href, h⟩ := Failing.bind_eq_ok.1 h
      obtain ⟨rt, hrt, h⟩ := Failing.bind_eq_ok.1 h
      exact ⟨_, .collectionLeft hr href hrt, by rw [quantify_collectionLeft hr, href]; exact h⟩
  · rcases kind_cases r with ⟨rs, rt, rj, ry, rfl⟩ | ⟨rc, rp, rk, rfl⟩ | hr
    · have hl := ne_relation_of_own hl
      rw [compareNodes_relationRight hl] at h
      obtain ⟨lt, hlt, h⟩ := Failing.bind_eq_ok.1 h
      exact ⟨_, .relationRight hl hlt, (quantify_relationRight hl).trans h⟩
    · rw [compareNodes_collectionRight hl] at h
      obtain ⟨ref, href, h⟩ := Failing.bind_eq_ok.1 h
      obtain ⟨lt, hlt, h⟩ := Failing.bind_eq_ok.1 h
      exact ⟨_, .collectionRight hl href hlt, by rw [quantify_collectionRight hl, href]; exact h⟩
    · rw [compareNodes_own hl hr] at h
      obtain ⟨a, ha, h⟩ := Failing.bind_eq_ok.1 h
      obtain ⟨b, hb, h⟩ := Failing.bind_eq_ok.1 h
      have hown : ∀ c, quantify E l r c = .ok (.sql (overElements a b c)) := by
        intro c
        rw [quantify_own hl hr, ha, hb]
        rfl
      have hscalar : ∀ {n : Node}, (kind n = .each ∨ kind n = .scalar) →
          E.extractEachOperand n = .ok none → kind n = .scalar := by
        intro n hn hnone
        exact hn.resolve_left fun heach => Bool.false_ne_true ((extractEachOperand_eq_ok hnone).1 heach)
      cases a with
      | some a =>
        cases b with
        | some b => cases h
        | none =>
          obtain ⟨c, hc, rfl⟩ := Failing.map_eq_ok.1 h
          exact ⟨c, .eachLeft ha (hscalar hr hb) hc, hown c⟩
      | none =>
        cases b with
        | some b =>
          obtain ⟨c, hc, rfl⟩ := Failing.map_eq_ok.1 h
          exact ⟨c, .eachRight (hscalar hl ha) hb hc, hown c⟩
        | none =>
          obtain ⟨c, hc, rfl⟩ := Failing.map_eq_ok.1 h
          exact ⟨c, .scalars (hscalar hl ha) (hscalar hr hb) hc, hown c⟩

/-! ## The combinations with a branch -/

theorem readAs_refl (E : FilterEnv) (n : Node) : ReadAs E n n := by
  refine ⟨none, ?_⟩
  unfold literalForFieldType
  split
  · rw [if_neg fun h => Bool.false_ne_true h.1]
  · rfl

/-- The same node, or two literals. -/
def Alike (n n' : Node) : Prop := n' = n ∨ ∃ v w, n = .literal v ∧ n' = .literal w

theorem Alike.trans {n₁ n₂ n₃ : Node} (h : Alike n₁ n₂) (h' : Alike n₁ n₃) : Alike n₂ n₃ := by
  rcases h with rfl | ⟨v, w, rfl, rfl⟩
  · exact h'
  · rcases h' with rfl | ⟨v', w', -, rfl⟩
    · exact Or.inr ⟨w, v, rfl, rfl⟩
    · exact Or.inr ⟨w, w', rfl, rfl⟩

/-- Only a text is read as something else, and as a time. -/
theorem literalForFieldType_cases (run : Runtime) (n : Node) (type : Option FieldType) :
    literalForFieldType run n type = n ∨
      ∃ s t, n = .literal (.text s) ∧ literalForFieldType run n type = .literal (.time t) := by
  unfold literalForFieldType
  split
  · rename_i s
    by_cases hdate : isDatetime type ∧ Text.strip s ≠ []
    · rw [if_pos hdate]
      cases run.fromIsoFormat (normalizeIso (Text.strip s)) with
      | none => exact Or.inl rfl
      | some t => exact Or.inr ⟨s, t, rfl, rfl⟩
    · rw [if_neg hdate]
      exact Or.inl rfl
  · exact Or.inl rfl

variable {n' : Node} {a : Term}

theorem ReadAs.alike (h : ReadAs E n n') : Alike n n' := by
  obtain ⟨type, rfl⟩ := h
  rcases literalForFieldType_cases E.rt n type with h | ⟨s, t, rfl, h⟩
  · exact Or.inl h
  · exact Or.inr ⟨_, _, rfl, h⟩

/-- A literal that is read as a date is not read again. -/
theorem ReadAs.trans {n'' : Node} (h : ReadAs E n n') (h' : ReadAs E n' n'') : ReadAs E n n'' := by
  obtain ⟨type, rfl⟩ := h
  obtain ⟨type', rfl⟩ := h'
  rcases literalForFieldType_cases E.rt n type with h | ⟨s, t, -, h⟩
  · exact ⟨type', by rw [h]⟩
  · refine ⟨type, ?_⟩
    rw [h]
    rfl

theorem Alike.kind (h : Alike n n') : kind n' = kind n := by
  rcases h with rfl | ⟨v, w, rfl, rfl⟩
  · rfl
  · rfl

theorem quantify_alike {l' r' : Node} (hl : Alike l l') (hr : Alike r r') :
    quantify E l' r' c = quantify E l r c := by
  have hright : ∀ n v w, quantify E n (.literal v) c = quantify E n (.literal w) c := by
    intro n v w
    cases n with
    | relationRef steps => rcases steps with _ | ⟨s, _ | _⟩ <;> rfl
    | literal | null | field | fieldModifier | sqlRef | collectionRef | macroName => rfl
  have hleft : ∀ n v w, quantify E (.literal v) n c = quantify E (.literal w) n c := by
    intro n v w
    cases n <;> rfl
  rcases hl with rfl | ⟨v, w, rfl, rfl⟩ <;> rcases hr with rfl | ⟨v', w', rfl, rfl⟩
  · rfl
  · exact hright _ _ _
  · exact hleft _ _ _
  · exact (hleft _ _ _).trans (hright _ _ _)

theorem extractEachOperand_scalar (h : kind n = .scalar) : E.extractEachOperand n = .ok none := by
  cases n with
  | relationRef | collectionRef => cases h
  | fieldModifier name m =>
    cases m with
    | each => cases h
    | isset | changed | length | lower => rfl
  | macroName name =>
    unfold FilterEnv.extractEachOperand
    dsimp only
    cases hbody : FilterEnv.bodyMacro? (name.dropWhile (· = '@')) with
    | none => rfl
    | some f =>
      dsimp only
      split
      · rename_i heq
        simp [kind, isEachMacro, hbody, heq] at h
      · rfl
  | literal | null | field | sqlRef => rfl

theorem term_own (h : kind n = .each ∨ kind n = .scalar) :
    term E n = (E.extractEachOperand n >>= fun a => match a with
      | some _ => .ok (.column none "_elem")
      | none => E.operandToSql n) := by
  cases n with
  | relationRef | collectionRef => exact absurd h (by simp [kind])
  | literal | null | field | fieldModifier | sqlRef | macroName => rfl

theorem term_scalar (h : kind n = .scalar) : term E n = E.operandToSql n := by
  rw [term_own (Or.inr h), extractEachOperand_scalar h]
  rfl

theorem term_of_array (h : kind n = .each) (ha : E.extractEachOperand n = .ok (some a)) :
    term E n = .ok (.column none "_elem") := by
  rw [term_own (Or.inl h), ha]
  rfl

theorem term_each (h : kind n = .each) (ht : term E n = .ok t) : t = .column none "_elem" := by
  rw [term_own (Or.inl h)] at ht
  obtain ⟨a, ha, ht⟩ := Failing.bind_eq_ok.1 ht
  cases a with
  | none => exact absurd ((extractEachOperand_eq_ok ha).1 h) Bool.false_ne_true
  | some a => exact (Except.ok.inj ht).symm

theorem standardOrEq_eq (h : o.isStandard = true) : o.opClass = .standard o.standardOrEq := by
  unfold Operator.isStandard at h
  unfold Operator.standardOrEq
  split at h
  · rename_i op hclass
    rw [hclass]
  · cases h

theorem of_eachItemCondition {left : Bool} (h : E.eachItemCondition o n left = .ok c) :
    ∃ t, E.operandToSql n = .ok t ∧
      ((o.isStandard || o.isLike) = true ∧ c = refCondition E.rt
          (.sqlRef (.column none "_elem") false none) (.column none "_elem") o n t left ∨
        (o.isStandard || o.isLike) = false ∧ ∃ a b, c = .compare .eq a b) := by
  obtain ⟨t, ht, h⟩ := Failing.bind_eq_ok.1 h
  refine ⟨t, ht, ?_⟩
  unfold Operator.isStandard Operator.isLike
  cases hclass : o.opClass with
  | standard op | like negated =>
    rw [hclass] at h
    exact Or.inl ⟨rfl, (Except.ok.inj h).symm⟩
  | anyStandard op | anyLike negated =>
    rw [hclass] at h
    obtain rfl := Except.ok.inj h
    refine Or.inr ⟨rfl, ?_⟩
    split_ifs
    · exact ⟨_, _, rfl⟩
    · exact ⟨_, _, rfl⟩

theorem not_isAnyOrder_of_isStandard_or_isLike (h : (o.isStandard || o.isLike) = true) :
    o.isAnyOrder = false := by
  cases o <;> first | rfl | cases h

/-- A leaf of a combination with a branch applies the operator. -/
theorem applies_of_leaf (h : Leaf E o l r c) (hs : supported o (kind l) (kind r) = true) :
    ∃ l' r' lt rt, ReadAs E l l' ∧ ReadAs E r r' ∧ term E l' = .ok lt ∧ term E r' = .ok rt ∧
      Applies E.rt o lt rt c := by
  cases h with
  | relations => exact ⟨_, _, _, _, readAs_refl E _, readAs_refl E _, rfl, rfl,
      .compare (standardOrEq_eq hs)⟩
  | @relationLeft ls t j y r rt hr hrt =>
    have hscalar : kind r = .scalar ∧ o.isAnyOrder = false := by
      cases hk : kind r <;> rw [hk] at hs hr <;>
        first | exact absurd rfl hr | cases hs | exact ⟨rfl, by simpa [supported, kind] using hs⟩
    have hplain : Plain (.relationRef ls t j y) := ⟨rfl, rfl⟩
    refine ⟨_, _, _, _, readAs_refl E _, readAs_refl E _, rfl, (term_scalar hscalar.1).trans hrt, ?_⟩
    exact applies_refCondition true hplain (writes_operandToSql hrt) hscalar.2
  | @relationRight rs t j y l lt hl hlt =>
    have hscalar : kind l = .scalar ∧ o.isAnyOrder = false := by
      cases hk : kind l <;> rw [hk] at hs hl <;>
        first | exact absurd rfl hl | cases hs | exact ⟨rfl, by simpa [supported, kind] using hs⟩
    have hplain : Plain (.relationRef rs t j y) := ⟨rfl, rfl⟩
    refine ⟨_, _, _, _, readAs_refl E _, readAs_refl E _, (term_scalar hscalar.1).trans hlt, rfl, ?_⟩
    exact applies_refCondition false hplain (writes_operandToSql hlt) hscalar.2
  | collections hl hr =>
    refine ⟨_, _, _, _, readAs_refl E _, readAs_refl E _, ?_, ?_, .compare (standardOrEq_eq hs)⟩
    · exact Failing.map_eq_ok.2 ⟨_, hl, rfl⟩
    · exact Failing.map_eq_ok.2 ⟨_, hr, rfl⟩
  | @collectionLeft lc lk lp ref r rt hr href hrt =>
    have hscalar : kind r = .scalar ∧ o.isAnyOrder = false := by
      rcases hr with hk | hk <;> rw [hk] at hs
      · cases hs
      · exact ⟨hk, by simpa [supported, kind] using hs⟩
    have hread : ReadAs E r (literalForFieldType E.rt r ref.type) := ⟨ref.type, rfl⟩
    have hplain : Plain (.sqlRef ref.sql ref.isJson ref.type) := ⟨rfl, rfl⟩
    refine ⟨_, _, _, _, readAs_refl E _, hread, Failing.map_eq_ok.2 ⟨_, href, rfl⟩,
      (term_scalar ((hread.alike.kind).trans hscalar.1)).trans hrt, ?_⟩
    exact applies_refCondition true hplain (writes_operandToSql hrt) hscalar.2
  | @collectionRight rc rk rp ref l lt hl href hlt =>
    have hscalar : kind l = .scalar ∧ o.isAnyOrder = false := by
      rcases hl with hk | hk <;> rw [hk] at hs
      · cases hs
      · exact ⟨hk, by simpa [supported, kind] using hs⟩
    have hread : ReadAs E l (literalForFieldType E.rt l ref.type) := ⟨ref.type, rfl⟩
    have hplain : Plain (.sqlRef ref.sql ref.isJson ref.type) := ⟨rfl, rfl⟩
    refine ⟨_, _, _, _, hread, readAs_refl E _,
      (term_scalar ((hread.alike.kind).trans hscalar.1)).trans hlt,
      Failing.map_eq_ok.2 ⟨_, href, rfl⟩, ?_⟩
    exact applies_refCondition false hplain (writes_operandToSql hlt) hscalar.2
  | @eachLeft l r a c ha hr hc =>
    have hk : kind l = .each := (extractEachOperand_eq_ok ha).2 rfl
    rw [hk, hr] at hs
    obtain ⟨rt, hrt, ⟨-, rfl⟩ | ⟨hno, -⟩⟩ := of_eachItemCondition hc
    · refine ⟨_, _, _, _, readAs_refl E _, readAs_refl E _, term_of_array hk ha,
        (term_scalar hr).trans hrt, ?_⟩
      exact applies_refCondition true ⟨rfl, rfl⟩ (writes_operandToSql hrt)
        (not_isAnyOrder_of_isStandard_or_isLike hs)
    · exact absurd (hno.symm.trans hs) Bool.false_ne_true
  | @eachRight l r a c hl ha hc =>
    have hk : kind r = .each := (extractEachOperand_eq_ok ha).2 rfl
    rw [hk, hl] at hs
    obtain ⟨lt, hlt, ⟨-, rfl⟩ | ⟨hno, -⟩⟩ := of_eachItemCondition hc
    · refine ⟨_, _, _, _, readAs_refl E _, readAs_refl E _, (term_scalar hl).trans hlt,
        term_of_array hk ha, ?_⟩
      exact applies_refCondition false ⟨rfl, rfl⟩ (writes_operandToSql hlt)
        (not_isAnyOrder_of_isStandard_or_isLike hs)
    · exact absurd (hno.symm.trans hs) Bool.false_ne_true
  | @scalars l r c hl hr hc =>
    rw [hl, hr] at hs
    obtain ⟨lt, hlt, h⟩ := Failing.bind_eq_ok.1 hc
    obtain ⟨rt, hrt, -⟩ := Failing.bind_eq_ok.1 h
    refine ⟨_, _, _, _, readAs_refl E _, readAs_refl E _, (term_scalar hl).trans hlt,
      (term_scalar hr).trans hrt, applies_regularComparison hlt hrt hc ?_⟩
    simpa [supported] using hs

/-! ## The combinations without one -/

theorem isStandard_of_opClass (h : o.opClass = .standard op) : o.isStandard = true := by
  unfold Operator.isStandard
  rw [h]

/-- Only a standard operator is applied by a bare comparison. -/
theorem isStandard_of_applies {b : Term} (h : Applies run o lt rt c) (hc : c = .compare op a b) :
    o.isStandard = true := by
  cases h with
  | compare h | null h | empty h | constant h => exact isStandard_of_opClass h
  | like | anyEquality | anyOrder | anyLike => cases hc

/-- An any-order of the SQL has the operands the other way round. -/
theorem not_applies_any {b : Term} (hclass : o.opClass = .anyStandard op) (hop : op ≠ op.converse)
    (hc : c = .any op a b) : ¬Applies run o lt rt c := by
  intro h
  cases h with
  | compare h | like h | anyEquality h | anyLike h => cases hc
  | @null op' t h => cases op' <;> cases hc
  | @empty negated t h => cases negated <;> cases hc
  | @constant negated h => cases negated <;> cases hc
  | @anyOrder op' h =>
    obtain rfl : op = op' := OpClass.anyStandard.inj (hclass.symm.trans h)
    exact hop (Cond.any.inj hc).1.symm

theorem of_isAnyOrder (h : o.isAnyOrder = true) :
    ∃ op, o.opClass = .anyStandard op ∧ op ≠ op.converse ∧ op ≠ .eq ∧ op ≠ .ne := by
  unfold Operator.isAnyOrder at h
  split at h
  · cases h
  · cases h
  · rename_i op heq hne hclass
    refine ⟨op, hclass, ?_, heq, hne⟩
    cases op with
    | eq => exact absurd rfl heq
    | ne => exact absurd rfl hne
    | gt | ge | lt | le => nofun
  · cases h

theorem scalarOrArrayAny_order (heq : op ≠ .eq) (hne : op ≠ .ne) (a b : Term) :
    scalarOrArrayAny a b op = .any op b a := by
  cases op with
  | eq => exact absurd rfl heq
  | ne => exact absurd rfl hne
  | gt | ge | lt | le => rfl

theorem not_applies_refCondition {run' : Runtime} {left : Bool} {x y : Term}
    (ho : o.isAnyOrder = true) : ¬Applies run o x y (refCondition run' n t o r rt left) := by
  obtain ⟨op, hclass, hconv, heq, hne⟩ := of_isAnyOrder ho
  have hc : ∃ a b, refCondition run' n t o r rt left = .any op a b := by
    unfold refCondition
    rw [hclass]
    dsimp only
    split_ifs
    · exact ⟨_, _, scalarOrArrayAny_order heq hne _ _⟩
    · exact ⟨_, _, scalarOrArrayAny_order heq hne _ _⟩
  obtain ⟨a, b, hc⟩ := hc
  exact not_applies_any hclass hconv hc

theorem emptyEqualitySql_eq_none (hl : l.isEmpty = false) (hr : r.isEmpty = false) (op : CompareOp) :
    emptyEqualitySql op l lt r rt = none := by
  unfold emptyEqualitySql
  rw [hl, hr]
  split_ifs <;> first | rfl | contradiction

/-- The terms a bare comparison applies an operator to. -/
theorem of_applies_compare {b : Term} (h : Applies run o lt rt (.compare op a b)) :
    (lt = a ∧ rt = b) ∨ b = .value .null ∧ (lt = a ∧ rt = b ∨ lt = b ∧ rt = a) := by
  generalize hc : Cond.compare op a b = c at h
  cases h with
  | compare h =>
    obtain ⟨-, rfl, rfl⟩ := Cond.compare.inj hc
    exact Or.inl ⟨rfl, rfl⟩
  | @null op' t h hnull =>
    cases op' <;> cases hc <;> exact Or.inr ⟨rfl, hnull⟩
  | @empty negated t h => cases negated <;> cases hc
  | @constant negated h => cases negated <;> cases hc
  | like | anyEquality | anyOrder | anyLike => cases hc

theorem of_applies_ilike {negated : Bool} {p : Term}
    (h : Applies run o lt rt (.ilike negated (.text a) p)) : lt = a ∧ IsPattern run rt p := by
  generalize hc : Cond.ilike negated (.text a) p = c at h
  cases h with
  | like h hp =>
    obtain ⟨-, ha, rfl⟩ := Cond.ilike.inj hc
    exact ⟨(Term.text.inj ha).symm, hp⟩
  | @null op' t h hnull => cases op' <;> cases hc
  | @empty negated t h => cases negated <;> cases hc
  | @constant negated h => cases negated <;> cases hc
  | compare | anyEquality | anyOrder | anyLike => cases hc

/-- The terms any-matching applies an operator to. -/
theorem of_applies_caseArray {d e : Cond} (h : Applies run o lt rt (.caseArray a d e)) : lt = a ∧
      ((∃ op, d = .compare op (.text rt) elemValue) ∨
        ∃ negated p, d = .ilike negated elemValue p ∧ IsPattern run rt p) := by
  generalize hc : Cond.caseArray a d e = c at h
  cases h with
  | anyEquality h =>
    obtain ⟨rfl, rfl, -⟩ := Cond.caseArray.inj hc
    exact ⟨rfl, Or.inl ⟨_, rfl⟩⟩
  | anyLike h hp =>
    obtain ⟨rfl, rfl, -⟩ := Cond.caseArray.inj hc
    exact ⟨rfl, Or.inr ⟨_, _, rfl, hp⟩⟩
  | @null op' t h hnull => cases op' <;> cases hc
  | @empty negated t h => cases negated <;> cases hc
  | @constant negated h => cases negated <;> cases hc
  | compare | like | anyOrder => cases hc

theorem eq_of_isPattern {x : Term} (h : IsPattern run x (.pattern t)) : x = t := by
  cases h
  rfl

/-- An operand that is written into the condition is the term the operator is applied to. -/
theorem far_of_applies {run' : Runtime} (left : Bool) (x : Term) (ho : o.isAnyOrder = false)
    (hn : n.isEmpty = false) (hr : r.isEmpty = false ∧ r.isNull = false)
    (hp : likePattern run' r rt = .pattern rt)
    (h : Applies run o (if left then t else x) (if left then x else t) (refCondition run' n t o r rt left)) :
    x = rt := by
  unfold refCondition at h
  cases hclass : o.opClass with
  | standard op =>
    rw [hclass] at h
    dsimp only at h
    rw [emptyEqualitySql_eq_none hn hr.1] at h
    dsimp only at h
    have hnull : ¬r.isNull = true := Bool.eq_false_iff.1 hr.2
    rw [if_neg hnull] at h
    cases left with
    | true =>
      rcases of_applies_compare h with ⟨-, hx⟩ | ⟨hnull, ⟨-, hx⟩ | ⟨ht, hx⟩⟩
      · exact hx
      · exact hx
      · exact hx.trans ht
    | false =>
      rcases of_applies_compare h with ⟨hx, -⟩ | ⟨hnull, ⟨hx, -⟩ | ⟨hx, ht⟩⟩
      · exact hx
      · exact hx
      · exact hx.trans ht
  | like negated =>
    rw [hclass] at h
    cases left with
    | true =>
      obtain ⟨-, hpattern⟩ := of_applies_ilike h
      rw [hp] at hpattern
      exact eq_of_isPattern hpattern
    | false => exact (of_applies_ilike h).1
  | anyStandard op =>
    rw [hclass] at h
    have hop : op = .eq ∨ op = .ne := by
      unfold Operator.isAnyOrder at ho
      rw [hclass] at ho
      cases op <;> first | exact Or.inl rfl | exact Or.inr rfl | cases ho
    have hany : ∀ a b : Term, scalarOrArrayAny a b op =
        .caseArray a (.compare op (.text b) elemValue) (.compare op (.text b) (.text a)) := by
      rcases hop with rfl | rfl <;> exact fun _ _ => rfl
    cases left with
    | true =>
      change Applies run o t x (scalarOrArrayAny t rt op) at h
      rw [hany] at h
      obtain ⟨-, ⟨op', hd⟩ | ⟨negated, p, hd, -⟩⟩ := of_applies_caseArray h
      · exact (Term.text.inj (Cond.compare.inj hd).2.1).symm
      · cases hd
    | false =>
      change Applies run o x t (scalarOrArrayAny rt t op) at h
      rw [hany] at h
      exact (of_applies_caseArray h).1
  | anyLike negated =>
    rw [hclass] at h
    cases left with
    | true =>
      obtain ⟨-, ⟨op', hd⟩ | ⟨negated', p, hd, hpattern⟩⟩ := of_applies_caseArray h
      · cases hd
      · obtain ⟨-, -, rfl⟩ := Cond.ilike.inj hd
        rw [hp] at hpattern
        exact eq_of_isPattern hpattern
    | false => exact (of_applies_caseArray h).1

/-- A resolved path is a column of a table or a path in one. -/
theorem ne_raw_of_resolveFrom {idx : RelationIndex} {a b : Bool} {whole : Text} {p : ResolvedPath} :
    ∀ {parts : List Text} {table : Text} {steps : List Step},
      resolveFrom idx a b whole table steps parts = .ok (some p) → ∀ s, p.sql ≠ .raw s
  | [], table, steps, h => by cases h
  | [part], table, steps, h => by
    obtain rfl := Option.some.inj (Except.ok.inj h)
    nofun
  | part :: next :: rest, table, steps, h => by
    unfold resolveFrom at h
    by_cases hjson : isJsonType (idx.fieldType? table part) = true
    · rw [if_pos hjson] at h
      obtain rfl := Option.some.inj (Except.ok.inj h)
      nofun
    · rw [if_neg hjson] at h
      cases hinfo : idx.relationInfo? table part with
      | some info =>
        rw [hinfo] at h
        obtain ⟨step, -, h⟩ := Failing.bind_eq_ok.1 h
        split_ifs at h
        · obtain rfl := Option.some.inj (Except.ok.inj h)
          nofun
        · exact ne_raw_of_resolveFrom h
      | none =>
        rw [hinfo] at h
        dsimp only at h
        split_ifs at h
        cases h

theorem ne_raw_of_resolveCollectionRef {ref : CollectionRef}
    (h : E.resolveCollectionRef coll path key = .ok ref) (s : Text) : ref.sql ≠ .raw s := by
  unfold FilterEnv.resolveCollectionRef at h
  dsimp only at h
  split at h
  · obtain rfl := Except.ok.inj h
    nofun
  · obtain ⟨p?, hp, h⟩ := Failing.bind_eq_ok.1 h
    cases p? with
    | none => cases h
    | some p =>
      obtain rfl := Except.ok.inj h
      obtain ⟨parts, -, hp⟩ := Failing.bind_eq_ok.1 hp
      obtain ⟨start, -, hp⟩ := Failing.bind_eq_ok.1 hp
      exact ne_raw_of_resolveFrom hp s

/-- A macro is never a column. -/
theorem ne_column_of_resolveBodyMacro {f : Text} (h : E.resolveBodyMacro f = .ok t) (a : Option Text)
    (b : Text) : t ≠ .column a b := by
  unfold FilterEnv.resolveBodyMacro at h
  dsimp only at h
  split at h
  · obtain rfl := Except.ok.inj h
    nofun
  · obtain rfl := Except.ok.inj h
    nofun
  · split at h
    · obtain rfl := Except.ok.inj h
      nofun
    · obtain ⟨field, -, h⟩ := Failing.bind_eq_ok.1 h
      obtain rfl := Except.ok.inj h
      nofun
  · obtain rfl := Except.ok.inj h
    nofun
  · split at h <;>
    · obtain rfl := Except.ok.inj h
      nofun
  · obtain rfl := Except.ok.inj h
    nofun

theorem ne_column_of_resolveMacro {name : Text} (h : E.resolveMacro name = .ok t) (a : Option Text)
    (b : Text) : t ≠ .column a b := by
  have hvalue : ∀ v, Except.ok (.value v) = (.ok t : Except FilterError Term) → t ≠ .column a b := by
    intro v hv
    obtain rfl := Except.ok.inj hv
    nofun
  unfold FilterEnv.resolveMacro at h
  cases hresolved : E.ctx.resolved.get? name with
  | some v =>
    rw [hresolved] at h
    exact hvalue v h
  | none =>
    rw [hresolved] at h
    dsimp only at h
    cases hclock : FilterEnv.clock? name with
    | some k =>
      rw [hclock] at h
      obtain rfl := Except.ok.inj h
      nofun
    | none =>
      rw [hclock] at h
      dsimp only at h
      split_ifs at h
      · exact hvalue _ h
      · exact hvalue _ h
      · split at h
        · exact hvalue _ h
        · split at h
          · exact hvalue _ h
          · split at h
            · exact ne_column_of_resolveBodyMacro h a b
            · split at h
              · exact hvalue _ h
              · exact hvalue _ h

/-- What an operand with an array is written as, is not its element. -/
theorem ne_elem_of_each (hn : kind n = .each) (h : E.operandToSql n = .ok t) :
    likePattern E.rt n t = .pattern t ∧ n.isEmpty = false ∧ n.isNull = false ∧
      t ≠ .column none "_elem" := by
  cases n with
  | fieldModifier name m =>
    cases m with
    | each =>
      obtain ⟨u, -, h⟩ := Failing.bind_eq_ok.1 h
      cases h
    | isset | changed | length | lower => cases hn
  | macroName name => exact ⟨rfl, rfl, rfl, ne_column_of_resolveMacro h none "_elem"⟩
  | literal | null | field | relationRef | sqlRef | collectionRef => cases hn

/-- Next to a traversed column, the operator is applied to an operand of the record only. -/
theorem scalar_of_applies {m m₁ m₂ : Node} {ot x : Term} (left : Bool) (hn : n.isEmpty = false)
    (hkind : kind m ≠ .relation) (h₁ : Alike m m₁) (hot : E.operandToSql m₁ = .ok ot)
    (h₂ : Alike m m₂) (hx : term E m₂ = .ok x)
    (h : Applies E.rt o (if left then t else x) (if left then x else t)
      (refCondition E.rt n t o m₁ ot left)) : kind m = .scalar ∧ o.isAnyOrder = false := by
  have ho : o.isAnyOrder = false := by
    by_contra ho
    exact not_applies_refCondition (Bool.not_eq_false _ ▸ ho) h
  refine ⟨?_, ho⟩
  rcases kind_cases m with ⟨steps, u, j, y, rfl⟩ | ⟨coll, path, key, rfl⟩ | hk | hk
  · exact absurd rfl hkind
  · have hsame : ∀ {m'}, Alike (.collectionRef coll path key) m' →
        m' = .collectionRef coll path key := by
      intro m' h
      rcases h with rfl | ⟨v, w, hv, -⟩
      · rfl
      · cases hv
    obtain rfl := hsame h₁
    obtain rfl := hsame h₂
    obtain ⟨ref, href, rfl⟩ := Failing.map_eq_ok.1 hx
    obtain rfl := Except.ok.inj hot
    exact absurd (far_of_applies left ref.sql ho hn ⟨rfl, rfl⟩ rfl h)
      (ne_raw_of_resolveCollectionRef href coll)
  · obtain ⟨hp, hempty, hnull, hne⟩ := ne_elem_of_each (h₁.kind.trans hk) hot
    have hfar := far_of_applies left x ho hn ⟨hempty, hnull⟩ hp h
    exact absurd (hfar.symm.trans (term_each (h₂.kind.trans hk) hx)) hne
  · exact hk

theorem term_relation {steps : List Step} {u : Term} (h : Alike (.relationRef steps t j y) n')
    (hu : term E n' = .ok u) : u = t := by
  rcases h with rfl | ⟨v, w, hv, -⟩
  · exact (Except.ok.inj hu).symm
  · cases hv

theorem term_collection {ref : CollectionRef} {u : Term}
    (href : E.resolveCollectionRef coll path key = .ok ref)
    (h : Alike (.collectionRef coll path key) n') (hu : term E n' = .ok u) : u = ref.sql := by
  rcases h with rfl | ⟨v, w, hv, -⟩
  · obtain ⟨ref', href', rfl⟩ := Failing.map_eq_ok.1 hu
    rw [Except.ok.inj (href.symm.trans href')]
  · cases hv

/-- Over the elements of an array, only these two classes are applied. -/
theorem isStandard_or_isLike_of_applies {left : Bool} (h : E.eachItemCondition o n left = .ok c)
    (ha : Applies E.rt o lt rt c) : (o.isStandard || o.isLike) = true := by
  obtain ⟨u, -, ⟨ho, -⟩ | ⟨ho, a, b, hc⟩⟩ := of_eachItemCondition h
  · exact ho
  · rw [isStandard_of_applies ha hc] at ho
    cases ho

/-- A leaf applies the operator to its operands only where there is a branch. -/
theorem supported_of_applies {l' r' : Node} (h : Leaf E o l r c) (hl' : Alike l l')
    (hr' : Alike r r') (hlt : term E l' = .ok lt) (hrt : term E r' = .ok rt)
    (ha : Applies E.rt o lt rt c) : supported o (kind l) (kind r) = true := by
  cases h with
  | relations | collections => exact isStandard_of_applies ha rfl
  | @relationLeft ls t j y r rt₀ hr hrt₀ =>
    obtain rfl := term_relation hl' hlt
    obtain ⟨hk, ho⟩ := scalar_of_applies true rfl hr (Or.inl rfl) hrt₀ hr' hrt ha
    rw [hk]
    simp [supported, kind, ho]
  | @relationRight rs t j y l lt₀ hl hlt₀ =>
    obtain rfl := term_relation hr' hrt
    obtain ⟨hk, ho⟩ := scalar_of_applies false rfl hl (Or.inl rfl) hlt₀ hl' hlt ha
    rw [hk]
    simp [supported, kind, ho]
  | @collectionLeft lc lk lp ref r rt₀ hr href hrt₀ =>
    obtain rfl := term_collection href hl' hlt
    obtain ⟨hk, ho⟩ := scalar_of_applies true rfl (ne_relation_of_own hr) (ReadAs.alike ⟨ref.type, rfl⟩) hrt₀ hr'
      hrt ha
    rw [hk]
    simp [supported, kind, ho]
  | @collectionRight rc rk rp ref l lt₀ hl href hlt₀ =>
    obtain rfl := term_collection href hr' hrt
    obtain ⟨hk, ho⟩ := scalar_of_applies false rfl (ne_relation_of_own hl) (ReadAs.alike ⟨ref.type, rfl⟩) hlt₀ hl'
      hlt ha
    rw [hk]
    simp [supported, kind, ho]
  | @eachLeft l r a c ha' hr hc =>
    rw [(extractEachOperand_eq_ok ha').2 rfl, hr]
    exact isStandard_or_isLike_of_applies hc ha
  | @eachRight l r a c hl ha' hc =>
    rw [(extractEachOperand_eq_ok ha').2 rfl, hl]
    exact isStandard_or_isLike_of_applies hc ha
  | @scalars l r c hl hr hc =>
    rw [hl, hr]
    by_contra hs
    have ho : o.isAnyOrder = true := by simpa [supported] using hs
    obtain ⟨op, hclass, hconv, heq, hne⟩ := of_isAnyOrder ho
    obtain ⟨lt₀, -, h⟩ := Failing.bind_eq_ok.1 hc
    obtain ⟨rt₀, -, h⟩ := Failing.bind_eq_ok.1 h
    rw [hclass] at h
    have hc : c = .any op rt₀ lt₀ :=
      (Except.ok.inj h).symm.trans (scalarOrArrayAny_order heq hne lt₀ rt₀)
    exact not_applies_any hclass hconv hc ha

/-! ## Every comparison -/

theorem wrapExists_injective {parent : Text} : ∀ {steps : List Step},
    wrapExists parent steps c = wrapExists parent steps d → c = d
  | [], h => h
  | s :: ss, h => by
    obtain ⟨-, h⟩ := Cond.existsIn.inj h
    exact wrapExists_injective (Cond.and.inj h).2

theorem relationConditionForSteps_injective {steps : List Step}
    (h : E.relationConditionForSteps steps c = E.relationConditionForSteps steps d) : c = d := by
  cases steps with
  | nil => exact Item.sql.inj h
  | cons s ss => exact wrapExists_injective (Item.relation.inj h).2.2.2

theorem overElements_injective {a b : Option Term} (h : overElements a b c = overElements a b d) :
    c = d := by
  cases a <;> cases b <;> first | exact h | exact (Cond.each.inj h).2

theorem quantified_collection {x : Except FilterError CollectionRef}
    (hc : x.map (fun ref => .collection ref.table ref.groupKey (wrapExists ref.table ref.steps c)) =
      .ok item)
    (hd : x.map (fun ref => .collection ref.table ref.groupKey (wrapExists ref.table ref.steps d)) =
      .ok item) : c = d := by
  obtain ⟨ref, hx, hc⟩ := Failing.map_eq_ok.1 hc
  obtain ⟨ref', hx', hd⟩ := Failing.map_eq_ok.1 hd
  obtain rfl := Except.ok.inj (hx.symm.trans hx')
  exact wrapExists_injective (Item.collection.inj (hc.trans hd.symm)).2.2

/-- A leaf is found again under its quantifiers. -/
theorem quantify_injective (hc : quantify E l r c = .ok item) (hd : quantify E l r d = .ok item) :
    c = d := by
  rcases kind_cases l with ⟨ls, lt, lj, ly, rfl⟩ | ⟨lc, lp, lk, rfl⟩ | hl
  · by_cases hr : kind r = .relation
    · obtain ⟨rs, rt, rj, ry, rfl⟩ : ∃ rs rt rj ry, r = .relationRef rs rt rj ry := by
        rcases kind_cases r with h | ⟨rc, rp, rk, rfl⟩ | h
        · exact h
        · cases hr
        · exact absurd hr (ne_relation_of_own h)
      have hlong : quantify E (.relationRef ls lt lj ly) (.relationRef rs rt rj ry) c =
            .ok (E.relationConditionForSteps ls c) ∧
          quantify E (.relationRef ls lt lj ly) (.relationRef rs rt rj ry) d =
            .ok (E.relationConditionForSteps ls d) ∨ ∃ s s', ls = [s] ∧ rs = [s'] := by
        rcases ls with _ | ⟨s, _ | ⟨s₁, ls⟩⟩ <;> rcases rs with _ | ⟨s', _ | ⟨s₁', rs⟩⟩ <;>
          first | exact Or.inl ⟨rfl, rfl⟩ | exact Or.inr ⟨_, _, rfl, rfl⟩
      rcases hlong with ⟨hc', hd'⟩ | ⟨s, s', rfl, rfl⟩
      · rw [hc'] at hc
        rw [hd'] at hd
        exact relationConditionForSteps_injective (Except.ok.inj (hc.trans hd.symm))
      · have h := Item.sql.inj (Except.ok.inj (hc.trans hd.symm))
        exact (Cond.and.inj (Cond.and.inj (Cond.existsIn.inj h).2).2).2
    · rw [quantify_relationLeft hr] at hc hd
      exact relationConditionForSteps_injective (Except.ok.inj (hc.trans hd.symm))
  · rcases kind_cases r with ⟨rs, rt, rj, ry, rfl⟩ | ⟨rc, rp, rk, rfl⟩ | hr
    · have hl : kind (.collectionRef lc lp lk) ≠ .relation := nofun
      rw [quantify_relationRight hl] at hc hd
      exact relationConditionForSteps_injective (Except.ok.inj (hc.trans hd.symm))
    · obtain ⟨x, hx, hc⟩ := Failing.bind_eq_ok.1 hc
      obtain ⟨y, hy, hc⟩ := Failing.bind_eq_ok.1 hc
      obtain ⟨x', hx', hd⟩ := Failing.bind_eq_ok.1 hd
      obtain ⟨y', hy', hd⟩ := Failing.bind_eq_ok.1 hd
      obtain rfl := Except.ok.inj (hx.symm.trans hx')
      obtain rfl := Except.ok.inj (hy.symm.trans hy')
      have h := (Except.ok.inj hc).trans (Except.ok.inj hd).symm
      split_ifs at h
      · exact wrapExists_injective (wrapExists_injective (Item.collection.inj h).2.2)
      · exact wrapExists_injective (wrapExists_injective (Cond.existsIn.inj (Item.sql.inj h)).2)
    · rw [quantify_collectionLeft hr] at hc hd
      exact quantified_collection hc hd
  · rcases kind_cases r with ⟨rs, rt, rj, ry, rfl⟩ | ⟨rc, rp, rk, rfl⟩ | hr
    · have hl := ne_relation_of_own hl
      rw [quantify_relationRight hl] at hc hd
      exact relationConditionForSteps_injective (Except.ok.inj (hc.trans hd.symm))
    · rw [quantify_collectionRight hl] at hc hd
      exact quantified_collection hc hd
    · rw [quantify_own hl hr] at hc hd
      obtain ⟨a, ha, hc⟩ := Failing.bind_eq_ok.1 hc
      obtain ⟨b, hb, hc⟩ := Failing.bind_eq_ok.1 hc
      rw [ha, Failing.ok_bind, hb, Failing.ok_bind] at hd
      exact overElements_injective (Item.sql.inj (Except.ok.inj (hc.trans hd.symm)))

/-- What is compiled for two nodes that stand for the operands, is compiled for the operands. -/
theorem emits_iff_of_compareNodes {l₁ r₁ : Node} (hl : ReadAs E l l₁) (hr : ReadAs E r r₁)
    (h : E.compareNodes l₁ o r₁ = .ok item) :
    Emits E l o r item ↔ supported o (kind l) (kind r) = true := by
  obtain ⟨c, hleaf, hc⟩ := leaf_of_compareNodes h
  rw [← hl.alike.kind, ← hr.alike.kind]
  constructor
  · rintro ⟨l', r', lt, rt, d, hl', hr', hlt, hrt, ha, hd⟩
    have hl₁ := hl.alike.trans hl'.alike
    have hr₁ := hr.alike.trans hr'.alike
    rw [quantify_alike hl₁ hr₁] at hd
    obtain rfl := quantify_injective hc hd
    exact supported_of_applies hleaf hl₁ hr₁ hlt hrt ha
  · intro hs
    obtain ⟨l', r', lt, rt, hl', hr', hlt, hrt, ha⟩ := applies_of_leaf hleaf hs
    exact ⟨l', r', lt, rt, c, hl.trans hl', hr.trans hr', hlt, hrt, ha,
      (quantify_alike hl'.alike hr'.alike).trans hc⟩

theorem readAs_coerceLiterals (l r : Node) : ReadAs E l (coerceLiterals E.rt l r).1 ∧
    ReadAs E r (coerceLiterals E.rt l r).2 := by
  unfold coerceLiterals
  constructor
  · dsimp only
    split_ifs
    · exact ⟨_, rfl⟩
    · exact readAs_refl E l
  · dsimp only
    split_ifs
    · exact ⟨_, rfl⟩
    · exact readAs_refl E r

/-- A comparison that is accepted applies its operator to its operands, exactly if the builders
have a branch for their kinds. -/
theorem emits_iff (h : E.comparison l o r = .ok item) :
    Emits E l o r item ↔ supported o (kind l) (kind r) = true := by
  unfold FilterEnv.comparison at h
  split at h
  · exact emits_iff_of_compareNodes (readAs_coerceLiterals l r).1 (readAs_coerceLiterals l r).2 h
  · exact emits_iff_of_compareNodes (readAs_refl E l) (readAs_refl E r) h

end

/-! ## Every comparison of a filter -/

mutual

/-- The comparisons of an expression, from left to right. -/
def exprComparisons : Expr → List Comparison
  | .one c => conjComparisons c
  | .or c e => conjComparisons c ++ exprComparisons e

def conjComparisons : Conj → List Comparison
  | .one a => atomComparisons a
  | .and a c => atomComparisons a ++ conjComparisons c

def atomComparisons : Atom → List Comparison
  | .comparison c => [c]
  | .paren e => exprComparisons e

end

/-- The operands of a comparison as nodes, and what they are compiled to. -/
def Compiled (E : FilterEnv) (c : Comparison) (l r : Node) (item : Item) : Prop :=
  E.operandNode c.left = .ok l ∧ E.operandNode c.right = .ok r ∧ E.comparison l c.op r = .ok item

section

variable {E : FilterEnv}

mutual

theorem compiled_of_compileExpr : ∀ {e : Expr} {k : Cond}, compileExpr E e = .ok k →
    ∀ c ∈ exprComparisons e, ∃ l r item, Compiled E c l r item
  | .one a, k, h, c, hc => by
    obtain ⟨items, hitems, -⟩ := Failing.map_eq_ok.1 h
    exact compiled_of_conjItems hitems c hc
  | .or a e, k, h, c, hc => by
    obtain ⟨items, hitems, h⟩ := Failing.bind_eq_ok.1 h
    obtain ⟨k', hk', -⟩ := Failing.bind_eq_ok.1 h
    rcases List.mem_append.1 hc with hc | hc
    · exact compiled_of_conjItems hitems c hc
    · exact compiled_of_compileExpr hk' c hc

theorem compiled_of_conjItems : ∀ {a : Conj} {items : List Item}, conjItems E a = .ok items →
    ∀ c ∈ conjComparisons a, ∃ l r item, Compiled E c l r item
  | .one t, items, h, c, hc => by
    obtain ⟨item, hitem, -⟩ := Failing.bind_eq_ok.1 h
    exact compiled_of_atomItem hitem c hc
  | .and t a, items, h, c, hc => by
    obtain ⟨item, hitem, h⟩ := Failing.bind_eq_ok.1 h
    obtain ⟨rest, hrest, -⟩ := Failing.bind_eq_ok.1 h
    rcases List.mem_append.1 hc with hc | hc
    · exact compiled_of_atomItem hitem c hc
    · exact compiled_of_conjItems hrest c hc

theorem compiled_of_atomItem : ∀ {t : Atom} {item : Item}, atomItem E t = .ok item →
    ∀ c ∈ atomComparisons t, ∃ l r item, Compiled E c l r item
  | .comparison d, item, h, c, hc => by
    obtain rfl := List.mem_singleton.1 hc
    obtain ⟨l, hl, h⟩ := Failing.bind_eq_ok.1 h
    obtain ⟨r, hr, h⟩ := Failing.bind_eq_ok.1 h
    exact ⟨l, r, item, hl, hr, h⟩
  | .paren e, item, h, c, hc => by
    obtain ⟨k, hk, -⟩ := Failing.map_eq_ok.1 h
    exact compiled_of_compileExpr hk c hc

end

/-- Every comparison of an accepted filter applies its operator to its operands, exactly if the
builders have a branch for their kinds. -/
theorem operators_faithful_iff {s : Text} {k : Cond} {e : Expr} (h : parseFilter E s = .ok k)
    (he : parseText s = some e) : ∀ c ∈ exprComparisons e, ∃ l r item, Compiled E c l r item ∧
      (Emits E l c.op r item ↔ supported c.op (kind l) (kind r) = true) := by
  intro c hc
  rcases parseFilter_eq_ok h with hblank | ⟨-, e', he', hk⟩
  · rw [parseText_blank hblank] at he
    cases he
  · rw [he] at he'
    obtain rfl := Option.some.inj he'
    obtain ⟨l, r, item, hcompiled⟩ := compiled_of_compileExpr hk c hc
    exact ⟨l, r, item, hcompiled, emits_iff hcompiled.2.2⟩

end

/-! ## Two filters -/

/-- Posts, with no relations. -/
def postsEnv : FilterEnv where
  rt := .simple
  ctx := {}
  relations := {}
  collections := none
  table := "posts"

def tagsOperand : Operand := .fieldPath ⟨"tags:each", [], fun _ => by decide⟩

def tagsEach : Node := .fieldModifier "tags" .each

/-- `tags:each ~ 'x'` -/
def eachLike : Comparison := ⟨tagsOperand, .like, .string "'x'"⟩

theorem each_like_faithful : ∃ k, parseFilter postsEnv "tags:each ~ 'x'" = .ok k ∧
    ∃ l r item, Compiled postsEnv eachLike l r item ∧
      (Emits postsEnv l .like r item ↔ supported .like (kind l) (kind r) = true) := by
  have hok : (parseFilter postsEnv "tags:each ~ 'x'").isOk = true := by decide +kernel
  have hparse : parseText "tags:each ~ 'x'" = some (.one (.one (.comparison eachLike))) :=
    parseText_eq_some.2 (by decide +kernel)
  cases h : parseFilter postsEnv "tags:each ~ 'x'" with
  | error e =>
    rw [h] at hok
    cases hok
  | ok k => exact ⟨k, rfl, operators_faithful_iff h hparse eachLike (List.mem_singleton.2 rfl)⟩

/-- `tags:each ?!= 'x'` -/
def eachNotAny : Comparison := ⟨tagsOperand, .anyNe, .string "'x'"⟩

/-- A negated operator is compiled to an equality. -/
theorem negation_dropped :
    postsEnv.comparison tagsEach .anyNe (.literal (.text "x")) = .ok (.sql
      (.each (.column (some "posts") "tags")
        (.compare .eq (.column none "_elem") (.value (.text "x"))))) ∧
    ¬∀ s k e, parseFilter postsEnv s = .ok k → parseText s = some e → ∀ c ∈ exprComparisons e,
      ∃ l r item, Compiled postsEnv c l r item ∧ Emits postsEnv l c.op r item := by
  refine ⟨rfl, fun h => ?_⟩
  have hok : (parseFilter postsEnv "tags:each ?!= 'x'").isOk = true := by decide +kernel
  have hparse : parseText "tags:each ?!= 'x'" = some (.one (.one (.comparison eachNotAny))) :=
    parseText_eq_some.2 (by decide +kernel)
  cases hk : parseFilter postsEnv "tags:each ?!= 'x'" with
  | error e =>
    rw [hk] at hok
    cases hok
  | ok k =>
    obtain ⟨l, r, item, ⟨hl, hr, hitem⟩, hemits⟩ :=
      h _ _ _ hk hparse eachNotAny (List.mem_singleton.2 rfl)
    have hs := (emits_iff hitem).1 hemits
    obtain rfl : tagsEach = l := Except.ok.inj hl
    obtain rfl : .literal (.text "x") = r := Except.ok.inj hr
    exact absurd hs (by decide)

end Fidelity

end PPBase
