import PPBase.Grammar
import PPBase.RelationIndex
import PPBase.Sql

/-!
# The filter compiler

`_FilterTransformer` and `parse_filter`. Operands become nodes, comparisons become items,
and `and_expr` merges the items of one conjunction that traverse the same relation or name
the same `@collection` into one `EXISTS`. An expression in parentheses and each side of
`||` is a plain condition before the conjunction around it sees it, since the grammar's
aliases make `or_expr` and `and_expr` run on every expression.

Bound parameters stand in the condition as their values. The relation resolver is always
the flat index `_build_filter_resolvers` returns.
-/

namespace PPBase

open Sql

/-- What the filter parser raises. -/
inductive FilterError
  | syntaxError
  | number (raw : Text)
  | identChar (c : Char)
  | fieldChar (c : Char)
  | collectionRef (ref : Text)
  | traversal (path : Text)
  | missingMetadata (path : Text)
  | nestedBothSides
  | eachBothSides
  | eachAlone
  deriving DecidableEq

namespace FilterError

/-- The text of the `ValueError`. The syntax error goes on with the parser's own message. -/
def message : FilterError → Text
  | syntaxError => "Invalid filter syntax: "
  | number raw => ("invalid literal for int() with base 10: '" : Text) ++ raw ++ ("'" : Text)
  | identChar c => ("Invalid character in identifier: '" : Text) ++ [c, '\'']
  | fieldChar c => ("Invalid character in field name: '" : Text) ++ [c, '\'']
  | collectionRef ref => ("Invalid @collection reference: @" : Text) ++ ref ++
      (". Expected format: @collection.collectionName.fieldName" : Text)
  | traversal p => ("Invalid relation traversal: " : Text) ++ p ++
      (". Only relation, back-relation, or JSON segments may be chained " : Text) ++
      ("before the final field name." : Text)
  | missingMetadata p => ("Invalid @collection relation traversal: " : Text) ++ p ++
      (". Missing relation metadata for the referenced collection." : Text)
  | nestedBothSides => "Comparisons between two nested relation traversals are not supported."
  | eachBothSides => "Comparisons with :each on both sides are not supported."
  | eachAlone => "The :each modifier can only be used as part of a comparison expression."

end FilterError

/-- `_MODIFIER_NAMES` -/
inductive Modifier
  | isset | changed | length | each | lower
  deriving DecidableEq, Repr

def Modifier.ofText? (s : Text) : Option Modifier :=
  if s = "isset" then some isset
  else if s = "changed" then some changed
  else if s = "length" then some length
  else if s = "each" then some each
  else if s = "lower" then some lower
  else none

/-- `_split_modifier` -/
def splitModifier (raw : Text) : Text × Option Modifier :=
  match Text.rsplit? ':' raw with
  | some (base, suffix) =>
    match Modifier.ofText? suffix with
    | some m => if base = [] then (raw, none) else (base, some m)
    | none => (raw, none)
  | none => (raw, none)

/-- `_sanitize_ident` -/
def sanitizeIdent (s : Text) : Except FilterError Text :=
  match s.find? fun c => !Text.isIdentChar c with
  | some c => .error (.identChar c)
  | none => .ok s

/-- The classes of operators : the four operator maps of the source. -/
inductive OpClass
  | standard (op : CompareOp)
  | like (negated : Bool)
  | anyStandard (op : CompareOp)
  | anyLike (negated : Bool)

def Operator.opClass : Operator → OpClass
  | .eq => .standard .eq
  | .ne => .standard .ne
  | .gt => .standard .gt
  | .ge => .standard .ge
  | .lt => .standard .lt
  | .le => .standard .le
  | .like => .like false
  | .notLike => .like true
  | .anyEq => .anyStandard .eq
  | .anyNe => .anyStandard .ne
  | .anyGt => .anyStandard .gt
  | .anyGe => .anyStandard .ge
  | .anyLt => .anyStandard .lt
  | .anyLe => .anyStandard .le
  | .anyLike => .anyLike false
  | .anyNotLike => .anyLike true

/-- `_STANDARD_OPS.get(op, "=")` -/
def Operator.standardOrEq (o : Operator) : CompareOp :=
  match o.opClass with
  | .standard op => op
  | _ => .eq

/-- `_TraversalStep` -/
structure Step where
  relationKey : Text
  info : RelationInfo
  deriving DecidableEq

/-- `_ResolvedPath` -/
structure ResolvedPath where
  steps : List Step
  sql : Term
  isJson : Bool := false
  fieldType : Option FieldType := none

/-- Transformed operands. -/
inductive Node
  | literal (v : Value)
  | null
  | field (name : Text) (type : Option FieldType)
  | fieldModifier (name : Text) (m : Modifier)
  | relationRef (steps : List Step) (sql : Term) (isJson : Bool) (type : Option FieldType)
  | sqlRef (sql : Term) (isJson : Bool) (type : Option FieldType)
  | collectionRef (coll : Text) (path : List Text) (groupKey : Text)
  | macroName (name : Text)

/-- `_CollectionRef`. A reference without steps is a column. -/
structure CollectionRef where
  table : Text
  groupKey : Text
  steps : List Step
  sql : Term
  isJson : Bool
  type : Option FieldType

/-- What a conjunction collects : SQL, a `_CollectionCondition` or a `_RelationCondition`. -/
inductive Item
  | sql (c : Cond)
  | collection (table groupKey : Text) (inner : Cond)
  | relation (key table : Text) (join whereCond : Cond)

/-- The arguments of `parse_filter` other than the filter. -/
structure FilterEnv where
  rt : Runtime
  ctx : RequestContext
  relations : RelationIndex
  collections : Option RelationIndex
  table : Text

/-- `_SYSTEM_FIELD_TYPES` -/
def systemFieldType? (field : Text) : Option FieldType :=
  if field = "id" then some .text
  else if field = "created" then some .autodate
  else if field = "updated" then some .autodate
  else none

def isDatetime (t : Option FieldType) : Bool := t = some .date || t = some .autodate

def isJsonType (t : Option FieldType) : Bool := t = some .json || t = some .geoPoint

/-! ## Literals -/

/-- `_unescape_text` -/
def unescapeText : Text → Text
  | [] => []
  | '\\' :: [] => ['\\']
  | '\\' :: c :: cs =>
    (match c with
    | 'n' => ['\n']
    | 't' => ['\t']
    | 'r' => ['\r']
    | '\\' => ['\\']
    | '\'' => ['\'']
    | '"' => ['"']
    | c => ['\\', c]) ++ unescapeText cs
  | c :: cs => c :: unescapeText cs

/-- `number` -/
def numberLiteral (rt : Runtime) (raw : Text) : Except FilterError Node :=
  match rt.float raw with
  | none => .error (.number raw)
  | some q =>
    if q.isInt ∧ '.' ∉ raw then
      match rt.int raw with
      | some n => .ok (.literal (.num n))
      | none => .error (.number raw)
    else .ok (.literal (.num q))

/-- The text `_literal_for_field_type` gives to `fromisoformat`. -/
def normalizeIso (s : Text) : Text :=
  let s := s.flatMap fun c => if c = 'Z' then ("+00:00" : Text) else [c]
  if ' ' ∈ s ∧ 'T' ∉ s then s.takeWhile (· ≠ ' ') ++ 'T' :: (s.dropWhile (· ≠ ' ')).tail else s

/-- `_literal_for_field_type` -/
def literalForFieldType (rt : Runtime) (n : Node) (type : Option FieldType) : Node :=
  match n with
  | .literal (.text s) =>
    if isDatetime type ∧ Text.strip s ≠ [] then
      match rt.fromIsoFormat (normalizeIso (Text.strip s)) with
      | some t => .literal (.time t)
      | none => n
    else n
  | _ => n

/-! ## Paths -/

/-- `_step_from_info` -/
def stepFromInfo (segment : Text) (info : RelationInfo) : Except FilterError Step := do
  let table ← sanitizeIdent info.table
  let field ← sanitizeIdent info.field
  let key ← sanitizeIdent segment
  return ⟨key, { info with table := table, field := field }⟩

/-- The loop of `_resolve_dotted_path` : `steps` lead to `table`, the segments are left. -/
def resolveFrom (idx : RelationIndex) (allowUnresolved optimizeId : Bool) (whole : Text) :
    Text → List Step → List Text → Except FilterError (Option ResolvedPath)
  | _, _, [] => .ok none
  | table, steps, [part] =>
    .ok (some
      { steps := steps
        sql := .column (some table) part
        fieldType := (idx.fieldType? table part).or (systemFieldType? part) })
  | table, steps, part :: next :: rest =>
    if isJsonType (idx.fieldType? table part) then
      .ok (some
        { steps := steps
          sql := .jsonPath (.column (some table) part) (next :: rest)
          isJson := true })
    else
      match idx.relationInfo? table part with
      | some info => do
        let step ← stepFromInfo part info
        if optimizeId ∧ step.info.kind = .forward ∧ step.info.maxSelect ≤ 1 ∧ next = "id" ∧
            rest = [] then
          return some
            { steps := steps
              sql := .column (some table) step.info.field
              fieldType := some .relation }
        else
          resolveFrom idx allowUnresolved optimizeId whole step.info.table (steps ++ [step])
            (next :: rest)
      | none =>
        if steps ≠ [] then .error (.traversal whole)
        else if allowUnresolved then .ok none
        else .error (.missingMetadata whole)

/-- `_resolve_dotted_path` -/
def resolveDottedPath (idx : RelationIndex) (allowUnresolved optimizeId : Bool) (start : Text)
    (parts : List Text) : Except FilterError (Option ResolvedPath) := do
  let parts ← parts.mapM sanitizeIdent
  let start ← sanitizeIdent start
  resolveFrom idx allowUnresolved optimizeId (Text.join '.' parts) start [] parts

namespace FilterEnv

variable (E : FilterEnv)

/-- `_field_type_for_table`, for the current table. -/
def fieldTypeForTable (field : Text) : Except FilterError (Option FieldType) := do
  let field ← sanitizeIdent field
  return (systemFieldType? field).or (E.relations.fieldType? E.table field)

/-- `_field_expr` -/
def fieldExpr (name : Text) : Except FilterError Term :=
  match name.find? fun c => !Text.isIdentChar c && c != '.' with
  | some c => .error (.fieldChar c)
  | none => .ok (if '.' ∈ name then .raw name else .column (some E.table) name)

/-- `field_path` -/
def fieldPath (parts : List Text) : Except FilterError Node := do
  let (base, modifier) := splitModifier (parts.getLastD [])
  let parts := parts.dropLast ++ [base]
  let name := Text.join '.' parts
  let plain : Except FilterError Node :=
    match modifier with
    | some m => .ok (.fieldModifier name m)
    | none => if parts.length = 1 then .field name <$> E.fieldTypeForTable name else .ok (.field name none)
  if 2 ≤ parts.length then
    match ← resolveDottedPath E.relations true false E.table parts with
    | some r =>
      if r.steps ≠ [] then return .relationRef r.steps r.sql r.isJson r.fieldType
      else if r.isJson then return .sqlRef r.sql r.isJson r.fieldType
      else plain
    | none => plain
  else plain

/-- `macro` -/
def macroNode (name : Text) : Except FilterError Node :=
  let stripped := name.dropWhile (· = '@')
  if (Text.afterPrefix? "collection." stripped).isSome then
    match Text.split '.' stripped with
    | _ :: coll :: field :: rest =>
      if coll = [] ∨ field = [] then .error (.collectionRef stripped)
      else do
        let path ← ((field :: rest).filter (· ≠ [])).mapM sanitizeIdent
        if ':' ∈ coll then
          let name ← sanitizeIdent (coll.takeWhile (· ≠ ':'))
          let aliasKey ← sanitizeIdent (coll.dropWhile (· ≠ ':')).tail
          return .collectionRef name path (name ++ ':' :: aliasKey)
        else
          let name ← sanitizeIdent coll
          return .collectionRef name path name
    | _ => .error (.collectionRef stripped)
  else .ok (.macroName name)

/-- The callbacks of the operand rules. -/
def operandNode : Operand → Except FilterError Node
  | .string raw => .ok (.literal (.text (unescapeText (raw.drop 1).dropLast)))
  | .number raw => numberLiteral E.rt raw
  | .trueVal => .ok (.literal (.bool true))
  | .falseVal => .ok (.literal (.bool false))
  | .null => .ok .null
  | .macroName name => macroNode name
  | .fieldPath p => E.fieldPath p.parts

/-! ## Macros -/

/-- `_value_length` -/
def valueLength : Value → ℕ
  | .null => 0
  | .text s => s.length
  | .list vs => vs.length
  | .obj fs => fs.length
  | _ => 1

/-- The values of an `:each` operand. -/
def eachValues (rt : Runtime) : Option Value → Value
  | some (.list vs) => .list (vs.map fun v => .text (rt.str v))
  | some .null | none => .list []
  | some v => .list [.text (rt.str v)]

def clock? (name : Text) : Option Clock :=
  let table : Dict Text Clock :=
    [("now", .now), ("second", .second), ("minute", .minute), ("hour", .hour),
      ("weekday", .weekday), ("day", .day), ("month", .month), ("year", .year),
      ("yesterday", .yesterday), ("tomorrow", .tomorrow), ("todayStart", .todayStart),
      ("todayEnd", .todayEnd), ("monthStart", .monthStart), ("monthEnd", .monthEnd),
      ("yearStart", .yearStart), ("yearEnd", .yearEnd)]
  table.get? name

/-- `request.body.` or `request.data.`, and what follows. -/
def bodyMacro? (name : Text) : Option Text :=
  (Text.afterPrefix? "request.body." name).or (Text.afterPrefix? "request.data." name)

/-- `@request.body.*` and `@request.data.*` of `_resolve_macro`. -/
def resolveBodyMacro (fieldAndModifier : Text) : Except FilterError Term :=
  let (field, modifier) := splitModifier fieldAndModifier
  let val := E.ctx.data.get? field
  match modifier with
  | some .isset => .ok (.value (.bool val.isSome))
  | some .length => .ok (.value (.num ((val.map valueLength).getD 0 : ℕ)))
  | some .changed =>
    match val with
    | none => .ok (.value (.bool false))
    | some v => do
      let field ← sanitizeIdent field
      return .changed (.column none field) v
  | some .each => .ok (.value (eachValues E.rt val))
  | some .lower =>
    match val with
    | some .null | none => .ok (.value (.text []))
    | some v => .ok (.value (.text (E.rt.lower (E.rt.str v))))
  | none => .ok (.value (val.getD (.text [])))

/-- `headers.get(a) or headers.get(b) or ""`, for a header macro. -/
def headerValue (headers : Dict Text Value) (field : Text) : Value :=
  let first := (headers.get? (Text.lower field)).getD .null
  let second := (headers.get? field).getD .null
  if first.truthy then first else if second.truthy then second else .text []

/-- `_resolve_macro`, on the name without `@`. -/
def resolveMacro (name : Text) : Except FilterError Term :=
  match E.ctx.resolved.get? name with
  | some v => .ok (.value v)
  | none =>
    match clock? name with
    | some c => .ok (.clock c)
    | none =>
      if name = "request.context" then .ok (.value (.text E.ctx.context))
      else if name = "request.method" then .ok (.value (.text E.ctx.method))
      else
        match Text.afterPrefix? "request.headers." name with
        | some field => .ok (.value (headerValue E.ctx.headers field))
        | none =>
          match Text.afterPrefix? "request.auth." name with
          | some field => .ok (.value ((E.ctx.auth.get? field).getD (.text [])))
          | none =>
            match bodyMacro? name with
            | some f => E.resolveBodyMacro f
            | none =>
              match Text.afterPrefix? "request.query." name with
              | some field => .ok (.value ((E.ctx.query.get? field).getD (.text [])))
              | none => .ok (.value (.text []))

/-! ## Operands -/

/-- The payload value `field:changed` compares with : of the path, or of its leaf. -/
def dataValue? (name : Text) : Option Value :=
  (E.ctx.data.get? name).or (E.ctx.data.get? ((Text.split '.' name).getLastD []))

/-- `_resolve_field_modifier` -/
def resolveFieldModifier (name : Text) (m : Modifier) : Except FilterError Term := do
  let t ← E.fieldExpr name
  match m with
  | .isset => return .notNull t
  | .length => return .length t
  | .changed =>
    match E.dataValue? name with
    | none => return .value (.bool false)
    | some v => return .changed t v
  | .lower => return .lower t
  | .each => throw .eachAlone

/-- `_operand_to_sql`. A collection reference on the far side of a relation traversal
becomes its collection's bare name, and a relation reference never gets here. -/
def operandToSql : Node → Except FilterError Term
  | .literal v => .ok (.value v)
  | .null => .ok (.value .null)
  | .field name _ => E.fieldExpr name
  | .fieldModifier name m => E.resolveFieldModifier name m
  | .sqlRef t _ _ => .ok t
  | .macroName name => E.resolveMacro (name.dropWhile (· = '@'))
  | .collectionRef coll _ _ => .ok (.raw coll)
  | .relationRef _ t _ _ => .ok t

end FilterEnv

namespace Node

/-- `_operand_field_type` -/
def fieldType : Node → Option FieldType
  | field _ t | relationRef _ _ _ t | sqlRef _ _ t => t
  | _ => none

/-- `_is_json_operand` -/
def isJson (n : Node) : Bool :=
  match n with
  | sqlRef _ true _ | relationRef _ _ true _ => true
  | n => isJsonType n.fieldType

/-- `_is_empty_operand` -/
def isEmpty : Node → Bool
  | null => true
  | literal (.text []) => true
  | _ => false

def isNull : Node → Bool
  | null => true
  | _ => false

def isLiteral : Node → Bool
  | literal _ => true
  | _ => false

end Node

/-! ## Comparisons -/

/-- `_coerce_comparison_literals` -/
def coerceLiterals (rt : Runtime) (l r : Node) : Node × Node :=
  (if isDatetime r.fieldType then literalForFieldType rt l r.fieldType else l,
    if isDatetime l.fieldType then literalForFieldType rt r l.fieldType else r)

/-- `_empty_equality_sql` -/
def emptyEqualitySql (op : CompareOp) (l : Node) (lt : Term) (r : Node) (rt : Term) :
    Option Cond :=
  if op ≠ .eq ∧ op ≠ .ne then none
  else if !l.isEmpty && !r.isEmpty then none
  else if l.isEmpty && r.isEmpty then some (if op = .eq then .tt else .ff)
  else
    let (other, t) := if l.isEmpty then (r, rt) else (l, lt)
    if other.isLiteral || other.isJson then none
    else if op = .eq then some (.or (.compare .eq (.text t) (.value (.text []))) (.isNull (.text t)))
    else some (.and (.compare .ne (.text t) (.value (.text []))) (.notNull (.text t)))

/-- A comparison with `NULL` on the `other` side. -/
def nullComparison (op : CompareOp) (t : Term) : Cond :=
  match op with
  | .eq => .isNull t
  | .ne => .notNull t
  | op => .compare op t (.value .null)

/-- `_like_pattern_sql` -/
def likePattern (rt : Runtime) (n : Node) (t : Term) : Term :=
  match n with
  | .literal v => .value (.text ('%' :: (rt.str v ++ ['%'])))
  | .null => .value .null
  | _ => .pattern t

/-- `_like_comparison_sql` -/
def likeComparison (rt : Runtime) (m : Term) (n : Node) (t : Term) (negated : Bool) : Cond :=
  .ilike negated (.text m) (likePattern rt n t)

/-- `_elem.value` -/
def elemValue : Term := .column (some "_elem") "value"

/-- `_scalar_or_array_any_sql` -/
def scalarOrArrayAny (container v : Term) (op : CompareOp) : Cond :=
  match op with
  | .eq | .ne =>
    .caseArray container (.compare op (.text v) elemValue) (.compare op (.text v) (.text container))
  | op => .any op v container

/-- `_scalar_or_array_like_sql` -/
def scalarOrArrayLike (container pattern : Term) (negated : Bool) : Cond :=
  .caseArray container (.ilike negated elemValue pattern) (.ilike negated (.text container) pattern)

/-- The comparison of a traversed column with another operand, as `_relation_comparison`
and `_collection_ref_condition` build it. -/
def refCondition (rt : Runtime) (ref : Node) (t : Term) (o : Operator) (other : Node)
    (ot : Term) (refIsLeft : Bool) : Cond :=
  match o.opClass with
  | .standard op =>
    match emptyEqualitySql op ref t other ot with
    | some c => c
    | none =>
      if other.isNull then nullComparison op t
      else if refIsLeft then .compare op t ot
      else .compare op ot t
  | .like negated =>
    if refIsLeft then likeComparison rt t other ot negated
    else likeComparison rt ot (.sqlRef t false none) t negated
  | .anyStandard op => if refIsLeft then scalarOrArrayAny t ot op else scalarOrArrayAny ot t op
  | .anyLike negated =>
    if refIsLeft then scalarOrArrayLike t (likePattern rt other ot) negated
    else scalarOrArrayLike ot (likePattern rt (.sqlRef t false none) t) negated

/-- `_join_condition_for_step`, from the parent table. -/
def joinCondition (s : Step) (parent : Text) : Cond :=
  match s.info.kind with
  | .back =>
    let target := .column (some s.info.table) s.info.field
    let parentId := .column (some parent) "id"
    if 1 < s.info.maxSelect then scalarOrArrayAny target parentId .eq
    else .compare .eq target parentId
  | .forward =>
    let source := .column (some parent) s.info.field
    let targetId := .column (some s.info.table) "id"
    if 1 < s.info.maxSelect then scalarOrArrayAny source targetId .eq
    else .compare .eq targetId source

/-- `_wrap_collection_relation_exists` and `_wrap_nested_relation_exists`. -/
def wrapExists (parent : Text) : List Step → Cond → Cond
  | [], c => c
  | s :: ss, c =>
    .existsIn [s.info.table] (.and (joinCondition s parent) (wrapExists s.info.table ss c))

namespace FilterEnv

variable (E : FilterEnv)

/-- `_relation_condition_for_steps` -/
def relationConditionForSteps (steps : List Step) (c : Cond) : Item :=
  match steps with
  | [] => .sql c
  | s :: ss => .relation s.relationKey s.info.table (joinCondition s E.table) (wrapExists s.info.table ss c)

/-- `_relation_comparison` with a traversal on one side. -/
def relationComparison (steps : List Step) (ref : Node) (t : Term) (o : Operator) (other : Node)
    (refIsLeft : Bool) : Except FilterError Item := do
  let ot ← E.operandToSql other
  return E.relationConditionForSteps steps (refCondition E.rt ref t o other ot refIsLeft)

/-- `_relation_comparison` with traversals on both sides. -/
def relationPairComparison (ls : List Step) (lt : Term) (o : Operator) (rs : List Step)
    (rt : Term) : Except FilterError Item :=
  match ls, rs with
  | [l], [r] =>
    .ok (.sql (.existsIn [l.info.table, r.info.table]
      (.and (joinCondition l E.table)
        (.and (joinCondition r E.table) (.compare o.standardOrEq lt rt)))))
  | _, _ => .error .nestedBothSides

/-- `_resolve_collection_ref` -/
def resolveCollectionRef (coll : Text) (path : List Text) (key : Text) :
    Except FilterError CollectionRef := do
  let idx := E.collections.getD {}
  match path with
  | [f] =>
    return ⟨coll, key, [], .column (some coll) f, false,
      (systemFieldType? f).or (idx.fieldType? coll f)⟩
  | path =>
    match ← resolveDottedPath idx false true coll path with
    | none => throw (.missingMetadata (Text.join '.' path))
    | some r => return ⟨coll, key, r.steps, r.sql, r.isJson && r.steps ≠ [], r.fieldType⟩

/-- `_collection_comparison` with a reference on one side. -/
def collectionComparison (ref : CollectionRef) (o : Operator) (other : Node) (refIsLeft : Bool) :
    Except FilterError Item := do
  let other := literalForFieldType E.rt other ref.type
  let ot ← E.operandToSql other
  let c := refCondition E.rt (.sqlRef ref.sql ref.isJson ref.type) ref.sql o other ot refIsLeft
  return .collection ref.table ref.groupKey (wrapExists ref.table ref.steps c)

/-- `_collection_comparison` with references on both sides. -/
def collectionPairComparison (l : CollectionRef) (o : Operator) (r : CollectionRef) : Item :=
  let inner := wrapExists r.table r.steps
    (wrapExists l.table l.steps (.compare o.standardOrEq l.sql r.sql))
  if l.groupKey = r.groupKey then .collection l.table l.groupKey inner
  else .sql (.existsIn [l.table, r.table] inner)

/-- `_extract_each_operand` : the array of an `:each` operand. -/
def extractEachOperand : Node → Except FilterError (Option Term)
  | .fieldModifier name .each => some <$> E.fieldExpr name
  | .macroName name =>
    match bodyMacro? (name.dropWhile (· = '@')) with
    | some f =>
      match splitModifier f with
      | (field, some .each) => .ok (some (.value (eachValues E.rt (E.dataValue? field))))
      | _ => .ok none
    | none => .ok none
  | _ => .ok none

/-- `_build_each_item_condition` -/
def eachItemCondition (o : Operator) (other : Node) (eachIsLeft : Bool) :
    Except FilterError Cond := do
  let item : Term := .column none "_elem"
  let ot ← E.operandToSql other
  match o.opClass with
  | .standard _ | .like _ =>
    return refCondition E.rt (.sqlRef item false none) item o other ot eachIsLeft
  | _ => return if eachIsLeft then .compare .eq item ot else .compare .eq ot item

/-- The regular comparison of two scalar operands. -/
def regularComparison (l : Node) (o : Operator) (r : Node) : Except FilterError Cond := do
  let lt ← E.operandToSql l
  let rt ← E.operandToSql r
  match o.opClass with
  | .standard op =>
    match emptyEqualitySql op l lt r rt with
    | some c => return c
    | none =>
      if r.isNull ∧ (op = .eq ∨ op = .ne) then return nullComparison op lt
      else if l.isNull ∧ (op = .eq ∨ op = .ne) then return nullComparison op rt
      else return .compare op lt rt
  | .like negated => return likeComparison E.rt lt r rt negated
  | .anyStandard op => return scalarOrArrayAny lt rt op
  | .anyLike negated => return scalarOrArrayLike lt (likePattern E.rt r rt) negated

/-- `comparison`, by the kinds of its operands. -/
def compareNodes (l : Node) (o : Operator) (r : Node) : Except FilterError Item :=
  match l, r with
  | .relationRef ls lt _ _, .relationRef rs rt _ _ => E.relationPairComparison ls lt o rs rt
  | .relationRef ls lt _ _, r => E.relationComparison ls l lt o r true
  | l, .relationRef rs rt _ _ => E.relationComparison rs r rt o l false
  | .collectionRef lc lp lk, .collectionRef rc rp rk => do
    let l ← E.resolveCollectionRef lc lp lk
    let r ← E.resolveCollectionRef rc rp rk
    return collectionPairComparison l o r
  | .collectionRef lc lp lk, r => do
    let l ← E.resolveCollectionRef lc lp lk
    E.collectionComparison l o r true
  | l, .collectionRef rc rp rk => do
    let r ← E.resolveCollectionRef rc rp rk
    E.collectionComparison r o l false
  | l, r => do
    match ← E.extractEachOperand l, ← E.extractEachOperand r with
    | some _, some _ => throw .eachBothSides
    | some a, none => return .sql (.each a (← E.eachItemCondition o r true))
    | none, some a => return .sql (.each a (← E.eachItemCondition o l false))
    | none, none => .sql <$> E.regularComparison l o r

/-- `comparison`. Only standard operators coerce date literals first. -/
def comparison (l : Node) (o : Operator) (r : Node) : Except FilterError Item :=
  match o.opClass with
  | .standard _ => E.compareNodes (coerceLiterals E.rt l r).1 o (coerceLiterals E.rt l r).2
  | _ => E.compareNodes l o r

end FilterEnv

/-! ## Expressions -/

/-- The `EXISTS` of one group of collection conditions. -/
def collectionGroup (g : List (Text × Cond)) : Cond :=
  .existsIn [(g.head?.map Prod.fst).getD []] (Cond.conj (g.map Prod.snd))

/-- The `EXISTS` of one group of relation conditions, joined once. -/
def relationGroup (g : List (Text × Cond × Cond)) : Cond :=
  match g with
  | [] => .tt
  | (table, join, _) :: _ => .existsIn [table] (Cond.conj (join :: g.map fun i => i.2.2))

namespace Item

def sqlParts (items : List Item) : List Cond :=
  items.filterMap fun
    | sql c => some c
    | _ => none

def collectionGroups (items : List Item) : Dict Text (List (Text × Cond)) :=
  items.foldl (fun d i =>
    match i with
    | collection table key inner => d.push key (table, inner)
    | _ => d) []

def relationGroups (items : List Item) : Dict Text (List (Text × Cond × Cond)) :=
  items.foldl (fun d i =>
    match i with
    | relation key table join cond => d.push key (table, join, cond)
    | _ => d) []

/-- `and_expr` -/
def andExpr (items : List Item) : Cond :=
  Cond.conj (sqlParts items ++ (collectionGroups items).map (fun e => collectionGroup e.2) ++
    (relationGroups items).map fun e => relationGroup e.2)

end Item

mutual

def compileExpr (E : FilterEnv) : Expr → Except FilterError Cond
  | .one c => Item.andExpr <$> conjItems E c
  | .or c e => do return .or (Item.andExpr (← conjItems E c)) (← compileExpr E e)

def conjItems (E : FilterEnv) : Conj → Except FilterError (List Item)
  | .one a => do return [← atomItem E a]
  | .and a c => do return (← atomItem E a) :: (← conjItems E c)

def atomItem (E : FilterEnv) : Atom → Except FilterError Item
  | .comparison c => do E.comparison (← E.operandNode c.left) c.op (← E.operandNode c.right)
  | .paren e => .sql <$> compileExpr E e

end

/-- `_parser.parse` -/
def parseText (s : Text) : Option Expr := (lex s).bind parseTokens

/-- `parse_filter` -/
def parseFilter (E : FilterEnv) (s : Text) : Except FilterError Cond :=
  if Text.strip s = [] then .ok .tt
  else
    match parseText s with
    | none => .error .syntaxError
    | some e => do
      let _ ← sanitizeIdent E.table
      compileExpr E e

end PPBase
