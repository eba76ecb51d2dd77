import PPBase.IndexDetection
import PPBase.Modifiers

/-!
# The errors of the filter parser

`parse_filter` turns the parser's errors into `ValueError`, but transforms the tree outside of that
`try`, so that whatever a callback raises reaches the caller as lark's `VisitError`
(`parseFilterOutcome`). `OperandKind` is what a comparison does with an operand, read off the
operand and the resolver alone, and `Comparable` says which comparisons the callbacks accept :
operands that are well formed (`Written`), of kinds that can be related (`Pairs`), with no date out
of range. The operator does not matter. `meetsContract_iff` : a filter is parsed or refused with
`ValueError` exactly if its comparisons are all of this kind.
-/

namespace PPBase

namespace FilterErrors

open Sql Failing

/-! ## Outcomes -/

/-- What the interpreter decides. -/
structure Limits where
  /-- `astimezone` leaves the years a `datetime` has. -/
  overflows : Text → Bool
  /-- The transformer reaches the recursion limit in the tree. -/
  tooDeep : Expr → Bool

/-- How `parse_filter` ends. -/
inductive ParseOutcome
  | returns (c : Cond)
  | valueError (message : Text)
  | visitError
  | recursionError

mutual

/-- The comparisons of an expression, from left to right. -/
def comparisons : Expr → List Comparison
  | .one c => conjComparisons c
  | .or c e => conjComparisons c ++ comparisons e

def conjComparisons : Conj → List Comparison
  | .one a => atomComparisons a
  | .and a c => atomComparisons a ++ conjComparisons c

def atomComparisons : Atom → List Comparison
  | .comparison k => [k]
  | .paren e => comparisons e

end

/-- `_literal_for_field_type` raises `OverflowError`. -/
def outOfRange (L : Limits) (n : Node) (type : Option FieldType) : Bool :=
  match n with
  | .literal (.text s) =>
    isDatetime type && decide (Text.strip s ≠ []) && L.overflows (normalizeIso (Text.strip s))
  | _ => false

/-- The field type that a literal is converted for when it is compared with the node. -/
def literalType (E : FilterEnv) (o : Operator) (n : Node) : Option FieldType :=
  match n with
  | .collectionRef coll path key =>
    match E.resolveCollectionRef coll path key with
    | .ok ref => ref.type
    | .error _ => none
  | n =>
    match o.opClass with
    | .standard _ => n.fieldType
    | _ => none

/-- The callbacks of a comparison raise `OverflowError`. -/
def comparisonOverflows (E : FilterEnv) (L : Limits) (k : Comparison) : Bool :=
  match E.operandNode k.left, E.operandNode k.right with
  | .ok l, .ok r =>
    outOfRange L r (literalType E k.op l) || outOfRange L l (literalType E k.op r)
  | _, _ => false

/-- `parse_filter`. An exception of a callback reaches the caller as a `VisitError`. -/
def parseFilterOutcome (E : FilterEnv) (L : Limits) (s : Text) : ParseOutcome :=
  if Text.strip s = [] then .returns .tt
  else
    match parseText s with
    | none => .valueError FilterError.syntaxError.message
    | some e =>
      match sanitizeIdent E.table with
      | .error err => .valueError err.message
      | .ok _ =>
        if L.tooDeep e then .recursionError
        else if (comparisons e).any (comparisonOverflows E L) then .visitError
        else
          match compileExpr E e with
          | .ok c => .returns c
          | .error _ => .visitError

/-- The status `_default_list_handler` answers a filter with, before its query runs. -/
def listStatus : ParseOutcome → Option ℕ
  | .returns _ => none
  | .valueError _ => some 400
  | .visitError | .recursionError => some 500

/-- The filter is parsed or refused as its docstring says, and the list endpoint does not fail. -/
def MeetsContract (p : ParseOutcome) : Prop :=
  ((∃ c, p = .returns c) ∨ ∃ m, p = .valueError m) ∧ listStatus p ≠ some 500

theorem parseFilter_of_returns {E : FilterEnv} {L : Limits} {s : Text} {c : Cond}
    (h : parseFilterOutcome E L s = .returns c) : parseFilter E s = .ok c := by
  unfold parseFilterOutcome at h
  unfold parseFilter
  split_ifs at h ⊢ with hblank
  · rw [ParseOutcome.returns.inj h]
  · cases hparse : parseText s with
    | none =>
      rw [hparse] at h
      cases h
    | some e =>
      rw [hparse] at h
      dsimp only at h ⊢
      cases htable : sanitizeIdent E.table with
      | error err =>
        rw [htable] at h
        cases h
      | ok t =>
        rw [htable] at h
        dsimp only at h
        split_ifs at h
        cases hc : compileExpr E e with
        | error err =>
          rw [hc] at h
          cases h
        | ok c' =>
          rw [hc] at h
          rw [← ParseOutcome.returns.inj h, ← hc]
          rfl

/-! ## What the operands are -/

/-- The characters of an identifier. -/
def IsIdent (t : Text) : Prop := ∀ c ∈ t, Text.isIdentChar c = true

instance : DecidablePred IsIdent := fun t => inferInstanceAs (Decidable (∀ c ∈ t, _))

/-- Each segment of the path but the last is a JSON field or a relation with clean metadata. -/
def Follows (idx : RelationIndex) : Text → List Text → Prop
  | table, part :: next :: rest =>
    isJsonType (idx.fieldType? table part) = true ∨
      ∃ info, idx.relationInfo? table part = some info ∧ IsIdent info.table ∧ IsIdent info.field ∧
        Follows idx info.table (next :: rest)
  | _, _ => True

/-- How many relations the path traverses. -/
def hops (idx : RelationIndex) : Text → List Text → ℕ
  | table, part :: next :: rest =>
    if isJsonType (idx.fieldType? table part) then 0
    else
      match idx.relationInfo? table part with
      | some info => hops idx info.table (next :: rest) + 1
      | none => 0
  | _, _ => 0

/-- The type of the field at the end of the path. -/
def landing (idx : RelationIndex) (optimizeId : Bool) : Text → List Text → Option FieldType
  | _, [] => none
  | table, [part] => (idx.fieldType? table part).or (systemFieldType? part)
  | table, part :: next :: rest =>
    if isJsonType (idx.fieldType? table part) then none
    else
      match idx.relationInfo? table part with
      | some info =>
        if optimizeId ∧ info.kind = .forward ∧ info.maxSelect ≤ 1 ∧ next = "id" ∧ rest = [] then
          some .relation
        else landing idx optimizeId info.table (next :: rest)
      | none => none

/-- The path goes on below a JSON field of the table. -/
def intoJson (idx : RelationIndex) (table : Text) : List Text → Bool
  | part :: _ :: _ => isJsonType (idx.fieldType? table part)
  | _ => false

/-- The path starts with no relation, or can be followed. -/
def FieldFollows (idx : RelationIndex) (table : Text) : List Text → Prop
  | [] => True
  | part :: rest => idx.relationInfo? table part = none ∨ Follows idx table (part :: rest)

/-- What a comparison does with an operand. -/
inductive OperandKind
  | plain (type : Option FieldType)
  | fieldEach
  | requestEach
  | traversal (hops : ℕ) (type : Option FieldType)
  | reference (coll : Text) (path : List Text)
  deriving DecidableEq

namespace OperandKind

def isEach : OperandKind → Bool
  | fieldEach | requestEach => true
  | _ => false

end OperandKind

/-- The segments of a path, without its modifier. -/
def pathParts (p : FieldPath) : List Text :=
  p.parts.dropLast ++ [(splitModifier (p.parts.getLastD [])).1]

def pathModifier (p : FieldPath) : Option Modifier := (splitModifier (p.parts.getLastD [])).2

/-- The collection, with its alias, and the path of an `@collection` macro. -/
def collectionParts? (name : Text) : Option (Text × List Text) :=
  match Text.split '.' (name.dropWhile (· = '@')) with
  | _ :: coll :: field :: rest =>
    if coll = [] ∨ field = [] then none else some (coll, (field :: rest).filter (· ≠ []))
  | _ => none

/-- `@request.body.field:each` -/
def isEachMacro (name : Text) : Bool :=
  match FilterEnv.bodyMacro? (name.dropWhile (· = '@')) with
  | some f => (splitModifier f).2 = some .each
  | none => false

section

variable (E : FilterEnv)

/-- The type of a field of the record itself. -/
def columnType (p : FieldPath) : Option FieldType :=
  match pathParts p, pathModifier p with
  | [name], none => (systemFieldType? name).or (E.relations.fieldType? E.table name)
  | _, _ => none

def pathKind (p : FieldPath) : OperandKind :=
  if hops E.relations E.table (pathParts p) ≠ 0 then
    .traversal (hops E.relations E.table (pathParts p))
      (landing E.relations false E.table (pathParts p))
  else if pathModifier p = some .each ∧ intoJson E.relations E.table (pathParts p) = false then
    .fieldEach
  else .plain (columnType E p)

def macroKind (name : Text) : OperandKind :=
  if isCollectionMacro name then
    match collectionParts? name with
    | some (coll, path) => .reference (coll.takeWhile (· ≠ ':')) path
    | none => .plain none
  else if isEachMacro name then .requestEach
  else .plain none

def kind : Operand → OperandKind
  | .fieldPath p => pathKind E p
  | .macroName name => macroKind name
  | _ => .plain none

/-- A number that `float` takes to a finite value, and `int` takes if the value is whole and is
written without a point. -/
def NumberOk (raw : Text) : Prop :=
  ∃ q, E.rt.float raw = some q ∧ (q.isInt = true → '.' ∉ raw → (E.rt.int raw).isSome)

/-- `@collection.name.path` or `@collection.name:alias.path`. -/
def CollectionOk (name : Text) : Prop :=
  ∃ coll path, collectionParts? name = some (coll, path) ∧ IsIdent (coll.takeWhile (· ≠ ':')) ∧
    IsIdent (coll.dropWhile (· ≠ ':')).tail ∧ ∀ part ∈ path, IsIdent part

/-- `@request.body.field:changed`, for a field that is sent, has an identifier as its field. -/
def ChangedOk (name : Text) : Prop :=
  ∀ f field, E.ctx.resolved.get? (name.dropWhile (· = '@')) = none →
    FilterEnv.bodyMacro? (name.dropWhile (· = '@')) = some f →
      splitModifier f = (field, some .changed) → (E.ctx.data.get? field).isSome → IsIdent field

/-- The characters of a column's name. -/
def NameOk (name : Text) : Prop := ∀ c ∈ name, Text.isIdentChar c = true ∨ c = '.'

/-- The segments of a path are identifiers. -/
def PathOk (p : FieldPath) : Prop :=
  match pathParts p, pathModifier p with
  | [name], some _ => NameOk name
  | parts, _ => ∀ part ∈ parts, IsIdent part

/-- The operand is well formed. -/
def Written : Operand → Prop
  | .number raw => NumberOk E raw
  | .fieldPath p => PathOk p ∧ FieldFollows E.relations E.table (pathParts p)
  | .macroName name => if isCollectionMacro name then CollectionOk name else ChangedOk E name
  | _ => True

/-- A reference to a column, or to a path that can be followed. -/
def Refers (coll : Text) (path : List Text) : Prop := Follows (E.collections.getD {}) coll path

/-- Two operands that a comparison can relate. -/
def Pairs : OperandKind → OperandKind → Prop
  | .traversal m _, .traversal n _ => m = 1 ∧ n = 1
  | .traversal _ _, k | k, .traversal _ _ => k ≠ .fieldEach
  | .reference c p, .reference d q => Refers E c p ∧ Refers E d q
  | .reference c p, k | k, .reference c p => Refers E c p ∧ k ≠ .fieldEach
  | k, k' => ¬(k.isEach = true ∧ k'.isEach = true)

/-- The field type that a literal is converted for when it is compared with the operand. -/
def comparedType (o : Operator) : OperandKind → Option FieldType
  | .reference coll [f] => (systemFieldType? f).or ((E.collections.getD {}).fieldType? coll f)
  | .reference coll path => landing (E.collections.getD {}) true coll path
  | .plain type | .traversal _ type =>
    match o.opClass with
    | .standard _ => type
    | _ => none
  | _ => none

end

/-- The literal is a date that the interpreter cannot convert. -/
def DateOverflows (L : Limits) (type : Option FieldType) : Operand → Prop
  | .string raw =>
    let s := Text.strip (unescapeText (raw.drop 1).dropLast)
    isDatetime type = true ∧ s ≠ [] ∧ L.overflows (normalizeIso s) = true
  | _ => False

/-- The comparison can be compiled. -/
structure Comparable (E : FilterEnv) (L : Limits) (k : Comparison) : Prop where
  left : Written E k.left
  right : Written E k.right
  pairs : Pairs E (kind E k.left) (kind E k.right)
  dateRight : ¬DateOverflows L (comparedType E k.op (kind E k.left)) k.right
  dateLeft : ¬DateOverflows L (comparedType E k.op (kind E k.right)) k.left

/-! ## Identifiers -/

theorem sanitizeIdent_ok {s t : Text} : sanitizeIdent s = .ok t ↔ IsIdent s ∧ t = s := by
  unfold sanitizeIdent
  cases hfind : s.find? fun c => !Text.isIdentChar c with
  | some c =>
    refine iff_of_false nofun fun h => ?_
    have hc := List.find?_some hfind
    rw [h.1 c (List.mem_of_find?_eq_some hfind)] at hc
    cases hc
  | none =>
    have hident : IsIdent s := fun c hc => by
      simpa using List.find?_eq_none.1 hfind c hc
    constructor
    · intro h
      exact ⟨hident, (Except.ok.inj h).symm⟩
    · rintro ⟨-, rfl⟩
      rfl

theorem succeeds_sanitizeIdent {s : Text} : Succeeds (sanitizeIdent s) ↔ IsIdent s := by
  constructor
  · rintro ⟨t, h⟩
    exact (sanitizeIdent_ok.1 h).1
  · exact fun h => ⟨s, sanitizeIdent_ok.2 ⟨h, rfl⟩⟩

theorem mapM_sanitizeIdent_ok {ps : List Text} : ∀ {qs : List Text},
    ps.mapM sanitizeIdent = .ok qs ↔ (∀ p ∈ ps, IsIdent p) ∧ qs = ps := by
  induction ps with
  | nil =>
    intro qs
    rw [List.mapM_nil]
    constructor
    · intro h
      exact ⟨fun _ hp => absurd hp List.not_mem_nil, (Except.ok.inj h).symm⟩
    · rintro ⟨-, rfl⟩
      rfl
  | cons p ps ih =>
    intro qs
    rw [List.mapM_cons, bind_eq_ok, List.forall_mem_cons]
    constructor
    · rintro ⟨p', hp, h⟩
      obtain ⟨qs', hqs, hcons⟩ := bind_eq_ok.1 h
      obtain ⟨hident, rfl⟩ := sanitizeIdent_ok.1 hp
      obtain ⟨hall, rfl⟩ := ih.1 hqs
      exact ⟨⟨hident, hall⟩, (Except.ok.inj hcons).symm⟩
    · rintro ⟨⟨hident, hall⟩, rfl⟩
      exact ⟨p, sanitizeIdent_ok.2 ⟨hident, rfl⟩, bind_eq_ok.2 ⟨ps, ih.2 ⟨hall, rfl⟩, rfl⟩⟩

theorem stepFromInfo_ok {segment : Text} {info : RelationInfo} {step : Step}
    (hsegment : IsIdent segment) : stepFromInfo segment info = .ok step ↔
      (IsIdent info.table ∧ IsIdent info.field) ∧ step = ⟨segment, info⟩ := by
  unfold stepFromInfo
  rw [bind_eq_ok]
  constructor
  · rintro ⟨table, htable, htail⟩
    obtain ⟨field, hfield, hrest⟩ := bind_eq_ok.1 htail
    obtain ⟨key, hkey, hstep⟩ := bind_eq_ok.1 hrest
    obtain ⟨ht, rfl⟩ := sanitizeIdent_ok.1 htable
    obtain ⟨hf, rfl⟩ := sanitizeIdent_ok.1 hfield
    obtain ⟨-, rfl⟩ := sanitizeIdent_ok.1 hkey
    exact ⟨⟨ht, hf⟩, (Except.ok.inj hstep).symm⟩
  · rintro ⟨⟨ht, hf⟩, rfl⟩
    exact ⟨_, sanitizeIdent_ok.2 ⟨ht, rfl⟩, bind_eq_ok.2 ⟨_, sanitizeIdent_ok.2 ⟨hf, rfl⟩,
      bind_eq_ok.2 ⟨_, sanitizeIdent_ok.2 ⟨hsegment, rfl⟩, rfl⟩⟩⟩

/-! ## Paths -/

section

variable {idx : RelationIndex} {allow opt : Bool} {whole table : Text} {parts : List Text}

/-- What is known of the target of a path that is followed. -/
structure Resolves (idx : RelationIndex) (opt : Bool) (table : Text) (n : ℕ) (parts : List Text)
    (r : ResolvedPath) : Prop where
  type : r.fieldType = landing idx opt table parts
  steps : opt = false → r.steps.length = n + hops idx table parts
  json : intoJson idx table parts = true → r.isJson = true

theorem resolveFrom_of_follows : ∀ {parts : List Text} {table : Text} {steps : List Step},
    parts ≠ [] → (∀ p ∈ parts, IsIdent p) → Follows idx table parts →
      ∃ r, resolveFrom idx allow opt whole table steps parts = .ok (some r) ∧
        Resolves idx opt table steps.length parts r
  | [], _, _, hne, _, _ => absurd rfl hne
  | [part], table, steps, _, _, _ => ⟨_, rfl, rfl, fun _ => rfl, nofun⟩
  | part :: next :: rest, table, steps, _, hident, hfollows => by
    by_cases hjson : isJsonType (idx.fieldType? table part) = true
    · rw [resolveFrom, if_pos hjson]
      refine ⟨_, rfl, ?_, fun _ => ?_, fun _ => rfl⟩
      · rw [landing, if_pos hjson]
      · rw [hops, if_pos hjson, Nat.add_zero]
    · obtain ⟨info, hinfo, ht, hf, hrest⟩ := hfollows.resolve_left hjson
      obtain ⟨hpart, hident⟩ := List.forall_mem_cons.1 hident
      have hstep : stepFromInfo part info = .ok ⟨part, info⟩ :=
        (stepFromInfo_ok hpart).2 ⟨⟨ht, hf⟩, rfl⟩
      rw [resolveFrom, if_neg hjson, hinfo]
      dsimp only
      rw [hstep, ok_bind]
      by_cases hid : opt = true ∧ info.kind = .forward ∧ info.maxSelect ≤ 1 ∧ next = "id" ∧
          rest = []
      · rw [if_pos hid]
        refine ⟨_, rfl, ?_, ?_, fun h => absurd h hjson⟩
        · rw [landing, if_neg hjson, hinfo]
          dsimp only
          rw [if_pos hid]
        · intro hopt
          rw [hid.1] at hopt
          cases hopt
      · rw [if_neg hid]
        obtain ⟨r, hr, h⟩ : ∃ r, resolveFrom idx allow opt whole info.table
            (steps ++ [⟨part, info⟩]) (next :: rest) = .ok (some r) ∧
              Resolves idx opt info.table (steps ++ [(⟨part, info⟩ : Step)]).length (next :: rest)
                r :=
          resolveFrom_of_follows (List.cons_ne_nil next rest) hident hrest
        refine ⟨r, hr, ?_, ?_, fun h => absurd h hjson⟩
        · rw [landing, if_neg hjson, hinfo]
          dsimp only
          rw [if_neg hid]
          exact h.type
        · intro hopt
          rw [h.steps hopt, hops, if_neg hjson, hinfo, List.length_append, List.length_singleton]
          dsimp only
          omega

/-- A path that cannot be followed, from a relation on, is an error. -/
theorem not_succeeds_resolveFrom : ∀ {parts : List Text} {table : Text} {steps : List Step},
    (∀ p ∈ parts, IsIdent p) → ¬Follows idx table parts →
      (allow = true → steps = [] → ¬FieldFollows idx table parts) →
      ¬Succeeds (resolveFrom idx allow opt whole table steps parts)
  | [], _, _, _, hfollows, _ => absurd trivial hfollows
  | [part], _, _, _, hfollows, _ => absurd trivial hfollows
  | part :: next :: rest, table, steps, hident, hfollows, hstart => by
    obtain ⟨hjson, hrelation⟩ := not_or.1 hfollows
    obtain ⟨hpart, hident⟩ := List.forall_mem_cons.1 hident
    rw [resolveFrom, if_neg hjson]
    cases hinfo : idx.relationInfo? table part with
    | none =>
      dsimp only
      split_ifs with hsteps hallow
      · exact not_succeeds_error _
      · exact absurd (Or.inl hinfo) (hstart hallow (not_not.1 hsteps))
      · exact not_succeeds_error _
    | some info =>
      dsimp only
      rw [succeeds_bind]
      rintro ⟨step, hstep, h⟩
      obtain ⟨⟨ht, hf⟩, rfl⟩ := (stepFromInfo_ok hpart).1 hstep
      have hrest : ¬Follows idx info.table (next :: rest) :=
        fun hrest => hrelation ⟨info, hinfo, ht, hf, hrest⟩
      rw [if_neg] at h
      · exact not_succeeds_resolveFrom hident hrest
          (fun _ hsteps => absurd hsteps (by simp)) h
      · rintro ⟨-, -, -, -, rfl⟩
        exact hrest trivial

theorem resolveDottedPath_eq {start : Text} {allow opt : Bool} (hstart : IsIdent start)
    (hident : ∀ p ∈ parts, IsIdent p) : resolveDottedPath idx allow opt start parts =
      resolveFrom idx allow opt (Text.join '.' parts) start [] parts := by
  unfold resolveDottedPath
  rw [mapM_sanitizeIdent_ok.2 ⟨hident, rfl⟩, ok_bind, sanitizeIdent_ok.2 ⟨hstart, rfl⟩, ok_bind]

end

/-! ## References -/

section

variable {E : FilterEnv} {coll key : Text} {path : List Text}

/-- What `macro` makes of a reference. -/
structure CleanRef (coll : Text) (path : List Text) : Prop where
  name : IsIdent coll
  segments : ∀ part ∈ path, IsIdent part
  ne_nil : path ≠ []

theorem resolveCollectionRef_of_refers (key : Text) (h : CleanRef coll path)
    (hrefers : Refers E coll path) (o : Operator) :
    ∃ ref, E.resolveCollectionRef coll path key = .ok ref ∧
      ref.type = comparedType E o (.reference coll path) := by
  unfold FilterEnv.resolveCollectionRef
  match path, h, hrefers with
  | [], h, _ => exact absurd rfl h.ne_nil
  | [f], _, _ => exact ⟨_, rfl, rfl⟩
  | f :: g :: rest, h, hrefers =>
    obtain ⟨r, hr, hresolves⟩ : ∃ r, resolveFrom (E.collections.getD {}) false true
        (Text.join '.' (f :: g :: rest)) coll [] (f :: g :: rest) = .ok (some r) ∧
          Resolves (E.collections.getD {}) true coll 0 (f :: g :: rest) r :=
      resolveFrom_of_follows h.ne_nil h.segments hrefers
    dsimp only
    rw [resolveDottedPath_eq h.name h.segments, hr, ok_bind]
    exact ⟨_, rfl, hresolves.type⟩

theorem succeeds_resolveCollectionRef (key : Text) (h : CleanRef coll path) :
    Succeeds (E.resolveCollectionRef coll path key) ↔ Refers E coll path := by
  constructor
  · intro hs
    by_contra hrefers
    unfold FilterEnv.resolveCollectionRef at hs
    match path, h, hrefers with
    | [], h, _ => exact h.ne_nil rfl
    | [f], _, hrefers => exact hrefers trivial
    | f :: g :: rest, h, hrefers =>
      dsimp only at hs
      rw [resolveDottedPath_eq h.name h.segments] at hs
      obtain ⟨a, ha, -⟩ := succeeds_bind.1 hs
      exact not_succeeds_resolveFrom h.segments hrefers (fun hallow => absurd hallow (by simp))
        ⟨a, ha⟩
  · intro hrefers
    obtain ⟨ref, href, -⟩ := resolveCollectionRef_of_refers key h hrefers .eq
    exact ⟨ref, href⟩

end

/-! ## Nodes -/

/-- The kind of the operand behind a node. -/
def nodeKind : Node → OperandKind
  | .field _ type | .sqlRef _ _ type => .plain type
  | .fieldModifier _ .each => .fieldEach
  | .relationRef steps _ _ type => .traversal steps.length type
  | .collectionRef coll path _ => .reference coll path
  | .macroName name => if isEachMacro name then .requestEach else .plain none
  | _ => .plain none

/-- The names behind a node can be written to SQL. -/
def Named (E : FilterEnv) : Node → Prop
  | .field name _ | .fieldModifier name _ => NameOk name
  | .macroName name => ChangedOk E name
  | _ => True

/-- The references among nodes are clean. -/
def Clean (n : Node) : Prop :=
  ∀ coll path key, n = .collectionRef coll path key → CleanRef coll path

section

variable {E : FilterEnv} {n l r : Node} {name : Text} {o : Operator}

theorem succeeds_fieldExpr : Succeeds (E.fieldExpr name) ↔ NameOk name := by
  unfold FilterEnv.fieldExpr
  cases hfind : name.find? fun c => !Text.isIdentChar c && c != '.' with
  | some c =>
    refine iff_of_false (not_succeeds_error _) fun h => ?_
    have hc := List.find?_some hfind
    rw [Bool.and_eq_true, Bool.not_eq_true', bne_iff_ne] at hc
    rcases h c (List.mem_of_find?_eq_some hfind) with h | h
    · rw [h] at hc
      cases hc.1
    · exact hc.2 h
  | none =>
    refine iff_of_true (succeeds_ok _) fun c hc => ?_
    have hfine := List.find?_eq_none.1 hfind c hc
    rw [Bool.and_eq_true, Bool.not_eq_true', bne_iff_ne, not_and_or, not_not] at hfine
    exact hfine.imp (by simp) id

theorem bodyMacro?_heads {f : Text} (h : FilterEnv.bodyMacro? name = some f) :
    name ≠ "request.context".toList ∧ name ≠ "request.method".toList ∧
      FilterEnv.clock? name = none ∧ Text.afterPrefix? "request.headers." name = none ∧
        Text.afterPrefix? "request.auth." name = none := by
  unfold FilterEnv.bodyMacro? at h
  rcases Option.or_eq_some_iff.1 h with h | ⟨-, h⟩ <;>
  · rw [Text.afterPrefix?_eq_some.1 h]
    refine ⟨by simp, by simp, rfl, rfl, rfl⟩

theorem succeeds_resolveBodyMacro {f : Text} : Succeeds (E.resolveBodyMacro f) ↔
    ∀ field, splitModifier f = (field, some .changed) → (E.ctx.data.get? field).isSome →
      IsIdent field := by
  unfold FilterEnv.resolveBodyMacro
  generalize splitModifier f = split
  obtain ⟨field, m⟩ := split
  dsimp only
  have hother (hm : m ≠ some .changed) : ∀ field', (field, m) = (field', some Modifier.changed) →
      (E.ctx.data.get? field').isSome → IsIdent field' :=
    fun _ h => absurd (Prod.mk.inj h).2 hm
  cases m with
  | none => exact iff_of_true (succeeds_ok _) (hother nofun)
  | some m =>
    cases m with
    | changed =>
      cases hdata : E.ctx.data.get? field with
      | none =>
        refine iff_of_true (succeeds_ok _) ?_
        rintro field' h hsome
        obtain ⟨rfl, -⟩ := Prod.mk.inj h
        rw [hdata] at hsome
        cases hsome
      | some v =>
        dsimp only
        refine (succeeds_bind_iff fun _ => succeeds_ok _).trans (succeeds_sanitizeIdent.trans ?_)
        constructor
        · rintro hident field' h -
          obtain ⟨rfl, -⟩ := Prod.mk.inj h
          exact hident
        · intro h
          exact h field rfl (by rw [hdata]; rfl)
    | lower =>
      refine iff_of_true ?_ (hother nofun)
      dsimp only
      split <;> exact succeeds_ok _
    | _ => exact iff_of_true (succeeds_ok _) (hother nofun)

theorem succeeds_resolveMacro : Succeeds (E.resolveMacro name) ↔
    ∀ f field, E.ctx.resolved.get? name = none → FilterEnv.bodyMacro? name = some f →
      splitModifier f = (field, some .changed) → (E.ctx.data.get? field).isSome →
        IsIdent field := by
  unfold FilterEnv.resolveMacro
  cases hresolved : E.ctx.resolved.get? name with
  | some v => exact iff_of_true (succeeds_ok _) nofun
  | none =>
    cases hbody : FilterEnv.bodyMacro? name with
    | none =>
      refine iff_of_true ?_ nofun
      dsimp only
      repeat' split
      all_goals exact succeeds_ok _
    | some f =>
      obtain ⟨hcontext, hmethod, hclock, hheaders, hauth⟩ := bodyMacro?_heads hbody
      simp only [hclock, hcontext, hmethod, hheaders, hauth, if_false]
      rw [succeeds_resolveBodyMacro]
      constructor
      · rintro h f' field - hf
        obtain rfl := Option.some.inj hf
        exact h field
      · exact fun h field => h f field trivial rfl

theorem succeeds_operandToSql :
    Succeeds (E.operandToSql n) ↔ Named E n ∧ nodeKind n ≠ .fieldEach := by
  cases n with
  | field name type => exact succeeds_fieldExpr.trans (and_iff_left nofun).symm
  | fieldModifier name m =>
    change Succeeds (E.resolveFieldModifier name m) ↔ _
    unfold FilterEnv.resolveFieldModifier
    rw [succeeds_bind]
    cases m with
    | each => exact iff_of_false (fun ⟨_, _, h⟩ => not_succeeds_error _ h) fun h => h.2 rfl
    | changed =>
      refine Iff.trans ?_ (and_iff_left nofun).symm
      refine Iff.trans (exists_congr fun t => and_iff_left ?_) succeeds_fieldExpr
      dsimp only
      split <;> exact succeeds_ok _
    | _ =>
      refine Iff.trans ?_ (and_iff_left nofun).symm
      exact Iff.trans (exists_congr fun t => and_iff_left (succeeds_ok _)) succeeds_fieldExpr
  | macroName name =>
    refine succeeds_resolveMacro.trans (and_iff_left ?_).symm
    simp only [nodeKind]
    split_ifs <;> nofun
  | _ => exact iff_of_true (succeeds_ok _) ⟨trivial, nofun⟩

end

/-! ## Comparisons of nodes -/

section

variable {E : FilterEnv} {n l r : Node} {o : Operator} {left : Bool}

theorem isEach_macroName (name : Text) :
    (nodeKind (.macroName name)).isEach = isEachMacro name := by
  cases hstem : isEachMacro name <;> simp [nodeKind, hstem, OperandKind.isEach]

theorem isSome_extractEachOperand {a : Option Term} (h : E.extractEachOperand n = .ok a) :
    a.isSome = (nodeKind n).isEach := by
  cases n with
  | fieldModifier name m =>
    cases m with
    | each =>
      obtain ⟨t, -, rfl⟩ := map_eq_ok.1 h
      rfl
    | _ =>
      obtain rfl := Except.ok.inj h
      rfl
  | macroName name =>
    simp only [FilterEnv.extractEachOperand] at h
    rw [isEach_macroName]
    unfold isEachMacro
    cases hbody : FilterEnv.bodyMacro? (name.dropWhile (· = '@')) with
    | none =>
      rw [hbody] at h
      obtain rfl := Except.ok.inj h
      rfl
    | some f =>
      rw [hbody] at h
      dsimp only at h ⊢
      split at h
      · rename_i hsplit
        obtain rfl := Except.ok.inj h
        rw [hsplit]
        rfl
      · rename_i hother
        obtain rfl := Except.ok.inj h
        exact (decide_eq_false fun heach => hother _ (Prod.ext rfl heach)).symm
  | _ =>
    obtain rfl := Except.ok.inj h
    rfl

theorem succeeds_extractEachOperand :
    Succeeds (E.extractEachOperand n) ↔ (nodeKind n = .fieldEach → Named E n) := by
  cases n with
  | fieldModifier name m =>
    cases m with
    | each =>
      refine (succeeds_map.trans succeeds_fieldExpr).trans ?_
      exact ⟨fun h _ => h, fun h => h rfl⟩
    | _ => exact iff_of_true (succeeds_ok _) nofun
  | macroName name =>
    refine iff_of_true ?_ ?_
    · simp only [FilterEnv.extractEachOperand]
      repeat' split
      all_goals exact succeeds_ok _
    · simp only [nodeKind]
      split_ifs <;> nofun
  | _ => exact iff_of_true (succeeds_ok _) nofun

/-- What `:each` is applied to is a field, or a macro without another modifier. -/
theorem named_of_isEach (heach : (nodeKind n).isEach = true)
    (h : Succeeds (E.extractEachOperand n)) : Named E n := by
  cases n with
  | fieldModifier name m =>
    cases m with
    | each => exact succeeds_extractEachOperand.1 h rfl
    | _ => cases heach
  | macroName name =>
    intro f field _ hf hsplit
    rw [isEach_macroName] at heach
    simp [isEachMacro, hf, hsplit] at heach
  | _ => cases heach

theorem succeeds_eachItemCondition :
    Succeeds (E.eachItemCondition o n left) ↔ Succeeds (E.operandToSql n) := by
  refine succeeds_bind_iff fun t => ?_
  split <;> exact succeeds_ok _

theorem succeeds_regularComparison : Succeeds (E.regularComparison l o r) ↔
    Succeeds (E.operandToSql l) ∧ Succeeds (E.operandToSql r) := by
  unfold FilterEnv.regularComparison
  rw [succeeds_bind]
  constructor
  · rintro ⟨lt, hl, h⟩
    obtain ⟨rt, hr, -⟩ := succeeds_bind.1 h
    exact ⟨⟨lt, hl⟩, rt, hr⟩
  · rintro ⟨⟨lt, hl⟩, rt, hr⟩
    refine ⟨lt, hl, succeeds_bind.2 ⟨rt, hr, ?_⟩⟩
    split
    · split
      · exact succeeds_ok _
      · split_ifs <;> exact succeeds_ok _
    all_goals exact succeeds_ok _

theorem succeeds_relationComparison {steps : List Step} {ref : Node} {t : Term} :
    Succeeds (E.relationComparison steps ref t o n left) ↔ Succeeds (E.operandToSql n) :=
  succeeds_bind_iff fun _ => succeeds_ok _

theorem succeeds_relationPairComparison {ls rs : List Step} {lt rt : Term} :
    Succeeds (E.relationPairComparison ls lt o rs rt) ↔ ls.length = 1 ∧ rs.length = 1 := by
  unfold FilterEnv.relationPairComparison
  split
  · exact iff_of_true (succeeds_ok _) ⟨rfl, rfl⟩
  · rename_i hother
    refine iff_of_false (not_succeeds_error _) fun h => ?_
    obtain ⟨l, rfl⟩ := List.length_eq_one_iff.1 h.1
    obtain ⟨r, rfl⟩ := List.length_eq_one_iff.1 h.2
    exact hother l r rfl rfl

theorem nodeKind_literalForFieldType (rt : Runtime) (type : Option FieldType) :
    nodeKind (literalForFieldType rt n type) = nodeKind n := by
  unfold literalForFieldType
  repeat' split
  all_goals rfl

theorem named_literalForFieldType (rt : Runtime) (type : Option FieldType) :
    Named E (literalForFieldType rt n type) ↔ Named E n := by
  unfold literalForFieldType
  repeat' split
  all_goals rfl

theorem succeeds_collectionComparison {ref : CollectionRef} :
    Succeeds (E.collectionComparison ref o n left) ↔ Succeeds (E.operandToSql n) := by
  refine (succeeds_bind_iff fun _ => succeeds_ok _).trans ?_
  rw [succeeds_operandToSql, succeeds_operandToSql, named_literalForFieldType,
    nodeKind_literalForFieldType]

theorem succeeds_operandToSql_of_not_isEach (h : (nodeKind n).isEach = false) :
    Succeeds (E.operandToSql n) ↔ Named E n := by
  rw [succeeds_operandToSql]
  refine and_iff_left fun heach => ?_
  rw [heach] at h
  cases h

/-- The comparison of operands that are neither traversals nor references. -/
theorem succeeds_scalars :
    Succeeds (do
      match ← E.extractEachOperand l, ← E.extractEachOperand r with
      | some _, some _ => throw .eachBothSides
      | some a, none => return .sql (.each a (← E.eachItemCondition o r true))
      | none, some a => return .sql (.each a (← E.eachItemCondition o l false))
      | none, none => .sql <$> E.regularComparison l o r : Except FilterError Item) ↔
    Named E l ∧ Named E r ∧ ¬((nodeKind l).isEach = true ∧ (nodeKind r).isEach = true) := by
  constructor
  · intro h
    obtain ⟨a, ha, h⟩ := succeeds_bind.1 h
    obtain ⟨b, hb, h⟩ := succeeds_bind.1 h
    have hla := isSome_extractEachOperand ha
    have hrb := isSome_extractEachOperand hb
    cases a with
    | some a =>
      have hl : Named E l := named_of_isEach hla.symm ⟨_, ha⟩
      cases b with
      | some b => exact absurd h (not_succeeds_error _)
      | none =>
        have hr := succeeds_eachItemCondition.1 ((succeeds_bind_iff fun _ => succeeds_ok _).1 h)
        refine ⟨hl, (succeeds_operandToSql_of_not_isEach hrb.symm).1 hr, fun heach => ?_⟩
        rw [← hrb] at heach
        cases heach.2
    | none =>
      have hnot : ¬((nodeKind l).isEach = true ∧ (nodeKind r).isEach = true) := by
        rw [← hla]
        exact fun heach => nomatch heach.1
      cases b with
      | some b =>
        have hl := succeeds_eachItemCondition.1 ((succeeds_bind_iff fun _ => succeeds_ok _).1 h)
        exact ⟨(succeeds_operandToSql_of_not_isEach hla.symm).1 hl,
          named_of_isEach hrb.symm ⟨_, hb⟩,
          hnot⟩
      | none =>
        obtain ⟨hl, hr⟩ := succeeds_regularComparison.1 (succeeds_map.1 h)
        exact ⟨(succeeds_operandToSql_of_not_isEach hla.symm).1 hl,
          (succeeds_operandToSql_of_not_isEach hrb.symm).1 hr, hnot⟩
  · rintro ⟨hl, hr, heach⟩
    obtain ⟨a, ha⟩ := succeeds_extractEachOperand.2 fun _ => hl
    obtain ⟨b, hb⟩ := succeeds_extractEachOperand.2 fun _ => hr
    have hla := isSome_extractEachOperand ha
    have hrb := isSome_extractEachOperand hb
    rw [ha, ok_bind, hb, ok_bind]
    cases a with
    | some a =>
      cases b with
      | some b => exact absurd ⟨hla.symm, hrb.symm⟩ heach
      | none =>
        refine (succeeds_bind_iff fun _ => succeeds_ok _).2 (succeeds_eachItemCondition.2 ?_)
        exact (succeeds_operandToSql_of_not_isEach hrb.symm).2 hr
    | none =>
      have hlsql := (succeeds_operandToSql_of_not_isEach hla.symm).2 hl
      cases b with
      | some b =>
        exact (succeeds_bind_iff fun _ => succeeds_ok _).2 (succeeds_eachItemCondition.2 hlsql)
      | none =>
        refine succeeds_map.2 (succeeds_regularComparison.2 ⟨hlsql, ?_⟩)
        exact (succeeds_operandToSql_of_not_isEach hrb.symm).2 hr

theorem ne_traversal (h : ∀ steps sql isJson type, n ≠ .relationRef steps sql isJson type) (m : ℕ)
    (type : Option FieldType) : nodeKind n ≠ .traversal m type := by
  cases n with
  | relationRef steps sql isJson type => exact absurd rfl (h steps sql isJson type)
  | fieldModifier name m => cases m <;> nofun
  | macroName name =>
    simp only [nodeKind]
    split_ifs <;> nofun
  | _ => nofun

theorem ne_reference (h : ∀ coll path key, n ≠ .collectionRef coll path key) (c : Text)
    (p : List Text) : nodeKind n ≠ .reference c p := by
  cases n with
  | collectionRef coll path key => exact absurd rfl (h coll path key)
  | fieldModifier name m => cases m <;> nofun
  | macroName name =>
    simp only [nodeKind]
    split_ifs <;> nofun
  | _ => nofun

section

variable {k k' : OperandKind} {m : ℕ} {type : Option FieldType} {c : Text} {p : List Text}

theorem pairs_comm : Pairs E k k' ↔ Pairs E k' k := by
  cases k <;> cases k' <;> simp only [Pairs, and_comm]

theorem pairs_traversal (h : ∀ m type, k ≠ .traversal m type) :
    Pairs E (.traversal m type) k ↔ k ≠ .fieldEach := by
  cases k with
  | traversal m type => exact absurd rfl (h m type)
  | _ => rfl

theorem pairs_reference (h : ∀ m type, k ≠ .traversal m type) (h' : ∀ c p, k ≠ .reference c p) :
    Pairs E (.reference c p) k ↔ Refers E c p ∧ k ≠ .fieldEach := by
  cases k with
  | traversal m type => exact absurd rfl (h m type)
  | reference c p => exact absurd rfl (h' c p)
  | _ => rfl

theorem pairs_scalars (hk : ∀ m type, k ≠ .traversal m type) (hk' : ∀ c p, k ≠ .reference c p)
    (h : ∀ m type, k' ≠ .traversal m type) (h' : ∀ c p, k' ≠ .reference c p) :
    Pairs E k k' ↔ ¬(k.isEach = true ∧ k'.isEach = true) := by
  cases k with
  | traversal m type => exact absurd rfl (hk m type)
  | reference c p => exact absurd rfl (hk' c p)
  | _ =>
    cases k' with
    | traversal m type => exact absurd rfl (h m type)
    | reference c p => exact absurd rfl (h' c p)
    | _ => rfl

end

/-- A reference and another operand. -/
theorem succeeds_reference {coll : Text} {path : List Text} {key : Text}
    (hclean : CleanRef coll path) : Succeeds (do
      let ref ← E.resolveCollectionRef coll path key
      E.collectionComparison ref o n left) ↔
    Refers E coll path ∧ Named E n ∧ nodeKind n ≠ .fieldEach := by
  rw [← succeeds_resolveCollectionRef key hclean, ← succeeds_operandToSql, succeeds_bind]
  constructor
  · rintro ⟨ref, href, h⟩
    exact ⟨⟨ref, href⟩, succeeds_collectionComparison.1 h⟩
  · rintro ⟨⟨ref, href⟩, h⟩
    exact ⟨ref, href, succeeds_collectionComparison.2 h⟩

/-- A comparison of nodes succeeds if their names can be written and their kinds can be related. -/
theorem succeeds_compareNodes (hl : Clean l) (hr : Clean r) :
    Succeeds (E.compareNodes l o r) ↔
      Named E l ∧ Named E r ∧ Pairs E (nodeKind l) (nodeKind r) := by
  unfold FilterEnv.compareNodes
  split
  · rw [succeeds_relationPairComparison]
    exact ⟨fun h => ⟨trivial, trivial, h⟩, fun h => h.2.2⟩
  · rename_i hother
    rw [succeeds_relationComparison, succeeds_operandToSql]
    change _ ↔ _ ∧ _ ∧ Pairs E (.traversal _ _) _
    rw [pairs_traversal (ne_traversal hother)]
    exact ⟨fun h => ⟨trivial, h⟩, fun h => h.2⟩
  · rename_i hother
    rw [succeeds_relationComparison, succeeds_operandToSql, pairs_comm]
    change _ ↔ _ ∧ _ ∧ Pairs E (.traversal _ _) _
    rw [pairs_traversal (ne_traversal hother)]
    exact ⟨fun h => ⟨h.1, trivial, h.2⟩, fun h => ⟨h.1, h.2.2⟩⟩
  · change _ ↔ True ∧ True ∧ _ ∧ _
    rw [true_and, true_and, ← succeeds_resolveCollectionRef _ (hl _ _ _ rfl),
      ← succeeds_resolveCollectionRef _ (hr _ _ _ rfl), succeeds_bind]
    constructor
    · rintro ⟨a, ha, h⟩
      obtain ⟨b, hb, -⟩ := succeeds_bind.1 h
      exact ⟨⟨a, ha⟩, b, hb⟩
    · rintro ⟨⟨a, ha⟩, b, hb⟩
      exact ⟨a, ha, succeeds_bind.2 ⟨b, hb, succeeds_ok _⟩⟩
  · rename_i hrelation hreference
    rw [succeeds_reference (hl _ _ _ rfl)]
    change _ ↔ _ ∧ _ ∧ Pairs E (.reference _ _) _
    rw [pairs_reference (ne_traversal hrelation) (ne_reference hreference)]
    exact ⟨fun h => ⟨trivial, h.2.1, h.1, h.2.2⟩, fun h => ⟨h.2.2.1, h.2.1, h.2.2.2⟩⟩
  · rename_i hrelation hreference
    rw [succeeds_reference (hr _ _ _ rfl), pairs_comm]
    change _ ↔ _ ∧ _ ∧ Pairs E (.reference _ _) _
    rw [pairs_reference (ne_traversal hrelation) (ne_reference hreference)]
    exact ⟨fun h => ⟨h.2.1, trivial, h.1, h.2.2⟩, fun h => ⟨h.2.2.1, h.1, h.2.2.2⟩⟩
  · rename_i hlrel hlref hrrel hrref _ _
    rw [pairs_scalars (ne_traversal hlrel) (ne_reference hlref) (ne_traversal hrrel)
      (ne_reference hrref)]
    exact succeeds_scalars

theorem clean_literalForFieldType (h : Clean n) (rt : Runtime) (type : Option FieldType) :
    Clean (literalForFieldType rt n type) := by
  unfold literalForFieldType
  repeat' split
  all_goals first | exact h | nofun

/-- The conversion of literals does not matter. -/
theorem succeeds_comparison (hl : Clean l) (hr : Clean r) : Succeeds (E.comparison l o r) ↔
    Named E l ∧ Named E r ∧ Pairs E (nodeKind l) (nodeKind r) := by
  unfold FilterEnv.comparison coerceLiterals
  split
  · dsimp only
    split_ifs <;> rw [succeeds_compareNodes] <;>
      simp only [named_literalForFieldType, nodeKind_literalForFieldType,
        clean_literalForFieldType, hl, hr]
  · exact succeeds_compareNodes hl hr

end

/-! ## Operands -/

section

open Modifiers (plainNode pathNode fieldPath_eq)

variable {E : FilterEnv} {n : Node} {o : Operand} {p : FieldPath} {parts : List Text}

theorem nameOk_of_isIdent {t : Text} (h : IsIdent t) : NameOk t := fun c hc => Or.inl (h c hc)

theorem nameOk_join : ∀ {parts : List Text}, (∀ part ∈ parts, IsIdent part) →
    NameOk (Text.join '.' parts)
  | [], _ => fun _ hc => absurd hc List.not_mem_nil
  | [part], h => nameOk_of_isIdent (h part List.mem_cons_self)
  | part :: next :: rest, h => by
    obtain ⟨hpart, hrest⟩ := List.forall_mem_cons.1 h
    intro c hc
    rcases List.mem_append.1 hc with hc | hc
    · exact nameOk_of_isIdent hpart c hc
    · rcases List.mem_cons.1 hc with rfl | hc
      · exact Or.inr rfl
      · exact nameOk_join hrest c hc

theorem hops_eq_zero {idx : RelationIndex} {table : Text} (h : FieldFollows idx table parts)
    (hfollows : ¬Follows idx table parts) : hops idx table parts = 0 ∧
      intoJson idx table parts = false ∧
      ∀ allow opt whole, allow = true →
        resolveFrom idx allow opt whole table [] parts = .ok none := by
  match parts, h, hfollows with
  | [], _, hfollows => exact absurd trivial hfollows
  | [part], _, hfollows => exact absurd trivial hfollows
  | part :: next :: rest, h, hfollows =>
    have hinfo := h.resolve_right hfollows
    have hjson := (not_or.1 hfollows).1
    refine ⟨?_, Bool.not_eq_true _ ▸ hjson, ?_⟩
    · rw [hops, if_neg hjson, hinfo]
    · rintro allow opt whole rfl
      rw [resolveFrom, if_neg hjson, hinfo]
      rfl

theorem intoJson_of_hops {idx : RelationIndex} {table : Text} (h : Follows idx table parts)
    (hlen : 2 ≤ parts.length) (hhops : hops idx table parts = 0) :
    intoJson idx table parts = true := by
  match parts, h, hlen with
  | [part], _, hlen => exact absurd hlen (by simp)
  | part :: next :: rest, h, _ =>
    by_contra hjson
    change ¬isJsonType (idx.fieldType? table part) = true at hjson
    obtain ⟨info, hinfo, -⟩ := h.resolve_left hjson
    rw [hops, if_neg hjson, hinfo] at hhops
    exact absurd hhops (Nat.succ_ne_zero _)

theorem landing_of_intoJson {idx : RelationIndex} {opt : Bool} {table : Text}
    (h : intoJson idx table parts = true) : landing idx opt table parts = none := by
  match parts, h with
  | part :: next :: rest, h =>
    change isJsonType (idx.fieldType? table part) = true at h
    rw [landing, if_pos h]

theorem pathParts_eq (p : FieldPath) : p.tail = [] ∧ pathParts p = [(splitModifier p.head).1] ∨
    2 ≤ (pathParts p).length := by
  obtain ⟨head, tail, hkey⟩ := p
  cases tail with
  | nil => exact Or.inl ⟨rfl, rfl⟩
  | cons a as =>
    right
    simp [pathParts, FieldPath.parts]

/-- A path of several segments that is no column of another table. -/
theorem pathOk_iff (hlen : 2 ≤ (pathParts p).length) :
    PathOk p ↔ ∀ part ∈ pathParts p, IsIdent part := by
  unfold PathOk
  split
  · rename_i hparts _
    rw [hparts] at hlen
    exact absurd hlen (by simp)
  · rfl

theorem columnType_of_length (hlen : 2 ≤ (pathParts p).length) : columnType E p = none := by
  unfold columnType
  split
  · rename_i hparts _
    rw [hparts] at hlen
    exact absurd hlen (by simp)
  · rfl

/-- The node of a path that leads nowhere else. -/
theorem plainNode_reads (hplain : hops E.relations E.table (pathParts p) = 0)
    (hjson : intoJson E.relations E.table (pathParts p) = false)
    (hident : 2 ≤ (pathParts p).length → ∀ part ∈ pathParts p, IsIdent part)
    (h : plainNode E (pathParts p) (pathModifier p) = .ok n) :
    nodeKind n = pathKind E p ∧ (Named E n ↔ PathOk p) := by
  have hkind : pathKind E p = if pathModifier p = some .each then .fieldEach
      else .plain (columnType E p) := by
    rw [pathKind, if_neg (not_not.2 hplain), hjson]
    simp only [and_true]
  rw [hkind]
  unfold plainNode at h
  cases hm : pathModifier p with
  | some m =>
    rw [hm] at h
    obtain rfl := Except.ok.inj h
    refine ⟨?_, ?_⟩
    · have htype : columnType E p = none := by
        unfold columnType
        rw [hm]
        split <;> first | rfl | contradiction
      cases m <;> simp [nodeKind, htype]
    · rcases pathParts_eq p with ⟨-, hparts⟩ | hlen
      · unfold PathOk
        rw [hparts, hm]
        rfl
      · rw [pathOk_iff hlen]
        exact iff_of_true (nameOk_join (hident hlen)) (hident hlen)
  | none =>
    rw [hm] at h
    dsimp only at h
    rcases pathParts_eq p with ⟨-, hparts⟩ | hlen
    · have hcolumn : columnType E p = (systemFieldType? (splitModifier p.head).1).or
          (E.relations.fieldType? E.table (splitModifier p.head).1) := by
        unfold columnType
        rw [hparts, hm]
      have hok : PathOk p ↔ IsIdent (splitModifier p.head).1 := by
        unfold PathOk
        rw [hparts, hm]
        exact List.forall_mem_singleton
      rw [hparts, if_pos List.length_singleton] at h
      obtain ⟨type, htype, rfl⟩ := map_eq_ok.1 h
      obtain ⟨field, hfield, htype⟩ := bind_eq_ok.1 htype
      obtain ⟨hident, rfl⟩ := sanitizeIdent_ok.1 hfield
      rw [if_neg nofun, hcolumn, hok]
      exact ⟨congrArg OperandKind.plain (Except.ok.inj htype).symm,
        iff_of_true (nameOk_of_isIdent hident) hident⟩
    · rw [if_neg (by omega)] at h
      obtain rfl := Except.ok.inj h
      rw [if_neg nofun, columnType_of_length hlen, pathOk_iff hlen]
      exact ⟨rfl, iff_of_true (nameOk_join (hident hlen)) (hident hlen)⟩

/-- What `field_path` makes of a path. -/
theorem fieldPath_reads (htable : IsIdent E.table) (h : E.fieldPath p.parts = .ok n) :
    nodeKind n = pathKind E p ∧ (Named E n ↔ PathOk p) ∧
      FieldFollows E.relations E.table (pathParts p) := by
  have hsplit : splitModifier (p.parts.getLastD []) =
      ((splitModifier (p.parts.getLastD [])).1, pathModifier p) := rfl
  rw [fieldPath_eq hsplit] at h
  change pathNode E (pathParts p) (pathModifier p) = .ok n at h
  unfold pathNode at h
  split_ifs at h with hlen
  · obtain ⟨r?, hr, h⟩ := bind_eq_ok.1 h
    obtain ⟨qs, hqs, -⟩ := bind_eq_ok.1 hr
    have hident := (mapM_sanitizeIdent_ok.1 hqs).1
    rw [resolveDottedPath_eq htable hident] at hr
    have hne : pathParts p ≠ [] := by
      intro hnil
      rw [hnil] at hlen
      exact absurd hlen (by simp)
    by_cases hfollows : Follows E.relations E.table (pathParts p)
    · have hfield : FieldFollows E.relations E.table (pathParts p) := by
        cases hparts : pathParts p with
        | nil => exact trivial
        | cons part rest => exact Or.inr (hparts ▸ hfollows)
      have hok := (pathOk_iff hlen).2 hident
      obtain ⟨r, hr', hresolves⟩ : ∃ r, resolveFrom E.relations true false
          (Text.join '.' (pathParts p)) E.table [] (pathParts p) = .ok (some r) ∧
            Resolves E.relations false E.table 0 (pathParts p) r :=
        resolveFrom_of_follows hne hident hfollows
      obtain rfl := Except.ok.inj (hr.symm.trans hr')
      dsimp only at h
      have hsteps : r.steps.length = 0 + hops E.relations E.table (pathParts p) :=
        hresolves.steps rfl
      rw [Nat.zero_add] at hsteps
      by_cases hhops : hops E.relations E.table (pathParts p) = 0
      · have hjson := intoJson_of_hops hfollows hlen hhops
        have hnil : r.steps = [] := List.length_eq_zero_iff.1 (hsteps.trans hhops)
        rw [if_neg (not_not.2 hnil), if_pos (hresolves.json hjson)] at h
        obtain rfl := Except.ok.inj h
        refine ⟨?_, iff_of_true trivial hok, hfield⟩
        rw [pathKind, if_neg (not_not.2 hhops), if_neg fun h => by simp [hjson] at h,
          columnType_of_length hlen]
        change OperandKind.plain r.fieldType = _
        rw [hresolves.type, landing_of_intoJson hjson]
      · have hne : r.steps ≠ [] := by
          intro hnil
          rw [hnil] at hsteps
          exact hhops hsteps.symm
        rw [if_pos hne] at h
        obtain rfl := Except.ok.inj h
        refine ⟨?_, iff_of_true trivial hok, hfield⟩
        rw [pathKind, if_pos hhops, ← hsteps, ← hresolves.type]
        rfl
    · by_cases hfield : FieldFollows E.relations E.table (pathParts p)
      · obtain ⟨hhops, hjson, hnone⟩ := hops_eq_zero hfield hfollows
        rw [hnone true false _ rfl] at hr
        obtain rfl := Except.ok.inj hr
        obtain ⟨hkind, hnamed⟩ := plainNode_reads hhops hjson (fun _ => hident) h
        exact ⟨hkind, hnamed, hfield⟩
      · exact absurd ⟨r?, hr⟩ (not_succeeds_resolveFrom hident hfollows fun _ _ => hfield)
  · obtain ⟨-, hparts⟩ := (pathParts_eq p).resolve_right hlen
    obtain ⟨hkind, hnamed⟩ := plainNode_reads (by rw [hparts]; rfl) (by rw [hparts]; rfl)
      (fun hlen' => absurd hlen' hlen) h
    refine ⟨hkind, hnamed, ?_⟩
    rw [hparts]
    exact Or.inr trivial

/-- A well formed path has its node. -/
theorem succeeds_fieldPath (htable : IsIdent E.table) (hok : PathOk p)
    (hfield : FieldFollows E.relations E.table (pathParts p)) : Succeeds (E.fieldPath p.parts) := by
  have hsplit : splitModifier (p.parts.getLastD []) =
      ((splitModifier (p.parts.getLastD [])).1, pathModifier p) := rfl
  rw [fieldPath_eq hsplit]
  change Succeeds (pathNode E (pathParts p) (pathModifier p))
  unfold pathNode
  split_ifs with hlen
  · have hident := (pathOk_iff hlen).1 hok
    have hplain : Succeeds (plainNode E (pathParts p) (pathModifier p)) := by
      unfold plainNode
      split
      · exact succeeds_ok _
      · rw [if_neg (by omega)]
        exact succeeds_ok _
    rw [resolveDottedPath_eq htable hident, succeeds_bind]
    by_cases hfollows : Follows E.relations E.table (pathParts p)
    · have hne : pathParts p ≠ [] := by
        intro hnil
        rw [hnil] at hlen
        exact absurd hlen (by simp)
      obtain ⟨r, hr, -⟩ := resolveFrom_of_follows hne hident hfollows
      refine ⟨some r, hr, ?_⟩
      dsimp only
      split_ifs
      · exact succeeds_ok _
      · exact succeeds_ok _
      · exact hplain
    · exact ⟨none, (hops_eq_zero hfield hfollows).2.2 true false _ rfl, hplain⟩
  · obtain ⟨-, hparts⟩ := (pathParts_eq p).resolve_right hlen
    unfold plainNode
    cases hm : pathModifier p with
    | some m => exact succeeds_ok _
    | none =>
      have hident : IsIdent (splitModifier p.head).1 := by
        unfold PathOk at hok
        rw [hparts, hm] at hok
        exact List.forall_mem_singleton.1 hok
      rw [hparts]
      dsimp only
      rw [if_pos List.length_singleton, succeeds_map]
      exact (succeeds_bind_iff fun _ => succeeds_ok _).2 (succeeds_sanitizeIdent.2 hident)

end

section

variable {E : FilterEnv} {n : Node} {name : Text}

theorem filter_ne_nil {field : Text} {rest : List Text} (h : field ≠ []) :
    (field :: rest).filter (· ≠ []) ≠ [] := by
  rw [List.filter_cons_of_pos (by simpa using h)]
  exact List.cons_ne_nil _ _

theorem alias_of_notMem {coll : Text} (h : ':' ∉ coll) :
    coll.takeWhile (· ≠ ':') = coll ∧ (coll.dropWhile (· ≠ ':')).tail = [] := by
  have hall : ∀ c ∈ coll, decide (c ≠ ':') = true := by
    intro c hc
    refine decide_eq_true ?_
    rintro rfl
    exact h hc
  rw [List.takeWhile_eq_self_iff.2 hall, List.dropWhile_eq_nil_iff.2 hall]
  exact ⟨rfl, rfl⟩

theorem macroNode_eq (hstem : isCollectionMacro name = true) : FilterEnv.macroNode name =
    match collectionParts? name with
    | some (coll, path) => do
      let path ← path.mapM sanitizeIdent
      if ':' ∈ coll then
        let name ← sanitizeIdent (coll.takeWhile (· ≠ ':'))
        let aliasKey ← sanitizeIdent (coll.dropWhile (· ≠ ':')).tail
        return .collectionRef name path (name ++ ':' :: aliasKey)
      else
        let name ← sanitizeIdent coll
        return .collectionRef name path name
    | none => .error (.collectionRef (name.dropWhile (· = '@'))) := by
  unfold FilterEnv.macroNode collectionParts?
  unfold isCollectionMacro at hstem
  dsimp only
  rw [if_pos hstem]
  cases Text.split '.' (name.dropWhile (· = '@')) with
  | nil => rfl
  | cons a as =>
    cases as with
    | nil => rfl
    | cons coll bs =>
      cases bs with
      | nil => rfl
      | cons field rest =>
        dsimp only
        by_cases hnil : coll = [] ∨ field = []
        · rw [if_pos hnil, if_pos hnil]
        · rw [if_neg hnil, if_neg hnil]

theorem ne_nil_of_collectionParts? {coll : Text} {path : List Text}
    (h : collectionParts? name = some (coll, path)) : path ≠ [] := by
  unfold collectionParts? at h
  split at h
  · split_ifs at h with hnil
    obtain ⟨-, rfl⟩ := Prod.mk.inj (Option.some.inj h)
    exact filter_ne_nil (not_or.1 hnil).2
  · cases h

/-- What `macro` makes of an `@collection` macro. -/
theorem collection_reads (hstem : isCollectionMacro name = true)
    (h : FilterEnv.macroNode name = .ok n) : nodeKind n = macroKind name ∧ Clean n ∧
      (∃ coll path key, n = .collectionRef coll path key) ∧ CollectionOk name := by
  rw [macroNode_eq hstem] at h
  unfold macroKind
  rw [if_pos hstem]
  cases hparts : collectionParts? name with
  | none =>
    rw [hparts] at h
    cases h
  | some parts =>
    obtain ⟨coll, path⟩ := parts
    rw [hparts] at h
    obtain ⟨path', hpath, hrest⟩ := bind_eq_ok.1 h
    obtain ⟨hident, rfl⟩ := mapM_sanitizeIdent_ok.1 hpath
    have hne := ne_nil_of_collectionParts? hparts
    split_ifs at hrest with halias
    · obtain ⟨c, hc, htail⟩ := bind_eq_ok.1 hrest
      obtain ⟨k, hk, hnode⟩ := bind_eq_ok.1 htail
      obtain ⟨hcoll, rfl⟩ := sanitizeIdent_ok.1 hc
      obtain rfl := Except.ok.inj hnode
      refine ⟨rfl, ?_, ⟨_, _, _, rfl⟩, coll, _, hparts, hcoll, (sanitizeIdent_ok.1 hk).1, hident⟩
      rintro c p k ⟨⟩
      exact ⟨hcoll, hident, hne⟩
    · obtain ⟨c, hc, hnode⟩ := bind_eq_ok.1 hrest
      obtain ⟨hcoll, rfl⟩ := sanitizeIdent_ok.1 hc
      obtain rfl := Except.ok.inj hnode
      obtain ⟨htake, hdrop⟩ := alias_of_notMem halias
      refine ⟨?_, ?_, ⟨_, _, _, rfl⟩, c, _, hparts, ?_, ?_, hident⟩
      · dsimp only
        rw [htake]
        rfl
      · rintro c' p k ⟨⟩
        exact ⟨hcoll, hident, hne⟩
      · rw [htake]
        exact hcoll
      · rw [hdrop]
        exact fun _ h => absurd h List.not_mem_nil

theorem succeeds_collection (hstem : isCollectionMacro name = true) (h : CollectionOk name) :
    Succeeds (FilterEnv.macroNode name) := by
  obtain ⟨coll, path, hparts, hcoll, halias, hident⟩ := h
  rw [macroNode_eq hstem, hparts]
  dsimp only
  rw [mapM_sanitizeIdent_ok.2 ⟨hident, rfl⟩, ok_bind]
  split_ifs with hmem
  · rw [sanitizeIdent_ok.2 ⟨hcoll, rfl⟩, ok_bind, sanitizeIdent_ok.2 ⟨halias, rfl⟩]
    exact succeeds_ok _
  · rw [(alias_of_notMem hmem).1] at hcoll
    rw [sanitizeIdent_ok.2 ⟨hcoll, rfl⟩]
    exact succeeds_ok _

theorem macroNode_of_not_collection (hstem : isCollectionMacro name = false) :
    FilterEnv.macroNode name = .ok (.macroName name) := by
  unfold FilterEnv.macroNode
  dsimp only
  rw [if_neg]
  intro h
  exact Bool.false_ne_true (hstem.symm.trans h)

theorem numberLiteral_reads {raw : Text} (h : numberLiteral E.rt raw = .ok n) :
    NumberOk E raw ∧ ∃ q, n = .literal (.num q) := by
  unfold numberLiteral at h
  cases hq : E.rt.float raw with
  | none =>
    rw [hq] at h
    cases h
  | some q =>
    rw [hq] at h
    dsimp only at h
    split_ifs at h with hint
    · cases hn : E.rt.int raw with
      | none =>
        rw [hn] at h
        cases h
      | some k =>
        rw [hn] at h
        exact ⟨⟨q, hq, fun _ _ => by rw [hn]; rfl⟩, k, (Except.ok.inj h).symm⟩
    · exact ⟨⟨q, hq, fun hwhole hpoint => absurd ⟨hwhole, hpoint⟩ hint⟩, q, (Except.ok.inj h).symm⟩

theorem succeeds_numberLiteral {raw : Text} (h : NumberOk E raw) :
    Succeeds (numberLiteral E.rt raw) := by
  obtain ⟨q, hq, hint⟩ := h
  unfold numberLiteral
  rw [hq]
  dsimp only
  split_ifs with hwhole
  · obtain ⟨k, hk⟩ := Option.isSome_iff_exists.1 (hint hwhole.1 hwhole.2)
    rw [hk]
    exact succeeds_ok _
  · exact succeeds_ok _

end

/-- What is known of the node of an operand. -/
structure Reads (E : FilterEnv) (o : Operand) (n : Node) : Prop where
  kind : nodeKind n = kind E o
  clean : Clean n
  written : Named E n ↔ Written E o
  date : ∀ L type, outOfRange L n type = true ↔ DateOverflows L type o

section

variable {E : FilterEnv} {L : Limits} {n : Node} {o : Operand}

theorem fieldPath_ne_literal {p : FieldPath} (h : E.fieldPath p.parts = .ok n) (v : Value) :
    n ≠ .literal v := by
  rintro rfl
  simp only [FilterEnv.fieldPath, bind, Except.bind, pure, Except.pure, Functor.map,
    Except.map] at h
  repeat' split at h
  all_goals simp at h

theorem not_outOfRange {type : Option FieldType} (h : ∀ v, n ≠ .literal v) :
    ¬outOfRange L n type = true := by
  unfold outOfRange
  split
  · exact absurd rfl (h _)
  · exact Bool.false_ne_true

theorem reads_of_operandNode (htable : IsIdent E.table) (h : E.operandNode o = .ok n) :
    Reads E o n := by
  cases o with
  | fieldPath p =>
    obtain ⟨hkind, hnamed, hfield⟩ := fieldPath_reads htable h
    refine ⟨hkind, ?_, hnamed.trans (and_iff_left hfield).symm, fun L type => ?_⟩
    · intro coll path key hn
      exact absurd hn ((fieldPath_ne h).2 coll path key)
    · exact iff_of_false (not_outOfRange (fieldPath_ne_literal h)) id
  | macroName name =>
    cases hstem : isCollectionMacro name with
    | true =>
      obtain ⟨hkind, hclean, ⟨coll, path, key, rfl⟩, hok⟩ := collection_reads hstem h
      refine ⟨?_, hclean, iff_of_true trivial ?_, fun L type => iff_of_false Bool.false_ne_true id⟩
      · exact hkind
      · simp only [Written, hstem, if_true]
        exact hok
    | false =>
      obtain rfl := Except.ok.inj (h.symm.trans (macroNode_of_not_collection hstem))
      refine ⟨?_, by rintro _ _ _ ⟨⟩, ?_, fun L type => iff_of_false Bool.false_ne_true id⟩
      · simp [kind, macroKind, nodeKind, hstem]
      · simp [Written, hstem, Named]
  | number raw =>
    obtain ⟨hok, q, rfl⟩ := numberLiteral_reads h
    exact ⟨rfl, by rintro _ _ _ ⟨⟩, iff_of_true trivial hok, fun L type => iff_of_false Bool.false_ne_true id⟩
  | string raw =>
    obtain rfl := Except.ok.inj h
    refine ⟨rfl, by rintro _ _ _ ⟨⟩, Iff.rfl, fun L type => ?_⟩
    simp only [outOfRange, DateOverflows, Bool.and_eq_true, decide_eq_true_eq, and_assoc]
  | _ =>
    obtain rfl := Except.ok.inj h
    exact ⟨rfl, by rintro _ _ _ ⟨⟩, Iff.rfl, fun L type => iff_of_false Bool.false_ne_true id⟩

theorem succeeds_operandNode (htable : IsIdent E.table) (h : Written E o) :
    Succeeds (E.operandNode o) := by
  cases o with
  | fieldPath p => exact succeeds_fieldPath htable h.1 h.2
  | macroName name =>
    cases hstem : isCollectionMacro name with
    | true =>
      simp only [Written, hstem, if_true] at h
      exact succeeds_collection hstem h
    | false => exact ⟨_, macroNode_of_not_collection hstem⟩
  | number raw => exact succeeds_numberLiteral h
  | _ => exact succeeds_ok _

end

/-! ## Filters -/

section

variable {E : FilterEnv} {L : Limits} {k : Comparison}

/-- A literal that is compared with a node is converted for the type of the operand behind it. -/
theorem literalType_eq {n : Node} {o : Operand} (h : Reads E o n)
    (hrefers : ∀ c p, kind E o = .reference c p → Refers E c p) (op : Operator) :
    literalType E op n = comparedType E op (kind E o) := by
  rw [← h.kind] at hrefers ⊢
  cases n with
  | collectionRef coll path key =>
    obtain ⟨ref, href, htype⟩ := resolveCollectionRef_of_refers key (h.clean _ _ _ rfl)
      (hrefers _ _ rfl) op
    simp only [literalType, href]
    exact htype
  | fieldModifier name m =>
    simp only [literalType, Node.fieldType]
    cases m <;> cases op <;> rfl
  | macroName name =>
    simp only [literalType, nodeKind, Node.fieldType]
    split_ifs <;> cases op <;> rfl
  | _ => rfl

theorem refers_of_pairs {k k' : OperandKind} (h : Pairs E k k')
    (hk' : ∀ m type, k' ≠ .traversal m type) (c : Text) (p : List Text)
    (hk : k = .reference c p) : Refers E c p := by
  subst hk
  cases k' with
  | traversal m type => exact absurd rfl (hk' m type)
  | _ => exact h.1

/-- The callbacks convert a literal for the type of the operand on the other side. -/
theorem dateOverflows_iff {n : Node} {o other : Operand} (h : Reads E o n)
    (hpairs : Pairs E (kind E o) (kind E other)) (op : Operator) :
    DateOverflows L (literalType E op n) other ↔
      DateOverflows L (comparedType E op (kind E o)) other := by
  cases other with
  | string raw => rw [literalType_eq h (refers_of_pairs hpairs nofun) op]
  | _ => exact Iff.rfl

/-- The callbacks of a comparison return. -/
def Compiles (E : FilterEnv) (k : Comparison) : Prop :=
  ∃ l r, E.operandNode k.left = .ok l ∧ E.operandNode k.right = .ok r ∧
    Succeeds (E.comparison l k.op r)

theorem compiles_iff (htable : IsIdent E.table) : Compiles E k ↔
    Written E k.left ∧ Written E k.right ∧ Pairs E (kind E k.left) (kind E k.right) := by
  constructor
  · rintro ⟨l, r, hl, hr, h⟩
    have hleft := reads_of_operandNode htable hl
    have hright := reads_of_operandNode htable hr
    rwa [succeeds_comparison hleft.clean hright.clean, hleft.written, hright.written, hleft.kind,
      hright.kind] at h
  · rintro ⟨hwl, hwr, hpairs⟩
    obtain ⟨l, hl⟩ := succeeds_operandNode htable hwl
    obtain ⟨r, hr⟩ := succeeds_operandNode htable hwr
    have hleft := reads_of_operandNode htable hl
    have hright := reads_of_operandNode htable hr
    refine ⟨l, r, hl, hr, ?_⟩
    rw [succeeds_comparison hleft.clean hright.clean, hleft.written, hright.written, hleft.kind,
      hright.kind]
    exact ⟨hwl, hwr, hpairs⟩

theorem comparisonOverflows_iff (htable : IsIdent E.table) (h : Compiles E k) :
    comparisonOverflows E L k = true ↔
      DateOverflows L (comparedType E k.op (kind E k.left)) k.right ∨
        DateOverflows L (comparedType E k.op (kind E k.right)) k.left := by
  have hpairs := ((compiles_iff htable).1 h).2.2
  obtain ⟨l, r, hl, hr, -⟩ := h
  have hleft := reads_of_operandNode htable hl
  have hright := reads_of_operandNode htable hr
  simp only [comparisonOverflows, hl, hr]
  rw [Bool.or_eq_true, hright.date, hleft.date, dateOverflows_iff hleft hpairs,
    dateOverflows_iff hright (pairs_comm.1 hpairs)]

theorem comparable_iff (htable : IsIdent E.table) :
    Comparable E L k ↔ Compiles E k ∧ comparisonOverflows E L k = false := by
  constructor
  · intro h
    have hcompiles := (compiles_iff htable).2 ⟨h.left, h.right, h.pairs⟩
    refine ⟨hcompiles, ?_⟩
    rw [Bool.eq_false_iff, Ne, comparisonOverflows_iff htable hcompiles]
    exact not_or.2 ⟨h.dateRight, h.dateLeft⟩
  · rintro ⟨hcompiles, hdate⟩
    rw [Bool.eq_false_iff, Ne, comparisonOverflows_iff htable hcompiles] at hdate
    obtain ⟨hleft, hright, hpairs⟩ := (compiles_iff htable).1 hcompiles
    exact ⟨hleft, hright, hpairs, (not_or.1 hdate).1, (not_or.1 hdate).2⟩

mutual

/-- A filter compiles if its comparisons do. -/
theorem succeeds_compileExpr : ∀ {e : Expr},
    Succeeds (compileExpr E e) ↔ ∀ k ∈ comparisons e, Compiles E k
  | .one c => by
    rw [compileExpr, succeeds_map]
    exact succeeds_conjItems
  | .or c e => by
    rw [compileExpr, comparisons, List.forall_mem_append, ← succeeds_conjItems,
      ← succeeds_compileExpr, succeeds_bind]
    constructor
    · rintro ⟨items, hitems, h⟩
      exact ⟨⟨items, hitems⟩, (succeeds_bind_iff fun _ => succeeds_ok _).1 h⟩
    · rintro ⟨⟨items, hitems⟩, h⟩
      exact ⟨items, hitems, (succeeds_bind_iff fun _ => succeeds_ok _).2 h⟩

theorem succeeds_conjItems : ∀ {c : Conj},
    Succeeds (conjItems E c) ↔ ∀ k ∈ conjComparisons c, Compiles E k
  | .one a => by
    rw [conjItems, conjComparisons, ← succeeds_atomItem]
    exact succeeds_bind_iff fun _ => succeeds_ok _
  | .and a c => by
    rw [conjItems, conjComparisons, List.forall_mem_append, ← succeeds_atomItem,
      ← succeeds_conjItems, succeeds_bind]
    constructor
    · rintro ⟨item, hitem, h⟩
      exact ⟨⟨item, hitem⟩, (succeeds_bind_iff fun _ => succeeds_ok _).1 h⟩
    · rintro ⟨⟨item, hitem⟩, h⟩
      exact ⟨item, hitem, (succeeds_bind_iff fun _ => succeeds_ok _).2 h⟩

theorem succeeds_atomItem : ∀ {a : Atom},
    Succeeds (atomItem E a) ↔ ∀ k ∈ atomComparisons a, Compiles E k
  | .comparison k => by
    rw [atomItem, atomComparisons, List.forall_mem_singleton, succeeds_bind]
    constructor
    · rintro ⟨l, hl, h⟩
      obtain ⟨r, hr, h⟩ := succeeds_bind.1 h
      exact ⟨l, r, hl, hr, h⟩
    · rintro ⟨l, r, hl, hr, h⟩
      exact ⟨l, hl, succeeds_bind.2 ⟨r, hr, h⟩⟩
  | .paren e => by
    rw [atomItem, succeeds_map]
    exact succeeds_compileExpr

end

theorem transform_iff {e : Expr} (htable : IsIdent E.table) :
    (Succeeds (compileExpr E e) ∧ (comparisons e).any (comparisonOverflows E L) = false) ↔
      ∀ k ∈ comparisons e, Comparable E L k := by
  rw [succeeds_compileExpr, List.any_eq_false, ← forall₂_and]
  refine forall₂_congr fun k _ => ?_
  rw [comparable_iff htable, Bool.not_eq_true]

end

variable (E : FilterEnv) (L : Limits) (s : Text)

/-- `parse_filter` returns or raises `ValueError`, and the list endpoint does not fail, exactly for
a blank text, a text that is not parsed, a table that is no identifier, and a filter within the
recursion limit each comparison of which can be compiled. -/
theorem meetsContract_iff : MeetsContract (parseFilterOutcome E L s) ↔
    (Text.strip s ≠ [] → ∀ e, parseText s = some e → IsIdent E.table →
      L.tooDeep e = false ∧ ∀ k ∈ comparisons e, Comparable E L k) := by
  unfold parseFilterOutcome
  split_ifs with hblank
  · exact iff_of_true ⟨Or.inl ⟨_, rfl⟩, nofun⟩ fun h => absurd hblank h
  · rw [forall_prop_of_true hblank]
    cases hparse : parseText s with
    | none => exact iff_of_true ⟨Or.inr ⟨_, rfl⟩, by simp [listStatus]⟩ nofun
    | some e =>
      dsimp only
      cases htable : sanitizeIdent E.table with
      | error err =>
        refine iff_of_true ⟨Or.inr ⟨_, rfl⟩, by simp [listStatus]⟩ fun e' _ hident => ?_
        rw [sanitizeIdent_ok.2 ⟨hident, rfl⟩] at htable
        cases htable
      | ok t =>
        have hident := (sanitizeIdent_ok.1 htable).1
        have hcond : (∀ e', some e = some e' → IsIdent E.table → L.tooDeep e' = false ∧
            ∀ k ∈ comparisons e', Comparable E L k) ↔ L.tooDeep e = false ∧
              Succeeds (compileExpr E e) ∧
                (comparisons e).any (comparisonOverflows E L) = false := by
          rw [transform_iff hident]
          refine ⟨fun h => h e rfl hident, fun h e' he _ => ?_⟩
          obtain rfl := Option.some.inj he
          exact h
        rw [hcond]
        dsimp only
        split_ifs with hdeep hdate
        · exact iff_of_false (fun h => h.2 rfl) fun h => Bool.false_ne_true (h.1.symm.trans hdeep)
        · exact iff_of_false (fun h => h.2 rfl) fun h => Bool.false_ne_true (h.2.2.symm.trans hdate)
        · rw [Bool.not_eq_true] at hdeep hdate
          cases hc : compileExpr E e with
          | error err => exact iff_of_false (fun h => h.2 rfl) fun h => not_succeeds_error _ h.2.1
          | ok c => exact iff_of_true ⟨Or.inl ⟨c, rfl⟩, nofun⟩ ⟨hdeep, ⟨c, rfl⟩, hdate⟩

/-- A filter with a malformed reference. -/
def malformed : Text := "@collection.users = 'x'"

theorem parseText_malformed : parseText malformed =
    some (.one (.one (.comparison ⟨.macroName "@collection.users", .eq, .string "'x'"⟩))) :=
  IndexDetection.parseText_of_lex (by decide)

/-- The error of the callback is a `VisitError`, and the list endpoint fails. -/
theorem callback_error_escapes : ¬∀ (E : FilterEnv) (L : Limits) (s : Text),
    MeetsContract (parseFilterOutcome E L s) := by
  intro h
  have hmeets := h ⟨.simple, {}, {}, none, "posts"⟩ ⟨fun _ => false, fun _ => false⟩ malformed
  have hvisit : parseFilterOutcome ⟨.simple, {}, {}, none, "posts"⟩
      ⟨fun _ => false, fun _ => false⟩ malformed = .visitError := by
    unfold parseFilterOutcome
    rw [if_neg (by decide), parseText_malformed]
    rfl
  rw [hvisit] at hmeets
  exact hmeets.2 rfl

end FilterErrors

end PPBase
