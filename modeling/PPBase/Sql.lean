import PPBase.Schema

/-!
# Conditions

The conditions `parse_filter` builds, as trees. A column is found by name from the inside
out, so a column of an outer table can be captured by an inner table of the same name, as
in the text of the query. `Cond.eval` is the truth value of a condition, given what
PostgreSQL computes for the operators (`Pg`). `Cond.resolves` is the check PostgreSQL makes
before it runs a query : every table exists and every column name resolves. A row satisfies
a condition when the query is accepted and the condition is true of it (`Satisfies`); a
query that is rejected or aborted selects no row.

`satisfies_and` and `holds_truthAt_or` are the two facts the access rules rest on.
-/

namespace PPBase

/-! ## Three-valued logic -/

/-- `some true`, `some false`, or unknown. A condition selects a row only when it is true. -/
abbrev Truth := Option Bool

namespace Truth

/-- The value that selects a row. -/
def Holds (t : Truth) : Prop := t = some true

instance (t : Truth) : Decidable t.Holds := inferInstanceAs (Decidable (t = some true))

def and : Truth → Truth → Truth
  | some false, _ => some false
  | _, some false => some false
  | some true, some true => some true
  | _, _ => none

def or : Truth → Truth → Truth
  | some true, _ => some true
  | _, some true => some true
  | some false, some false => some false
  | _, _ => none

def not : Truth → Truth := Option.map Bool.not

/-- `AND` over a list. -/
def all (ts : List Truth) : Truth := ts.foldr and (some true)

/-- `OR` over a list. -/
def any (ts : List Truth) : Truth := ts.foldr or (some false)

/-- `EXISTS` : true when some row holds, false otherwise, never unknown. -/
def exists_ (ts : List Truth) : Truth := some (decide (∃ t ∈ ts, t.Holds))

theorem holds_and {s t : Truth} : (and s t).Holds ↔ s.Holds ∧ t.Holds := by
  rcases s with _ | _ | _ <;> rcases t with _ | _ | _ <;> simp [and, Holds]

theorem holds_or {s t : Truth} : (or s t).Holds ↔ s.Holds ∨ t.Holds := by
  rcases s with _ | _ | _ <;> rcases t with _ | _ | _ <;> simp [or, Holds]

end Truth

/-! ## Operators -/

/-- The values of `_STANDARD_OPS`. -/
inductive CompareOp
  | eq | ne | gt | ge | lt | le
  deriving DecidableEq, Repr

/-- The date macros, all computed from the time of the query. -/
inductive Clock
  | now | second | minute | hour | weekday | day | month | year | yesterday | tomorrow
  | todayStart | todayEnd | monthStart | monthEnd | yearStart | yearEnd
  deriving DecidableEq, Repr

/-- What PostgreSQL computes for the operators the conditions use. -/
structure Pg where
  compare : CompareOp → Value → Value → Truth
  /-- `value op ANY(container)` -/
  any : CompareOp → Value → Value → Truth
  ilike : Value → Value → Truth
  /-- `v::text` -/
  text : Value → Value
  lower : Text → Text
  /-- `jsonb_extract_path` -/
  jsonPath : Value → List Text → Value
  /-- `jsonb_array_elements_text(to_jsonb(v))`, if `to_jsonb(v)` is an array. -/
  elements : Value → Option (List Value)
  /-- `unnest(COALESCE(v::text[], ARRAY[]::text[]))` -/
  items : Value → List Value
  clock : Clock → Value

/-- The comparison from equality and order. -/
def CompareOp.decide (isEq isLt : Bool) : CompareOp → Bool
  | eq => isEq
  | ne => !isEq
  | gt => !isEq && !isLt
  | ge => !isLt
  | lt => isLt
  | le => isEq || isLt

namespace Pg

/-- `ILIKE`, without escapes. -/
def likeMatch : Text → Text → Bool
  | [], s => s.isEmpty
  | '%' :: p, s => s.tails.any (likeMatch p)
  | '_' :: p, _ :: s => likeMatch p s
  | c :: p, d :: s => c.toLower == d.toLower && likeMatch p s
  | _ :: _, [] => false

/-- Values of one scalar type are compared by their own order, others not at all. -/
def compareScalars (op : CompareOp) : Value → Value → Truth
  | .num a, .num b => some (op.decide (a = b) (a < b))
  | .text a, .text b => some (op.decide (a = b) (a < b))
  | .bool a, .bool b => some (op.decide (a = b) (a < b))
  | .time a, .time b => some (op.decide (a = b) (a < b))
  | _, _ => none

def textOf : Value → Value
  | .text s => .text s
  | .bool b => .text (if b then "true" else "false")
  | .num q => if q.isInt then .text (toString q.num).toList else .null
  | _ => .null

/-- PostgreSQL on scalars of equal types, arrays and objects, enough to run conditions on
given rows. -/
def scalars : Pg where
  compare := compareScalars
  any op v
    | .list vs => Truth.any (vs.map (compareScalars op v))
    | _ => none
  ilike
    | .text s, .text p => some (likeMatch p s)
    | _, _ => none
  text := textOf
  lower := Text.lower
  jsonPath v p := p.foldl (fun v k =>
    match v with
    | .obj fs => (Dict.get? fs k).getD .null
    | _ => .null) v
  elements
    | .list vs => some (vs.map textOf)
    | _ => none
  items
    | .list vs => vs
    | _ => []
  clock _ := .time 0

end Pg

namespace Sql

/-! ## Names -/

/-- The tables in scope, innermost `FROM` first, each with its columns. -/
abbrev Scopes (α : Type*) := List (Dict Text (Dict Text α))

namespace Scopes

variable {α : Type*}

/-- `"t"."c"`, or `"c"` on its own. -/
def column? (S : Scopes α) : Option Text → Text → Option α
  | some t, c => (S.findSome? fun s => s.get? t).bind fun r => r.get? c
  | none, c => S.findSome? fun s => s.findSome? fun e => e.2.get? c

/-- An unquoted dotted path, which PostgreSQL folds to lower case. -/
def raw? (S : Scopes α) (path : Text) : Option α :=
  match (Text.split '.' path).map (List.map Char.toLower) with
  | [t, c] => S.column? (some t) c
  | [s, t, c] => if s = "public" then S.column? (some t) c else none
  | _ => none

end Scopes

/-! ## Terms -/

inductive Term
  /-- A literal or a bound parameter. -/
  | value (v : Value)
  | column (table : Option Text) (name : Text)
  | raw (path : Text)
  | clock (c : Clock)
  | jsonPath (t : Term) (path : List Text)
  | text (t : Term)
  | lower (t : Term)
  | length (t : Term)
  | notNull (t : Term)
  | changed (t : Term) (v : Value)
  | pattern (t : Term)

namespace Term

/-- `COALESCE(v::text, '')` -/
def textOrEmpty (pg : Pg) (v : Value) : Value :=
  match pg.text v with
  | .null => .text []
  | w => w

/-- The `:length` expression. -/
def lengthOf (pg : Pg) (v : Value) : Value :=
  if v = .null then .num 0
  else
    match pg.elements v with
    | some vs => .num vs.length
    | none =>
      match pg.text v with
      | .text s => .num s.length
      | _ => .null

/-- `'%' || v::text || '%'` -/
def patternOf (pg : Pg) (v : Value) : Value :=
  match pg.text v with
  | .text s => .text ('%' :: (s ++ ['%']))
  | _ => .null

/-- A truth value in a column position. -/
def ofTruth : Truth → Value
  | none => .null
  | some b => .bool b

def eval (pg : Pg) (S : Scopes Value) : Term → Value
  | value v => v
  | column t c => (S.column? t c).getD .null
  | raw p => (S.raw? p).getD .null
  | clock c => pg.clock c
  | jsonPath t p => pg.jsonPath (t.eval pg S) p
  | text t => pg.text (t.eval pg S)
  | lower t =>
    match textOrEmpty pg (t.eval pg S) with
    | .text s => .text (pg.lower s)
    | _ => .null
  | length t => lengthOf pg (t.eval pg S)
  | notNull t => .bool (t.eval pg S ≠ .null)
  | changed t v => ofTruth (pg.compare .ne (textOrEmpty pg (t.eval pg S)) (textOrEmpty pg v))
  | pattern t => patternOf pg (t.eval pg S)

def resolves (S : Scopes Unit) : Term → Bool
  | value _ | clock _ => true
  | column t c => (S.column? t c).isSome
  | raw p => (S.raw? p).isSome
  | jsonPath t _ | text t | lower t | length t | notNull t | changed t _ | pattern t => t.resolves S

end Term

/-! ## Conditions -/

inductive Cond
  /-- `TRUE`, and the `1=1` of an empty filter. -/
  | tt
  | ff
  | compare (op : CompareOp) (l r : Term)
  | ilike (negated : Bool) (l pattern : Term)
  | isNull (t : Term)
  | notNull (t : Term)
  /-- `v op ANY(container)` -/
  | any (op : CompareOp) (v container : Term)
  /-- `CASE WHEN jsonb_typeof(to_jsonb(container)) = 'array' THEN EXISTS (SELECT 1 FROM
  jsonb_array_elements_text(to_jsonb(container)) AS _elem(value) WHERE elem) ELSE scalar END` -/
  | caseArray (container : Term) (elem scalar : Cond)
  /-- `EXISTS (SELECT 1 FROM tables WHERE c)` -/
  | existsIn (tables : List Text) (c : Cond)
  /-- `NOT EXISTS (SELECT 1 FROM unnest(array) AS _elem WHERE NOT COALESCE((c), FALSE))` -/
  | each (array : Term) (c : Cond)
  | and (c d : Cond)
  | or (c d : Cond)

namespace Cond

/-- `" AND ".join(cs)` -/
def conj : List Cond → Cond
  | [] => tt
  | [c] => c
  | c :: cs => and c (conj cs)

/-- `" OR ".join(cs)` -/
def disj : List Cond → Cond
  | [] => ff
  | [c] => c
  | c :: cs => or c (disj cs)

/-- The rows of a `FROM` list : one of each table, by table name. -/
def froms (db : Db) : List Text → List (Dict Text Row)
  | [] => [[]]
  | t :: ts => (db.rows t).flatMap fun r => (froms db ts).map fun s => (t, r) :: s

/-- The `_elem` of `unnest(..) AS _elem`. -/
def unnestElem {α : Type*} (v : α) : Dict Text (Dict Text α) := [("_elem", [("_elem", v)])]

/-- The `_elem` of `jsonb_array_elements_text(..) AS _elem(value)`. -/
def jsonElem {α : Type*} (v : α) : Dict Text (Dict Text α) := [("_elem", [("value", v)])]

def eval (pg : Pg) (db : Db) : Cond → Scopes Value → Truth
  | tt, _ => some true
  | ff, _ => some false
  | compare op l r, S => pg.compare op (l.eval pg S) (r.eval pg S)
  | ilike false l p, S => pg.ilike (l.eval pg S) (p.eval pg S)
  | ilike true l p, S => (pg.ilike (l.eval pg S) (p.eval pg S)).not
  | isNull t, S => some (t.eval pg S = .null)
  | notNull t, S => some (t.eval pg S ≠ .null)
  | any op v t, S => pg.any op (v.eval pg S) (t.eval pg S)
  | caseArray t c d, S =>
    match pg.elements (t.eval pg S) with
    | some vs => Truth.exists_ (vs.map fun v => c.eval pg db (jsonElem v :: S))
    | none => d.eval pg db S
  | existsIn ts c, S => Truth.exists_ ((froms db ts).map fun s => c.eval pg db (s :: S))
  | each t c, S =>
    some (decide (∀ v ∈ pg.items (t.eval pg S), (c.eval pg db (unnestElem v :: S)).Holds))
  | and c d, S => (c.eval pg db S).and (d.eval pg db S)
  | or c d, S => (c.eval pg db S).or (d.eval pg db S)

/-- The columns of a `FROM` list, if its tables exist and no name stands twice. -/
def fromColumns? (db : Db) : List Text → Option (Dict Text (Dict Text Unit))
  | [] => some []
  | t :: ts =>
    match db.tables.get? t, fromColumns? db ts with
    | some tab, some s => if s.has t then none else some ((t, tab.columns.map (·, ())) :: s)
    | _, _ => none

def resolves (db : Db) : Cond → Scopes Unit → Bool
  | tt, _ | ff, _ => true
  | compare _ l r, S | ilike _ l r, S | any _ l r, S => l.resolves S && r.resolves S
  | isNull t, S | notNull t, S => t.resolves S
  | caseArray t c d, S => t.resolves S && c.resolves db (jsonElem () :: S) && d.resolves db S
  | existsIn ts c, S =>
    match fromColumns? db ts with
    | some s => c.resolves db (s :: S)
    | none => false
  | each t c, S => t.resolves S && c.resolves db (unnestElem () :: S)
  | and c d, S | or c d, S => c.resolves db S && d.resolves db S

end Cond

/-! ## Queries -/

/-- PostgreSQL accepts `SELECT .. FROM table WHERE c`. -/
def Accepted (db : Db) (table : Text) (c : Cond) : Prop :=
  ∃ s, Cond.fromColumns? db [table] = some s ∧ c.resolves db [s] = true

instance (db : Db) (table : Text) (c : Cond) : Decidable (Accepted db table c) :=
  match h : Cond.fromColumns? db [table] with
  | none => .isFalse fun ⟨_, hs, _⟩ => by simp [h] at hs
  | some s =>
    decidable_of_iff (c.resolves db [s] = true)
      ⟨fun hc => ⟨s, h, hc⟩, fun ⟨_, hs, hc⟩ => by rw [h] at hs; cases hs; exact hc⟩

/-- The truth value of a condition at a row of `table`. -/
def truthAt (pg : Pg) (db : Db) (table : Text) (c : Cond) (row : Row) : Truth :=
  c.eval pg db [[(table, row)]]

/-- `SELECT .. FROM table WHERE c` is accepted and selects the row. -/
def Satisfies (pg : Pg) (db : Db) (table : Text) (c : Cond) (row : Row) : Prop :=
  Accepted db table c ∧ (truthAt pg db table c row).Holds

instance (pg : Pg) (db : Db) (table : Text) (c : Cond) (row : Row) :
    Decidable (Satisfies pg db table c row) :=
  inferInstanceAs (Decidable (_ ∧ _))

section

variable {pg : Pg} {db : Db} {table : Text} {row : Row} {c d : Cond}

theorem accepted_and : Accepted db table (.and c d) ↔ Accepted db table c ∧ Accepted db table d := by
  simp only [Accepted, Cond.resolves, Bool.and_eq_true]
  constructor
  · rintro ⟨s, hs, hc, hd⟩
    exact ⟨⟨s, hs, hc⟩, s, hs, hd⟩
  · rintro ⟨⟨s, hs, hc⟩, s', hs', hd⟩
    rw [hs] at hs'
    obtain rfl := Option.some.inj hs'
    exact ⟨s, hs, hc, hd⟩

theorem accepted_or : Accepted db table (.or c d) ↔ Accepted db table c ∧ Accepted db table d :=
  accepted_and

theorem holds_truthAt_or : (truthAt pg db table (.or c d) row).Holds ↔
    (truthAt pg db table c row).Holds ∨ (truthAt pg db table d row).Holds := by
  simp only [truthAt, Cond.eval, Truth.holds_or]

theorem satisfies_and : Satisfies pg db table (.and c d) row ↔
    Satisfies pg db table c row ∧ Satisfies pg db table d row := by
  simp only [Satisfies, accepted_and, truthAt, Cond.eval, Truth.holds_and]
  tauto

end

end Sql

end PPBase
