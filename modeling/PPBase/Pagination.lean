import PPBase.Paging
import PPBase.Rules

/-!
# Pages of a record list

`listRecords` counts the records that a filter selects and returns one page of them, cut from the
order in which the database returns them. `orderBy` is the `ORDER BY` clause : the sort expression
as `parseSort` reads it, or the default. Nothing is added to it that would order tied rows, so the
query may return these in another order for every page.

The pages together are the matching records, for every choice of these orders, if and only if the
sort keys do not tie different records across the end of a page (`listAll_perm_iff`).
-/

namespace PPBase

open Sql

namespace Pagination

/-! ## Sort expressions -/

/-- What a part of a sort expression orders by. -/
inductive SortExpr where
  | column (name : Text)
  | dotted (path : Text)
  | random
  | rowid
  /-- `ORDER BY 1` -/
  | first
deriving DecidableEq

/-- A sort expression with its direction. -/
structure SortKey where
  expr : SortExpr
  desc : Bool
deriving DecidableEq

/-- Why there is no list : an exception of the service, or of the query. -/
inductive ListError where
  | filter (e : FilterError)
  | invalidCharacter (c : Char)
  | invalidSortField (name : Text)
  | query
deriving DecidableEq

/-- The sign of a part of a sort expression and its name. -/
def signed : Text → Bool × Text
  | '-' :: name => (true, name)
  | '+' :: name => (false, name)
  | name => (false, name)

/-- One round of the loop of `parse_sort`. -/
def sortPart (part : Text) : Except ListError (Option SortKey) :=
  if part.strip = [] then .ok none
  else if part.strip = "@random" then .ok (some ⟨.random, false⟩)
  else if part.strip = "@rowid" then .ok (some ⟨.rowid, false⟩)
  else
    match (signed part.strip).2.find? fun ch => !(Text.isIdentChar ch || ch = '.') with
    | some ch => .error (.invalidCharacter ch)
    | none =>
      if '.' ∈ (signed part.strip).2 then
        .ok (some ⟨.dotted (signed part.strip).2, (signed part.strip).1⟩)
      else
        .ok (some ⟨.column (signed part.strip).2, (signed part.strip).1⟩)

/-- `parse_sort` -/
def parseSort (sort : Text) : Except ListError (List SortKey) :=
  if sort.strip = [] then .ok []
  else ((Text.split ',' sort).mapM sortPart).map List.reduceOption

/-- `col_expr.strip('"')` -/
def SortExpr.colName : SortExpr → Text
  | .column name => name
  | .dotted path => path
  | .random => "RANDOM()"
  | .rowid => "ctid"
  | .first => "1"

/-- The order of a list without a sort expression. -/
def defaultOrder (c : Collection) : List SortKey :=
  if c.type = .view ∧ ("created" : Text) ∉ c.schema.map Field.name then [⟨.first, false⟩]
  else [⟨.column "created", true⟩]

/-- The sort expression is neither a field nor a function. -/
def isInvalid (c : Collection) (k : SortKey) : Bool :=
  k.expr.colName ∉ (["id", "created", "updated"] : List Text) ++ c.schema.map Field.name &&
    k.expr ≠ .random && k.expr.colName ≠ "ctid"

/-- The `ORDER BY` clause of `list_records`. -/
def orderBy (c : Collection) (sort : Option Text) : Except ListError (List SortKey) :=
  match sort with
  | none => .ok (defaultOrder c)
  | some sort =>
    match parseSort sort with
    | .error e => .error e
    | .ok [] => .ok (defaultOrder c)
    | .ok keys =>
      match keys.find? (isInvalid c) with
      | some k => .error (.invalidSortField k.expr.colName)
      | none => .ok keys

/-! ## The order of rows -/

/-- What PostgreSQL finds a sort expression to be : a column, the place of the row, or a random
number. -/
inductive Source where
  | column (name : Text)
  | place
  | random
deriving DecidableEq

/-- Views have no `ctid`, and an unquoted path is folded to lower case. -/
def source? (c : Collection) (columns : List Text) : SortExpr → Option Source
  | .column name =>
    if name ∈ columns then some (.column name)
    else if name = "ctid" ∧ c.type ≠ .view then some .place
    else none
  | .dotted path =>
    (columns.find? fun column => path.lower = c.name ++ '.' :: column).map .column
  | .random => some .random
  | .rowid => if c.type = .view then none else some .place
  | .first => columns.head?.map .column

/-- How PostgreSQL compares : the values of a column (in ascending order, with `NULL` as the last),
and the places of rows. -/
structure Collation where
  column : Text → RowOrder Value
  ctid : Row → ℕ

variable (collation : Collation)

/-- The order by one source. -/
def Source.order : Source → RowOrder Row
  | .column name => (collation.column name).comap fun row => (row.get? name).getD .null
  | .place => (RowOrder.linear ℕ).comap collation.ctid
  | .random => .tied Row

/-- The order of the rows by an `ORDER BY` clause. `RANDOM()` is another number for every row and in
every query, so that rows that are tied before it may come in any order. -/
def rowOrder : List (Source × Bool) → RowOrder Row
  | [] => .tied Row
  | (.random, _) :: _ => .tied Row
  | (source, desc) :: keys =>
    let order := source.order collation
    (if desc then order.desc else order).lex (rowOrder keys)

/-! ## Lists -/

/-- The arguments of `list_records`. -/
structure ListQuery where
  page : ℤ := 1
  perPage : ℤ := 30
  sort : Option Text := none
  filter : Option Text := none
  skipTotal : Bool := false

/-- `build_list_response`, with the records that the items are built from. -/
structure ListResponse where
  page : ℕ
  perPage : ℕ
  totalItems : ℤ
  totalPages : ℤ
  rows : List Row

/-- `per_page`, normalized -/
def clampPerPage (perPage : ℤ) : ℕ := (min 500 (if perPage ≤ 0 then 30 else perPage)).toNat

/-- `page`, normalized -/
def clampPage (page : ℤ) : ℕ := (max 1 page).toNat

/-- `total_pages` of `build_list_response` -/
def totalPages (totalItems : ℤ) (perPage : ℕ) : ℤ :=
  if totalItems < 0 then -1
  else if perPage = 0 then 0
  else max 1 ((totalItems + perPage - 1) / perPage)

variable (rt : Runtime) (pg : Pg) (db : Db) (c : Collection) (ctx : RequestContext)

/-- The `WHERE` clause of `list_records`. -/
def whereClause : Option Text → Except ListError Cond
  | none => .ok .tt
  | some filter =>
    if filter = [] then .ok .tt
    else
      match parseFilter (filterEnv rt db c ctx filter) filter with
      | .error e => .error (.filter e)
      | .ok cond => .ok cond

/-- The columns of the table of a collection. -/
def columns : List Text := ((db.tables.get? c.name).map Table.columns).getD []

/-- The clauses of the queries of `list_records`, as PostgreSQL accepts them. -/
def plan (sort filter : Option Text) : Except ListError (Cond × List (Source × Bool)) :=
  match whereClause rt db c ctx filter with
  | .error e => .error e
  | .ok cond =>
    match orderBy c sort with
    | .error e => .error e
    | .ok keys =>
      match keys.mapM fun k => (source? c (columns db c) k.expr).map fun source => (source,
        k.desc) with
      | none => .error .query
      | some sources => if Accepted db c.name cond then .ok (cond, sources) else .error .query

/-- The rows that a condition selects. -/
def matching (cond : Cond) : List Row :=
  (db.rows c.name).filter fun row => decide (truthAt pg db c.name cond row).Holds

/-- `list_records`. The query returns the matching rows as `arrange` puts them. -/
def listRecords (arrange : List Row → List Row) (q : ListQuery) : Except ListError ListResponse :=
  match plan rt db c ctx q.sort q.filter with
  | .error e => .error e
  | .ok (cond, _) =>
    let perPage := clampPerPage q.perPage
    let page := clampPage q.page
    let totalItems : ℤ := if q.skipTotal then -1 else (matching pg db c cond).length
    .ok {
      page, perPage, totalItems
      totalPages := totalPages totalItems perPage
      rows := ((arrange (matching pg db c cond)).drop ((page - 1) * perPage)).take perPage }

/-- The pages from the first to the last, each fetched by a query of its own, put together. -/
def listAll (arrange : ℕ → List Row → List Row) (perPage : ℤ) (sort filter : Option Text) :
    Except ListError (List Row) := do
  let first ← listRecords rt pg db c ctx (arrange 0) { perPage, sort, filter }
  let pages ← (List.range first.totalPages.toNat).mapM fun k =>
    listRecords rt pg db c ctx (arrange k) { page := (k + 1 : ℕ), perPage, sort, filter }
  return pages.flatMap ListResponse.rows

variable {rt pg db c ctx} {collation} {sort filter : Option Text} {cond : Cond}
  {keys : List (Source × Bool)}

theorem clampPerPage_pos (perPage : ℤ) : 0 < clampPerPage perPage := by
  rw [clampPerPage]
  split_ifs <;> omega

/-- The pages up to the last one have room for all rows. -/
theorem le_totalPages (n : ℕ) {p : ℕ} (hp : 0 < p) : n ≤ (totalPages n p).toNat * p := by
  have hdiv := Int.lt_ediv_add_one_mul_self ((n : ℤ) + p - 1) (Int.natCast_pos.2 hp)
  rw [totalPages, if_neg (by omega), if_neg (by omega)]
  have hnonneg : 0 ≤ max 1 (((n : ℤ) + p - 1) / p) := by omega
  have hle : (((n : ℤ) + p - 1) / p) * p ≤ max 1 (((n : ℤ) + p - 1) / p) * p :=
    Int.mul_le_mul_of_nonneg_right (le_max_right _ _) (by omega)
  have hcast : (((max 1 (((n : ℤ) + p - 1) / p)).toNat * p : ℕ) : ℤ) =
      max 1 (((n : ℤ) + p - 1) / p) * p := by
    rw [Int.natCast_mul, Int.toNat_of_nonneg hnonneg]
  rw [Int.add_mul, Int.one_mul] at hdiv
  omega

/-- What a page holds. -/
theorem listRecords_eq (hplan : plan rt db c ctx sort filter = .ok (cond, keys))
    (arrange : List Row → List Row) (perPage : ℤ) (k : ℕ) :
    listRecords rt pg db c ctx arrange { page := (k + 1 : ℕ), perPage, sort, filter } = .ok {
      page := k + 1, perPage := clampPerPage perPage, totalItems := (matching pg db c cond).length
      totalPages := totalPages (matching pg db c cond).length (clampPerPage perPage)
      rows := RowOrder.page (clampPerPage perPage) k (arrange (matching pg db c cond)) } := by
  have hpage : clampPage (k + 1 : ℕ) = k + 1 := by
    rw [clampPage]
    omega
  rw [listRecords]
  simp only [hplan, hpage, Nat.add_sub_cancel, Bool.false_eq_true, ↓reduceIte]
  rfl

/-- All pages together are the pages of the orders in which the queries return the rows. -/
theorem listAll_eq (hplan : plan rt db c ctx sort filter = .ok (cond, keys))
    (arrange : ℕ → List Row → List Row) (perPage : ℤ) :
    listAll rt pg db c ctx arrange perPage sort filter = .ok (RowOrder.pages (clampPerPage perPage)
      (totalPages (matching pg db c cond).length (clampPerPage perPage)).toNat
      fun k => arrange k (matching pg db c cond)) := by
  have hpages : ∀ k, listRecords rt pg db c ctx (arrange k)
      { page := (k + 1 : ℕ), perPage, sort, filter } = pure _ := fun k =>
    listRecords_eq hplan (arrange k) perPage k
  have hfirst : listRecords rt pg db c ctx (arrange 0) { perPage, sort, filter } = .ok _ :=
    listRecords_eq hplan (arrange 0) perPage 0
  rw [listAll, hfirst]
  simp only [hpages, List.mapM_pure]
  simp only [bind, Except.bind, pure, Except.pure, List.flatMap_map, RowOrder.pages]

/-- The pages are the matching records, each once, whichever order of tied rows the queries return,
if and only if the sort keys tie no different records across the end of a page. -/
theorem listAll_perm_iff (rt : Runtime) (pg : Pg) (db : Db) (c : Collection) (ctx : RequestContext)
    (collation : Collation) (perPage : ℤ) {sort filter : Option Text} {cond : Cond}
    {keys : List (Source × Bool)} (hplan : plan rt db c ctx sort filter = .ok (cond, keys)) :
    (∀ arrange : ℕ → List Row → List Row,
      (∀ k, (rowOrder collation keys).IsOrdering (matching pg db c cond)
        (arrange k (matching pg db c cond))) →
      ∃ rows, listAll rt pg db c ctx arrange perPage sort filter = .ok rows ∧
        rows.Perm (matching pg db c cond)) ↔
    ∀ k, ¬(rowOrder collation keys).TiedAcross (matching pg db c cond)
      (k * clampPerPage perPage) := by
  rw [← RowOrder.pages_perm_iff (le_totalPages (matching pg db c cond).length
    (clampPerPage_pos perPage))]
  constructor
  · intro h order horder
    obtain ⟨rows, hrows, hperm⟩ := h (fun k _ => order k) horder
    rw [listAll_eq hplan] at hrows
    cases hrows
    exact hperm
  · intro h arrange harrange
    exact ⟨_, listAll_eq hplan arrange perPage, h _ harrange⟩

/-! ## Two records of one moment -/

/-- A collection without fields. -/
def moments : Collection where
  id := "moments00000000"
  name := "moments"

/-- Two records that have been created at the same time. -/
def momentRows : List Row :=
  [[("id", .text "a"), ("created", .time 7)], [("id", .text "b"), ("created", .time 7)]]

/-- The database of these records. -/
def momentDb : Db where
  collections := [moments]
  tables := [("moments", ⟨["id", "created", "updated"], momentRows⟩)]

/-- Times in their order. -/
def timeOrder : Collation where
  column _ := (RowOrder.linear ℤ).comap fun
    | .time t => t
    | _ => 0
  ctid row := if row.get? "id" = some (.text "a") then 1 else 2

theorem plan_moments : plan .simple momentDb moments {} none none =
    .ok (.tt, [(.column "created", true)]) := rfl

/-- Two pages of one record each, with the two records of one moment. -/
theorem two_moments :
    (∀ arrange : ℕ → List Row → List Row,
      (∀ k, (rowOrder timeOrder [(.column "created", true)]).IsOrdering
        (matching .scalars momentDb moments .tt)
          (arrange k (matching .scalars momentDb moments .tt))) →
      ∃ rows, listAll .simple .scalars momentDb moments {} arrange 1 none none = .ok rows ∧
        rows.Perm (matching .scalars momentDb moments .tt)) ↔
    ∀ k, ¬(rowOrder timeOrder [(.column "created", true)]).TiedAcross
      (matching .scalars momentDb moments .tt) (k * clampPerPage 1) :=
  listAll_perm_iff .simple .scalars momentDb moments {} timeOrder 1 plan_moments

/-- The second query returns the records the other way round : both pages hold the same one. -/
theorem same_record_twice : ¬∀ (rt : Runtime) (pg : Pg) (db : Db) (c : Collection)
    (ctx : RequestContext) (collation : Collation) (perPage : ℤ) (sort filter : Option Text)
    (cond : Cond) (keys : List (Source × Bool)),
    plan rt db c ctx sort filter = .ok (cond, keys) →
    ∀ arrange : ℕ → List Row → List Row,
      (∀ k, (rowOrder collation keys).IsOrdering (matching pg db c cond)
        (arrange k (matching pg db c cond))) →
      ∃ rows, listAll rt pg db c ctx arrange perPage sort filter = .ok rows ∧
        rows.Perm (matching pg db c cond) := by
  intro h
  have hrows : matching .scalars momentDb moments .tt = momentRows := by decide
  obtain ⟨rows, hall, hperm⟩ := h .simple .scalars momentDb moments {} timeOrder 1 none none _ _
    plan_moments (fun k rows => if k = 0 then rows else rows.reverse) fun k => by
      rw [hrows]
      split_ifs
      · exact ⟨.refl _, by decide⟩
      · exact ⟨List.reverse_perm _, by decide⟩
  rw [listAll_eq plan_moments, hrows] at hall
  cases hall
  rw [hrows] at hperm
  exact absurd hperm (by decide)

end Pagination

end PPBase
