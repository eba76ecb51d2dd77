import PPBase.Schema

/-!
# Where a view takes a file column from

The file endpoint finds the record that owns a file shown through a view by reading the query
of the view : the tables after `FROM` and `JOIN` with their aliases, and the expression that is
selected under the name of the column. Regular expressions are written as the scanners they
stand for.
-/

namespace PPBase

/-- The case mapping and the letters of Python's strings. -/
structure CharTables where
  upper : Text → Text
  lower : Text → Text
  isalnum : Char → Bool

namespace ViewSource

/-- `[A-Za-z_][A-Za-z0-9_]*` or `"[^"]+"` : the name without quotes, and the rest. -/
def name? : Text → Option (Text × Text)
  | [] => none
  | '"' :: s =>
    match s.takeWhile (· ≠ '"'), s.dropWhile (· ≠ '"') with
    | [], _ => none
    | n, '"' :: rest => some (n, rest)
    | _, _ => none
  | c :: s =>
    if Text.isIdentStart c then
      some (c :: s.takeWhile Text.isIdentChar, s.dropWhile Text.isIdentChar)
    else none

/-- `\s+` -/
def spaces? : Text → Option Text
  | [] => none
  | c :: s => if Text.isSpace c then some (s.dropWhile Text.isSpace) else none

/-- A keyword in any case. -/
def keyword? (word : Text) (s : Text) : Option Text :=
  if Text.lower (s.take word.length) = word then some (s.drop word.length) else none

/-- `re.sub(r"/\*.*?\*/", " ", s)`, with the characters of a match still to be skipped. -/
def stripBlockComments : ℕ → Text → Text
  | _, [] => []
  | n + 1, _ :: s => stripBlockComments n s
  | 0, c :: s =>
    match (Text.afterPrefix? "/*" (c :: s)).bind (Text.partition? "*/") with
    | some (inside, _) => ' ' :: stripBlockComments (inside.length + 3) s
    | none => c :: stripBlockComments 0 s

/-- `re.sub(r"--[^\n\r]*", " ", s)`, outside a comment or inside one. -/
def stripLineComments : Bool → Text → Text
  | _, [] => []
  | true, c :: s => if c = '\n' ∨ c = '\r' then c :: stripLineComments false s else stripLineComments true s
  | false, '-' :: '-' :: s => ' ' :: stripLineComments true s
  | false, c :: s => c :: stripLineComments false s

/-- `_strip_sql_comments` -/
def stripSqlComments (query : Text) : Text := stripLineComments false (stripBlockComments 0 query)

/-- `_SQL_KEYWORDS` -/
def sqlKeywords : List Text :=
  ["and".toList, "cross".toList, "full".toList, "group".toList, "having".toList, "inner".toList,
    "join".toList, "left".toList, "limit".toList, "on".toList, "order".toList, "right".toList,
    "union".toList, "where".toList]

/-- The optional alias of a source, and the rest. -/
def sourceAlias? (s : Text) : Option (Text × Text) :=
  (spaces? s).bind fun s' =>
    ((keyword? "as" s').bind fun r => (spaces? r).bind name?).or (name? s')

/-- `_QUERY_SOURCE_RE` at a word boundary : the table, the alias and the rest. -/
def source? (s : Text) : Option (Text × Option Text × Text) :=
  ((keyword? "from" s).or (keyword? "join" s)).bind fun r =>
    (spaces? r).bind fun r => (name? r).map fun (table, r) =>
      match sourceAlias? r with
      | some (name, rest) => (table, some name, rest)
      | none => (table, none, r)

/-- The matches of `_QUERY_SOURCE_RE`, after a previous character and with the characters of a
match still to be skipped. -/
def querySources (U : CharTables) : Option Char → ℕ → Text → List (Text × Option Text)
  | _, _, [] => []
  | _, n + 1, c :: s => querySources U (some c) n s
  | prev, 0, c :: s =>
    if prev.any fun p => U.isalnum p || p = '_' then querySources U (some c) 0 s
    else
      match source? (c :: s) with
      | some (table, name?, rest) =>
        (table, name?) :: querySources U (some c) (s.length - rest.length) s
      | none => querySources U (some c) 0 s

/-- `_extract_query_sources` -/
def extractQuerySources (U : CharTables) (query : Text) : Dict Text Text :=
  (querySources U none 0 (stripSqlComments query)).foldl (fun d (table, name?) =>
    let name := name?.getD table
    let name := if U.lower name ∈ sqlKeywords then table else name
    (d.set table table).set name table) []

/-- The loop of `_find_top_level_from_index`, at an index, with the upper-case text from there
on. -/
def topLevelFrom (U : CharTables) : ℕ → Option Char → Char → ℕ → Text → Text → Option ℕ
  | _, _, _, _, [], _ => none
  | depth, some q, _, i, c :: s, u => topLevelFrom U depth (if c = q then none else some q) c (i + 1) s (u.drop 1)
  | depth, none, prev, i, c :: s, u =>
    let word (c : Char) : Bool := U.isalnum c || c = '_'
    if c = '\'' ∨ c = '"' then topLevelFrom U depth (some c) c (i + 1) s (u.drop 1)
    else if c = '(' then topLevelFrom U (depth + 1) none c (i + 1) s (u.drop 1)
    else if c = ')' ∧ 0 < depth then topLevelFrom U (depth - 1) none c (i + 1) s (u.drop 1)
    else if depth = 0 ∧ u.take 4 = "FROM".toList ∧ word prev = false ∧
        word (((c :: s).drop 4).head?.getD ' ') = false then some i
    else topLevelFrom U depth none c (i + 1) s (u.drop 1)

/-- `_find_top_level_from_index` -/
def findTopLevelFromIndex (U : CharTables) (query : Text) : Option ℕ :=
  topLevelFrom U 0 none ' ' 0 query (U.upper query)

/-- `_get_view_select_clause` -/
def viewSelectClause (U : CharTables) (query : Text) : Text :=
  let stripped := Text.strip query
  if (U.upper stripped).take 6 ≠ "SELECT".toList then []
  else
    match findTopLevelFromIndex U stripped with
    | none => []
    | some i => (stripped.take i).drop 6

/-- `_split_select_expressions`, with the expression read so far in reverse. -/
def splitExpressions : ℕ → Option Char → Text → Text → List Text
  | _, _, acc, [] => if Text.strip acc.reverse = [] then [] else [Text.strip acc.reverse]
  | depth, some q, acc, c :: s => splitExpressions depth (if c = q then none else some q) (c :: acc) s
  | depth, none, acc, c :: s =>
    if c = '\'' ∨ c = '"' then splitExpressions depth (some c) (c :: acc) s
    else if c = '(' then splitExpressions (depth + 1) none (c :: acc) s
    else if c = ')' ∧ 0 < depth then splitExpressions (depth - 1) none (c :: acc) s
    else if c = ',' ∧ depth = 0 then Text.strip acc.reverse :: splitExpressions depth none [] s
    else splitExpressions depth none (c :: acc) s

def splitSelectExpressions (selectSql : Text) : List Text := splitExpressions 0 none [] selectSql

/-- `_parse_simple_column_reference` : the alias and the column. -/
def parseSimpleColumnReference (expression : Text) : Option (Option Text × Text) :=
  match name? (Text.strip expression) with
  | some (field, []) => some (none, field)
  | some (table, '.' :: rest) =>
    match name? rest with
    | some (field, []) => some (some table, field)
    | _ => none
  | _ => none

/-- `\s+AS\s+name\s*$` here. -/
def outputName? (s : Text) : Option Text :=
  (spaces? s).bind fun s => (keyword? "as" s).bind fun s => (spaces? s).bind fun s =>
    (name? s).bind fun (n, rest) => if rest.all Text.isSpace then some n else none

/-- The first match of `\s+AS\s+name\s*$` : what stands before it, and the name. -/
def searchOutputName : Text → Option (Text × Text)
  | [] => none
  | c :: s =>
    match outputName? (c :: s) with
    | some n => some ([], n)
    | none => (searchOutputName s).map fun (before, n) => (c :: before, n)

/-- An expression of the select clause : its source, and the name of its column. -/
def selected (expression : Text) : Text × Text :=
  match searchOutputName expression with
  | some (before, n) => (Text.strip before, n)
  | none =>
    (Text.strip expression,
      ((parseSimpleColumnReference (Text.strip expression)).map Prod.snd).getD [])

/-- `_get_view_query` -/
def viewQuery (c : Collection) : Text :=
  Text.strip (if c.options.query ≠ [] then c.options.query else c.options.viewQuery)

/-- `_view_file_source_hint` : the table, if it is known, and the column. -/
def viewFileSourceHint (U : CharTables) (c : Collection) (field : Text) : Option Text × Text :=
  let query := stripSqlComments (viewQuery c)
  let sources := extractQuerySources U query
  let hints := (splitSelectExpressions (viewSelectClause U query)).filterMap fun expression =>
    let (source, output) := selected expression
    if output ≠ field then none
    else
      (parseSimpleColumnReference source).map fun (table?, column) =>
        (sources.get? (table?.getD []), column)
  hints.head?.getD (none, field)

end ViewSource

end PPBase
