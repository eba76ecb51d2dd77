import PPBase.Filter

/-!
# The client query guard

`assert_client_query_allowed` : every field path of a client's filter and sort is walked
through the schemas, and refused when a segment is a stored secret, a hidden field of a
collection the client may not see hidden fields of, or unknown.
-/

namespace PPBase

/-- `PROTECTED_FIELDS` -/
def protectedFields : List Text :=
  ["password", "password_hash", "passwordHash", "tokenKey", "token_key"]

/-- `_BASE_FIELDS` -/
def baseFields : List Text := ["id", "created", "updated"]

/-- `_AUTH_FIELDS` -/
def authFields : List Text := ["email", "emailVisibility", "email_visibility", "verified"]

/-- The `ValueError`s of the guard. -/
inductive GuardError
  | syntaxError
  | field (segment : Text)
  | collection (name : Text)
  deriving DecidableEq

namespace GuardError

/-- The text of the `ValueError`. The syntax error goes on with the parser's own message. -/
def message : GuardError → Text
  | syntaxError => "Invalid filter syntax: "
  | field s => ("Invalid filter field: " : Text) ++ s ++ ("." : Text)
  | collection n => ("Invalid filter collection: " : Text) ++ n ++ ("." : Text)

end GuardError

namespace Collection

/-- `_schema_fields(collection).get(name)` : a later field of the same name wins. -/
def field? (c : Collection) (name : Text) : Option Field :=
  c.schema.reverse.find? fun f => f.name = name ∧ f.name ≠ []

def allowedSystem (c : Collection) : List Text :=
  baseFields ++ if c.type = .auth then authFields else []

end Collection

/-- `options.get("collectionId") or definition.get("collectionId") or ""` -/
def Field.targetRef (f : Field) : Text :=
  match f.options.collectionId with
  | some (c :: cs) => c :: cs
  | _ => f.flat.collectionId.getD []

namespace ClientGuard

/-- A field reference : the collection it starts from, if not the queried one, and its
segments. -/
abbrev Reference := Option Text × List Text

/-- The reference of an operand, as `_paths` collects it. -/
def operandPath : Operand → List Reference
  | .fieldPath p => [(none, p.parts.map (Text.before ':'))]
  | .macroName name =>
    match Text.split '.' (name.dropWhile (· = '@')) with
    | head :: coll :: field :: rest =>
      if head = "collection" then
        [(some (Text.before ':' coll), ((field :: rest).filter (· ≠ [])).map (Text.before ':'))]
      else []
    | _ => []
  | _ => []

/-- `_paths`, over the subtrees. -/
def exprPaths (e : Expr) : List Reference := e.operands.flatMap operandPath

/-- `_sort_paths` -/
def sortPaths (sort : Text) : List (List Text) :=
  (Text.split ',' sort).filterMap fun part =>
    match (Text.strip part).dropWhile fun c => c = '+' ∨ c = '-' with
    | [] => none
    | '@' :: _ => none
    | part => some (Text.split '.' part)

/-- `_check_path` -/
def checkPath (db : Db) (allowHidden : Bool) : Collection → List Text → Except GuardError Unit
  | _, [] => .ok ()
  | c, segment :: rest =>
    if segment ∈ protectedFields then .error (.field segment)
    else
      match Text.partition? "_via_" segment with
      | some (name, via) =>
        match db.resolveCollection name with
        | some target =>
          if (target.field? via).isSome then checkPath db allowHidden target rest
          else .error (.field segment)
        | none => .error (.field segment)
      | none =>
        if segment ∈ c.allowedSystem then .ok ()
        else
          match c.field? segment with
          | none => .error (.field segment)
          | some f =>
            if f.hidden && !allowHidden then .error (.field segment)
            else if rest = [] then .ok ()
            else if f.type ≠ .relation then .ok ()
            else
              match db.resolveCollection f.targetRef with
              | some target => checkPath db allowHidden target rest
              | none => .error (.field segment)

/-- The check of one reference. -/
def checkReference (db : Db) (c : Collection) (allowHidden : Bool) (ref : Reference) :
    Except GuardError Unit :=
  match ref with
  | (_, []) => .ok ()
  | (none, segments) => checkPath db allowHidden c segments
  | (some name, segments) =>
    match db.resolveCollection name with
    | some start => checkPath db allowHidden start segments
    | none => .error (.collection name)

/-- The references of a filter. An empty one has none. -/
def filterPaths (filter : Text) : Except GuardError (List Reference) :=
  if filter = [] then .ok []
  else
    match parseText filter with
    | some e => .ok (exprPaths e)
    | none => .error .syntaxError

/-- `assert_client_query_allowed`. A missing filter or sort is an empty one. -/
def assertClientQueryAllowed (db : Db) (c : Collection) (filter sort : Text)
    (isSuperuser : Bool) : Except GuardError Unit := do
  let references ← filterPaths filter
  (references ++ (sortPaths sort).map fun p => (none, p)).forM (checkReference db c isSuperuser)

end ClientGuard

end PPBase
