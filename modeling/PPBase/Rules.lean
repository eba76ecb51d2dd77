import PPBase.Macros

/-!
# Access rules

`check_rule`, the contexts a request is judged in, and `check_record_rule`, which compiles
a rule for the text it is given and runs it against one record.
-/

namespace PPBase

open Sql

/-- What `check_rule` returns : `True`, `False`, or the expression to apply. -/
inductive RuleResult
  | allow
  | deny
  | expression (rule : Text)
  deriving DecidableEq

/-- `check_rule` -/
def checkRule (rule : Option Text) (isAdmin : Bool) : RuleResult :=
  match rule with
  | none => if isAdmin then .allow else .deny
  | some [] => .allow
  | some rule => if isAdmin then .allow else .expression rule

/-- A decoded token payload. -/
abbrev TokenPayload := Dict Text Value

/-- The parts of an HTTP request the contexts are built from. -/
structure HttpRequest where
  method : Text := "GET"
  headers : Dict Text Text := []
  query : Dict Text Text := []

namespace TokenPayload

/-- `payload.get(key, "")` -/
def get (p : TokenPayload) (key : Text) : Value := (Dict.get? p key).getD (.text [])

/-- A superuser's token. -/
def isAdmin (p : TokenPayload) : Bool :=
  p.get "type" = .text "admin" ||
    (p.get "type" = .text "authRecord" && p.get "collectionName" = .text "_superusers")

/-- `auth_info` -/
def authInfo (p : TokenPayload) : Dict Text Value :=
  if p = [] then []
  else
    (["id", "email", "type", "collectionId", "collectionName"] : List String).map
      fun k => ((k : Text), p.get k)

end TokenPayload

/-- `bool(auth_ctx and auth_ctx.get("is_admin"))` -/
def isAdminPayload (payload : Option TokenPayload) : Bool := (payload.map TokenPayload.isAdmin).getD false

/-- The headers by their lower-case names, with dashes and with underscores. -/
def headersInfo (headers : Dict Text Value) : Dict Text Value :=
  headers.foldl (fun d e =>
    let name := Text.lower e.1
    (d.set name e.2).set (name.map fun c => if c = '-' then '_' else c) e.2) []

/-- `_prepare_rule_context` : the request context. -/
def prepareRequestContext (req : HttpRequest) (payload : Option TokenPayload) (data : Row) :
    RequestContext where
  method := req.method
  headers := headersInfo (req.headers.map fun e => (e.1, .text e.2))
  auth := (payload.map TokenPayload.authInfo).getD []
  data := data
  query := req.query.map fun e => (e.1, .text e.2)

/-! ## The resolvers of a filter -/

/-- Quoted text replaced by blanks, the loop of `_filter_needs_relation_index`. -/
def blankQuotes : Option Char → Bool → Text → Text
  | _, _, [] => []
  | some q, true, _ :: cs => ' ' :: blankQuotes (some q) false cs
  | some q, false, c :: cs =>
    if c = '\\' then ' ' :: blankQuotes (some q) true cs
    else if c = q then ' ' :: blankQuotes none false cs
    else ' ' :: blankQuotes (some q) false cs
  | none, _, c :: cs =>
    if c = '\'' ∨ c = '"' then ' ' :: blankQuotes (some c) false cs
    else c :: blankQuotes none false cs

/-- `re.sub(r"//[^\n]*", "", s)`, outside a comment or inside one. -/
def dropComments : Bool → Text → Text
  | _, [] => []
  | true, c :: cs => if c = '\n' then c :: dropComments false cs else dropComments true cs
  | false, '/' :: '/' :: cs => dropComments true cs
  | false, c :: cs => c :: dropComments false cs

/-- A dotted path starts here. -/
def startsDottedPath : Text → Bool
  | c :: cs =>
    Text.isIdentStart c &&
      match cs.dropWhile Lexer.isIdentTail with
      | '.' :: d :: _ => Text.isIdentStart d
      | _ => false
  | [] => false

/-- `_DOTTED_FILTER_PATH_RE.search`, after a previous character. -/
def hasDottedPath : Option Char → Text → Bool
  | _, [] => false
  | prev, c :: cs =>
    (!(prev.any fun p => Lexer.isMacroTail p || p = '@') && startsDottedPath (c :: cs)) ||
      hasDottedPath (some c) cs

/-- `_filter_needs_relation_index` -/
def filterNeedsRelationIndex (filter : Text) : Bool :=
  let expression := dropComments false (blankQuotes none false filter)
  Text.contains "@collection." expression || hasDottedPath none expression

/-- `_build_filter_resolvers` : the relation resolver. -/
def relationResolver (db : Db) (c : Collection) (filter : Text) : RelationIndex :=
  if filterNeedsRelationIndex filter then buildRelationIndex db.collections
  else buildRelationIndex [c]

/-- `_build_filter_resolvers` : the collection resolver. -/
def collectionResolver (db : Db) (c : Collection) (filter : Text) : Option RelationIndex :=
  if Text.contains "@collection." filter then some (relationResolver db c filter) else none

/-- What `list_records` and `check_record_rule` compile a filter with. -/
def filterEnv (rt : Runtime) (db : Db) (c : Collection) (ctx : RequestContext) (filter : Text) :
    FilterEnv where
  rt := rt
  ctx := resolveRequestMacros rt db filter ctx c
  relations := relationResolver db c filter
  collections := collectionResolver db c filter
  table := c.name

/-! ## One record -/

/-- Why a rule could not be evaluated : it does not compile, or the query is refused. -/
inductive RuleError
  | filter (e : FilterError)
  | query
  deriving DecidableEq

/-- `SELECT 1 FROM table WHERE "id" = :id AND (c) LIMIT 1` -/
def selectsRecord (pg : Pg) (db : Db) (table id : Text) (c : Cond) : Bool :=
  (db.rows table).any fun r => r.get? "id" = some (.text id) ∧ (truthAt pg db table c r).Holds

/-- `check_record_rule` -/
def checkRecordRule (rt : Runtime) (pg : Pg) (db : Db) (c : Collection) (recordId rule : Text)
    (ctx : RequestContext) : Except RuleError Bool :=
  match parseFilter (filterEnv rt db c ctx rule) rule with
  | .error e => .error (.filter e)
  | .ok cond =>
    if Accepted db c.name cond then .ok (selectsRecord pg db c.name recordId cond)
    else .error .query

/-- The check succeeded : an exception is a refusal. -/
def passes : Except RuleError Bool → Bool
  | .ok b => b
  | .error _ => false

theorem passes_eq_true {r : Except RuleError Bool} : passes r = true ↔ r = .ok true := by
  cases r <;> simp [passes]

/-- The record of a collection satisfies the collection's view rule in a context. -/
def viewable (rt : Runtime) (pg : Pg) (db : Db) (isAdmin : Bool) (ctx : RequestContext)
    (x : Collection × Row) : Bool :=
  match checkRule x.1.viewRule isAdmin with
  | .deny => false
  | .allow => true
  | .expression rule =>
    match x.2.get? "id" with
    | some (.text id) => passes (checkRecordRule rt pg db x.1 id rule ctx)
    | _ => false

/-! ## The resolvers of a text in parentheses -/

theorem blankQuotes_append (t : Text) : ∀ (q : Option Char) (b : Bool) (s : Text),
    ∃ q' b', blankQuotes q b (s ++ t) = blankQuotes q b s ++ blankQuotes q' b' t
  | q, b, [] => ⟨q, b, by cases q <;> cases b <;> simp [blankQuotes]⟩
  | some q, true, c :: s => by
    obtain ⟨q', b', h⟩ := blankQuotes_append t (some q) false s
    exact ⟨q', b', by simp [blankQuotes, h]⟩
  | some q, false, c :: s => by
    by_cases h₁ : c = '\\'
    · obtain ⟨q', b', h⟩ := blankQuotes_append t (some q) true s
      exact ⟨q', b', by simp [blankQuotes, h₁, h]⟩
    by_cases h₂ : c = q
    · subst h₂
      obtain ⟨q', b', h⟩ := blankQuotes_append t none false s
      exact ⟨q', b', by simp [blankQuotes, h₁, h]⟩
    · obtain ⟨q', b', h⟩ := blankQuotes_append t (some q) false s
      exact ⟨q', b', by simp [blankQuotes, h₁, h₂, h]⟩
  | none, b, c :: s => by
    by_cases h₁ : c = '\'' ∨ c = '"'
    · obtain ⟨q', b', h⟩ := blankQuotes_append t (some c) false s
      exact ⟨q', b', by simp [blankQuotes, h₁, h]⟩
    · obtain ⟨q', b', h⟩ := blankQuotes_append t none false s
      exact ⟨q', b', by simp [blankQuotes, h₁, h]⟩

theorem blankQuotes_rpar (q : Option Char) (b : Bool) (v : Text) :
    ∃ c w, blankQuotes q b (')' :: v) = c :: w ∧ c ≠ '/' := by
  cases q with
  | none => exact ⟨')', _, by simp [blankQuotes]; rfl, by decide⟩
  | some q =>
    cases b with
    | true => exact ⟨' ', _, by simp [blankQuotes]; rfl, by decide⟩
    | false =>
      by_cases h : ')' = q
      · exact ⟨' ', blankQuotes none false v, by rw [blankQuotes, if_neg (by decide), if_pos h],
          by decide⟩
      · exact ⟨' ', blankQuotes (some q) false v,
          by rw [blankQuotes, if_neg (by decide), if_neg h], by decide⟩

variable {s : Text}

theorem dropComments_cons {c : Char} (h : c ≠ '/' ∨ s.head? ≠ some '/') :
    dropComments false (c :: s) = c :: dropComments false s := by
  conv_lhs => unfold dropComments
  split
  · next hs => cases hs
  · next hb _ => cases hb
  · next hs =>
    obtain ⟨rfl, rfl⟩ := List.cons.inj hs
    simp at h
  · next hs =>
    obtain ⟨rfl, rfl⟩ := List.cons.inj hs
    rfl

theorem dropComments_append {d : Char} (hd : d ≠ '/') (t : Text) : ∀ (b : Bool) (s : Text),
    ∃ b', dropComments b (s ++ d :: t) = dropComments b s ++ dropComments b' (d :: t)
  | b, [] => ⟨b, by cases b <;> simp [dropComments]⟩
  | true, c :: s => by
    by_cases h₁ : c = '\n'
    · obtain ⟨b', h⟩ := dropComments_append hd t false s
      exact ⟨b', by simp [dropComments, h₁, h]⟩
    · obtain ⟨b', h⟩ := dropComments_append hd t true s
      exact ⟨b', by simp [dropComments, h₁, h]⟩
  | false, [c] => by
    refine ⟨false, ?_⟩
    have h₁ : dropComments false (c :: d :: t) = c :: dropComments false (d :: t) :=
      dropComments_cons (Or.inr (by simpa using hd))
    have h₂ : dropComments false [c] = [c] := dropComments_cons (Or.inr (by simp))
    rw [List.cons_append, List.nil_append, h₁, h₂]
    rfl
  | false, c :: e :: s => by
    by_cases h : c = '/' ∧ e = '/'
    · obtain ⟨rfl, rfl⟩ := h
      obtain ⟨b', h⟩ := dropComments_append hd t true s
      exact ⟨b', by simp [dropComments, h]⟩
    · have hce : c ≠ '/' ∨ e ≠ '/' := not_and_or.1 h
      obtain ⟨b', h⟩ := dropComments_append hd t false (e :: s)
      refine ⟨b', ?_⟩
      have h₁ : dropComments false (c :: e :: s) = c :: dropComments false (e :: s) :=
        dropComments_cons (by simpa using hce)
      have h₂ : dropComments false (c :: (e :: s ++ d :: t)) =
          c :: dropComments false (e :: s ++ d :: t) := dropComments_cons (by simpa using hce)
      rw [List.cons_append, h₂, h, h₁, List.cons_append]

theorem startsDottedPath_append (h : startsDottedPath s = true) (t : Text) :
    startsDottedPath (s ++ t) = true := by
  cases s with
  | nil => cases h
  | cons c cs =>
    simp only [startsDottedPath, List.cons_append, Bool.and_eq_true] at h ⊢
    refine ⟨h.1, ?_⟩
    obtain ⟨-, h⟩ := h
    rw [List.dropWhile_append]
    split at h
    · next d rest hs => simp [hs, h]
    · cases h

theorem hasDottedPath_append (t : Text) : ∀ (prev : Option Char) (s : Text),
    hasDottedPath prev s = true → hasDottedPath prev (s ++ t) = true
  | _, [], h => by simp [hasDottedPath] at h
  | prev, c :: s, h => by
    simp only [hasDottedPath, List.cons_append, Bool.or_eq_true, Bool.and_eq_true] at h ⊢
    rcases h with ⟨hp, hs⟩ | h
    · exact Or.inl ⟨hp, by simpa using startsDottedPath_append hs t⟩
    · exact Or.inr (hasDottedPath_append t _ s h)

theorem hasDottedPath_lpar (h : hasDottedPath none s = true) :
    hasDottedPath none ('(' :: s) = true := by
  simp only [hasDottedPath, Bool.or_eq_true]
  right
  cases s with
  | nil => simp [hasDottedPath] at h
  | cons c s =>
    have hprev : Lexer.isMacroTail '(' = false := by decide
    simpa [hasDottedPath, hprev] using h

/-- A text that needs the index still needs it inside parentheses. -/
theorem filterNeedsRelationIndex_parens (h : filterNeedsRelationIndex s = true) (v : Text) :
    filterNeedsRelationIndex ('(' :: (s ++ ')' :: v)) = true := by
  obtain ⟨q, b, hq⟩ := blankQuotes_append (')' :: v) none false s
  obtain ⟨d, w, hd, hne⟩ := blankQuotes_rpar q b v
  obtain ⟨b', hb⟩ := dropComments_append hne w false (blankQuotes none false s)
  have hexpr : dropComments false (blankQuotes none false ('(' :: (s ++ ')' :: v))) =
      '(' :: (dropComments false (blankQuotes none false s) ++ dropComments b' (d :: w)) := by
    have hlpar : blankQuotes none false ('(' :: (s ++ ')' :: v)) =
        '(' :: blankQuotes none false (s ++ ')' :: v) := by simp [blankQuotes]
    rw [hlpar, dropComments_cons (Or.inl (by decide)), hq, hd, hb]
  simp only [filterNeedsRelationIndex, Bool.or_eq_true] at h ⊢
  rw [hexpr]
  rcases h with h | h
  · left
    obtain ⟨x, y, hxy⟩ := Text.contains_iff.1 h
    exact Text.contains_iff.2 ⟨'(' :: x, y ++ dropComments b' (d :: w), by simp [hxy]⟩
  · right
    exact hasDottedPath_lpar (hasDottedPath_append _ _ _ h)

/-- The context a filter is compiled in differs from the request's in the resolved macros. -/
theorem resolveRequestMacros_eq (rt : Runtime) (db : Db) (filter : Text) (ctx : RequestContext)
    (c : Collection) : resolveRequestMacros rt db filter ctx c =
      { ctx with resolved := (resolveRequestMacros rt db filter ctx c).resolved } := by
  unfold resolveRequestMacros
  induction Macros.findAll filter generalizing ctx with
  | nil => rfl
  | cons m ms ih =>
    rw [List.foldl_cons, ih]
    unfold Macros.addResolved
    split_ifs
    · rfl
    · split <;> rfl

theorem fieldType?_relationResolver {db : Db} {c : Collection} (hc : c ∈ db.collections)
    (hnd : (db.collections.map Collection.name).Nodup) (filter field : Text) :
    (relationResolver db c filter).fieldType? c.name field =
      (collectionFieldMetadata c).get? field := by
  unfold relationResolver
  split_ifs
  · exact fieldType?_buildRelationIndex hc hnd field
  · exact fieldType?_buildRelationIndex (List.mem_singleton_self c) (by simp) field

end PPBase
