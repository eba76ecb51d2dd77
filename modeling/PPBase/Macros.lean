import PPBase.ClientGuard

/-!
# Request macros

`resolve_request_macros` looks up the `@request.auth.*` and `@request.body.*` macros of a
filter that need the database, before the filter is parsed. The macros are found in the
text by a regular expression, so also inside quotes and comments; a name with a modifier or
a stray dot does not match and is left to the parser.
-/

namespace PPBase

/-- The captured source of `_MACRO_RE`. -/
inductive MacroSource
  | auth | body | data
  deriving DecidableEq, Repr

namespace MacroSource

def text : MacroSource → Text
  | auth => "auth"
  | body => "body"
  | data => "data"

/-- The name a macro is stored under, `request.{source}.{path}`. -/
def key (source : MacroSource) (path : Text) : Text :=
  ("request." : Text) ++ source.text ++ '.' :: path

end MacroSource

namespace Macros

/-- The path a match captures : the longest run of name characters, dots and colons, if it
is a dotted path. A shorter match would be followed by one of these characters. -/
def matchedPath? (s : Text) : Option Text :=
  let run := s.takeWhile Lexer.isMacroTail
  if ':' ∉ run ∧ [] ∉ Text.split '.' run then some run else none

/-- `_MACRO_RE` at the start of a text. -/
def matchAt (source : MacroSource) (s : Text) : Option (MacroSource × Text) :=
  (Text.afterPrefix? ('@' :: source.key []) s).bind fun rest =>
    (matchedPath? rest).map fun path => (source, path)

/-- `_MACRO_RE.findall` -/
def findAll : Text → List (MacroSource × Text)
  | [] => []
  | c :: cs =>
    ([.auth, .body, .data].filterMap fun source => matchAt source (c :: cs)) ++ findAll cs

/-- `_TOKEN_AUTH_FIELDS` -/
def tokenAuthFields : List Text := ["id", "collectionId", "type"]

/-- `str(v)` of a record id. -/
def idText (rt : Runtime) : Value → Text
  | .text s => s
  | v => rt.str v

/-- `_to_param` -/
def toParam (rt : Runtime) : Value → Value
  | .list vs => .text (rt.dumps (.list vs))
  | .obj fs => .text (rt.dumps (.obj fs))
  | .time t => .text (rt.formatTime t)
  | v => v

/-- `_relation_target` -/
def relationTarget (c : Collection) (field : Text) : Option Text :=
  match c.schema.find? fun f => f.name = field ∧ f.type = .relation with
  | none => none
  | some f => if f.targetRef = [] then none else some f.targetRef

/-- `value[0] if isinstance(value, list) and value else value` -/
def firstId : Value → Value
  | .list (v :: _) => v
  | v => v

/-- `_walk`. `field` is the field of `c` the value was read from. -/
def walk (rt : Runtime) (db : Db) : Collection → Value → Option Text → List Text → Value
  | _, v, _, [] => v
  | c, .obj r, none, segment :: rest =>
    match Dict.get? r segment with
    | some w => walk rt db c w (some segment) rest
    | none => .null
  | _, _, none, _ :: _ => .null
  | c, v, some field, segment :: rest =>
    match relationTarget c field with
    | none => .null
    | some target =>
      if (firstId v).truthy = false then .null
      else if segment = "id" then walk rt db c (firstId v) none rest
      else
        match db.resolveCollection target with
        | none => .null
        | some c' =>
          match (db.rowById c'.name (idText rt (firstId v))).bind fun r => r.get? segment with
          | some w => walk rt db c' w (some segment) rest
          | none => .null

/-- The stored row as the start of a walk. -/
def recordValue : Option Row → Value
  | some r => .obj r
  | none => .null

/-- What an auth macro is resolved to, if it is. -/
def resolveAuth (rt : Runtime) (db : Db) (auth : Dict Text Value) (path : Text) : Option Value :=
  let segments := Text.split '.' path
  let id := (auth.get? "id").getD .null
  let collectionId := (auth.get? "collectionId").getD .null
  if path ∈ tokenAuthFields ∧ segments.length = 1 then none
  else if id.truthy = false ∨ collectionId.truthy = false then
    some (if path = "collectionName" then .text [] else .null)
  else
    match db.resolveCollection (idText rt collectionId) with
    | none => none
    | some c =>
      if path = "collectionName" then some (.text c.name)
      else
        some (toParam rt (walk rt db c (recordValue (db.rowById c.name (idText rt id))) none segments))

/-- What a body macro is resolved to, if it is : a relation path that starts in the
payload. -/
def resolveBody (rt : Runtime) (db : Db) (data : Row) (c : Collection) (path : Text) :
    Option Value :=
  match Text.split '.' path with
  | field :: next :: rest =>
    match data.get? field with
    | none => some .null
    | some v => some (toParam rt (walk rt db c (.obj [(field, v)]) none (field :: next :: rest)))
  | _ => none

def resolve (rt : Runtime) (db : Db) (ctx : RequestContext) (c : Collection) :
    MacroSource × Text → Option Value
  | (.auth, path) => resolveAuth rt db ctx.auth path
  | (_, path) => resolveBody rt db ctx.data c path

/-- One match of the loop. A key that is there already is kept. -/
def addResolved (rt : Runtime) (db : Db) (c : Collection) (ctx : RequestContext)
    (m : MacroSource × Text) : RequestContext :=
  if ctx.resolved.has (m.1.key m.2) then ctx
  else
    match resolve rt db ctx c m with
    | some v => { ctx with resolved := ctx.resolved.set (m.1.key m.2) v }
    | none => ctx

end Macros

/-- `resolve_request_macros` -/
def resolveRequestMacros (rt : Runtime) (db : Db) (filter : Text) (ctx : RequestContext)
    (c : Collection) : RequestContext :=
  (Macros.findAll filter).foldl (Macros.addResolved rt db c) ctx

/-! ## What a match depends on -/

namespace Macros

variable {s : Text} {m : MacroSource × Text}

theorem matchAt_eq_some {source : MacroSource} :
    matchAt source s = some m ↔
      m.1 = source ∧ ∃ rest, s = '@' :: source.key [] ++ rest ∧ matchedPath? rest = some m.2 := by
  obtain ⟨src, path⟩ := m
  simp only [matchAt, Option.bind_eq_some_iff, Option.map_eq_some_iff, Text.afterPrefix?_eq_some]
  constructor
  · rintro ⟨rest, rfl, p, hp, h⟩
    obtain ⟨rfl, rfl⟩ := Prod.mk.inj h
    exact ⟨rfl, rest, rfl, hp⟩
  · rintro ⟨rfl, rest, rfl, hp⟩
    exact ⟨rest, rfl, path, hp, rfl⟩

theorem mem_findAll {m : MacroSource × Text} : ∀ {s : Text},
    m ∈ findAll s ↔ ∃ u v, s = u ++ v ∧ matchAt m.1 v = some m
  | [] => by
    simp only [findAll, List.not_mem_nil, false_iff, not_exists, not_and]
    intro u v hs hm
    obtain ⟨-, rest, rfl, -⟩ := matchAt_eq_some.1 hm
    simp at hs
  | c :: cs => by
    rw [findAll, List.mem_append, mem_findAll, List.mem_filterMap]
    constructor
    · rintro (⟨source, -, hm⟩ | ⟨u, v, rfl, hm⟩)
      · obtain ⟨rfl, -⟩ := matchAt_eq_some.1 hm
        exact ⟨[], c :: cs, rfl, hm⟩
      · exact ⟨c :: u, v, rfl, hm⟩
    · rintro ⟨u, v, hs, hm⟩
      cases u with
      | nil =>
        obtain rfl : c :: cs = v := hs
        refine Or.inl ⟨m.1, ?_, hm⟩
        cases m.1 <;> simp
      | cons d u =>
        obtain ⟨rfl, rfl⟩ := List.cons.inj hs
        exact Or.inr ⟨u, v, rfl, hm⟩

/-- What a text matches, it still matches inside parentheses. -/
theorem findAll_subset_parens (u v : Text) (h : m ∈ findAll s) :
    m ∈ findAll (u ++ (s ++ ')' :: v)) := by
  obtain ⟨a, b, rfl, hm⟩ := mem_findAll.1 h
  obtain ⟨hsrc, rest, rfl, hp⟩ := matchAt_eq_some.1 hm
  refine mem_findAll.2 ⟨u ++ a, '@' :: m.1.key [] ++ (rest ++ ')' :: v), by simp, ?_⟩
  refine matchAt_eq_some.2 ⟨rfl, rest ++ ')' :: v, rfl, ?_⟩
  unfold matchedPath? at hp ⊢
  rwa [takeWhile_append_stop (by decide)]

theorem key_cons (source : MacroSource) (path : Text) :
    source.key path = source.key [] ++ path :=
  (List.append_assoc (("request." : Text) ++ source.text) ['.'] path).symm

/-- A macro of the filter that could have been resolved stands among the matches. -/
theorem mem_findAll_of_occurs {t : Text} (hm : m ∈ findAll t)
    (hocc : MacroOccurs ('@' :: m.1.key m.2) s) : m ∈ findAll s := by
  obtain ⟨a, b, rfl, hmt⟩ := mem_findAll.1 hm
  obtain ⟨-, rest, rfl, hp⟩ := matchAt_eq_some.1 hmt
  obtain ⟨u, v, rfl, hv⟩ := hocc
  refine mem_findAll.2 ⟨u, '@' :: m.1.key [] ++ (m.2 ++ v), ?_, ?_⟩
  · rw [key_cons m.1 m.2]
    simp
  refine matchAt_eq_some.2 ⟨rfl, m.2 ++ v, rfl, ?_⟩
  unfold matchedPath? at hp ⊢
  simp only at hp ⊢
  split_ifs at hp with hok
  have hpath := Option.some.inj hp
  have hall : ∀ c ∈ m.2, Lexer.isMacroTail c = true := by
    intro c hc
    rw [← hpath] at hc
    exact List.mem_takeWhile_imp hc
  have hrun : (m.2 ++ v).takeWhile Lexer.isMacroTail = m.2 := by
    rw [List.takeWhile_append_of_pos hall]
    cases v with
    | nil => simp
    | cons c v => simp [hv c rfl]
  rw [hrun]
  rw [hpath] at hok
  simp [hok]

theorem length_text (source : MacroSource) : source.text.length = 4 := by
  cases source <;> rfl

theorem text_injective {source source' : MacroSource} (h : source.text = source'.text) :
    source = source' := by
  cases source <;> cases source' <;> first | rfl | exact absurd h (by decide)

theorem key_injective {m' : MacroSource × Text} (h : m.1.key m.2 = m'.1.key m'.2) : m = m' := by
  unfold MacroSource.key at h
  rw [List.append_assoc, List.append_assoc] at h
  have hlen : m.1.text.length = m'.1.text.length := by rw [length_text, length_text]
  obtain ⟨hsource, hpath⟩ := List.append_inj (List.append_cancel_left h) hlen
  exact Prod.ext (text_injective hsource) (List.cons.inj hpath).2

variable {rt : Runtime} {db : Db} {c : Collection}

theorem resolve_addResolved (ctx : RequestContext) (m m' : MacroSource × Text) :
    resolve rt db (addResolved rt db c ctx m) c m' = resolve rt db ctx c m' := by
  have hauth : (addResolved rt db c ctx m).auth = ctx.auth ∧
      (addResolved rt db c ctx m).data = ctx.data := by
    unfold addResolved
    split_ifs
    · exact ⟨rfl, rfl⟩
    · split <;> exact ⟨rfl, rfl⟩
  obtain ⟨s, p⟩ := m'
  cases s <;> simp only [resolve, hauth.1, hauth.2]

theorem get?_addResolved (ctx : RequestContext) (m : MacroSource × Text) (k : Text) :
    (addResolved rt db c ctx m).resolved.get? k =
      (ctx.resolved.get? k).or (if m.1.key m.2 = k then resolve rt db ctx c m else none) := by
  unfold addResolved
  split_ifs with hhas hk hk
  · subst hk
    obtain ⟨v, hv⟩ := Option.isSome_iff_exists.1 hhas
    simp [hv]
  · simp
  · subst hk
    have hnone : ctx.resolved.get? (m.1.key m.2) = none := by
      simpa [Dict.has] using hhas
    cases hr : resolve rt db ctx c m with
    | none => simp [hnone]
    | some v => simp [hnone]
  · cases hr : resolve rt db ctx c m with
    | none => simp
    | some v => simp [Dict.get?_set_ne _ _ hk]

theorem get?_foldl_addResolved (k : Text) : ∀ (ms : List (MacroSource × Text))
    (ctx : RequestContext), (ms.foldl (addResolved rt db c) ctx).resolved.get? k =
      (ctx.resolved.get? k).or
        (ms.findSome? fun m => if m.1.key m.2 = k then resolve rt db ctx c m else none)
  | [], ctx => by simp
  | m :: ms, ctx => by
    rw [List.foldl_cons, get?_foldl_addResolved k ms, get?_addResolved, List.findSome?_cons]
    simp only [resolve_addResolved]
    cases ctx.resolved.get? k with
    | some v => rfl
    | none =>
      cases (if m.1.key m.2 = k then resolve rt db ctx c m else none) <;> rfl

/-- At most one match is stored under a key. -/
theorem findSome?_key {k : Text} {m : MacroSource × Text} (hk : m.1.key m.2 = k)
    (f : MacroSource × Text → Option Value) : ∀ ms : List (MacroSource × Text),
    (ms.findSome? fun m' => if m'.1.key m'.2 = k then f m' else none) =
      if m ∈ ms then f m else none
  | [] => by simp
  | m' :: ms => by
    rw [List.findSome?_cons, findSome?_key hk f ms]
    by_cases h : m'.1.key m'.2 = k
    · obtain rfl := key_injective (h.trans hk.symm)
      simp only [hk, if_true, List.mem_cons, true_or]
      cases f m' with
      | some v => rfl
      | none => simp
    · have hne : m ≠ m' := by
        rintro rfl
        exact h hk
      simp [h, hne]

/-- The macros of a text are resolved to the same values inside a larger text. -/
theorem get?_resolveRequestMacros_parens (ctx : RequestContext) {k : Text} (u v : Text)
    (hocc : MacroOccurs ('@' :: k) s) :
    (resolveRequestMacros rt db (u ++ (s ++ ')' :: v)) ctx c).resolved.get? k =
      (resolveRequestMacros rt db s ctx c).resolved.get? k := by
  unfold resolveRequestMacros
  rw [get?_foldl_addResolved, get?_foldl_addResolved]
  by_cases hk : ∃ m : MacroSource × Text, m.1.key m.2 = k
  · obtain ⟨m, hm⟩ := hk
    have hmem : m ∈ findAll (u ++ (s ++ ')' :: v)) ↔ m ∈ findAll s :=
      ⟨fun h => mem_findAll_of_occurs h (hm ▸ hocc), findAll_subset_parens u v⟩
    rw [findSome?_key hm, findSome?_key hm]
    simp only [hmem]
  · have hnone : ∀ ms : List (MacroSource × Text),
        (ms.findSome? fun m => if m.1.key m.2 = k then resolve rt db ctx c m else none) = none := by
      intro ms
      rw [List.findSome?_eq_none_iff]
      intro m _
      rw [if_neg fun h => hk ⟨m, h⟩]
    rw [hnone, hnone]

end Macros

end PPBase
