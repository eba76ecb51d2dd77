import PPBase.FilterCongr
import PPBase.ListRule

/-!
# Realtime delivery

`_is_subscription_allowed_for_event` checks an event against the collection's rule and the
subscription's own filter, which is spliced to the rule without being parsed on its own.
`ruleAdmits_of_allowed` : if the rule is a filter of its own and the text of the filter, read
in parentheses, is one conjunction, then an event is delivered only where the rule alone
admits the record. A filter such as `1=1) || (1=1` is not one conjunction but two
alternatives, and the second is delivered past the rule (`allowed_iff_of_alternative`).
-/

namespace PPBase

open Sql

/-- `RealtimeSubscription` -/
structure Subscription where
  baseTopic : Text
  authPayload : Option TokenPayload := none
  optionsQuery : Dict Text Value := []
  optionsHeaders : Dict Text Value := []

/-- The actions of a notification. -/
inductive Action
  | create | update | delete
  deriving DecidableEq, Repr

namespace Realtime

/-- `_build_rule_context` : only admin tokens bypass the rules here. -/
def isAdmin : Option TokenPayload → Bool
  | some p => Dict.get? p "type" = some (.text "admin")
  | none => false

/-- `_build_rule_context` : the claims the macros read. -/
def authInfo : Option TokenPayload → Dict Text Value
  | some p =>
    (["id", "email", "type", "collectionId", "collectionName"] : List String).map
      fun k => ((k : Text), p.get k)
  | none => []

/-- `_build_rule_context` with the subscription's options. -/
def ruleContext (sub : Subscription) : RequestContext where
  context := "realtime"
  method := "GET"
  headers := headersInfo sub.optionsHeaders
  auth := authInfo sub.authPayload
  query := sub.optionsQuery

/-- `base_topic.endswith("/*")` -/
def isWildcard (sub : Subscription) : Bool := (("/*" : Text).reverse).isPrefixOf sub.baseTopic.reverse

/-- The rule an event is judged by. -/
def topicRule (c : Collection) (sub : Subscription) : Option Text :=
  if isWildcard sub then c.listRule else c.viewRule

/-- The subscription's filter, stripped. -/
def filterExpr (sub : Subscription) : Text :=
  match sub.optionsQuery.get? "filter" with
  | some (.text s) => Text.strip s
  | _ => []

/-- The rule's result combined with the subscription's filter. -/
def withFilter (r : RuleResult) (filter : Text) : RuleResult :=
  if filter = [] then r
  else
    match r with
    | .allow => .expression filter
    | .expression rule => .expression (spliceFilters rule filter)
    | .deny => .deny

/-- `_is_subscription_allowed_for_event` -/
def isSubscriptionAllowedForEvent (rt : Runtime) (pg : Pg) (db : Db) (c : Collection)
    (sub : Subscription) (recordId : Text) (action : Action) : Bool :=
  match withFilter (checkRule (topicRule c sub) (isAdmin sub.authPayload)) (filterExpr sub) with
  | .deny => false
  | .allow => true
  | .expression rule =>
    if action = .delete then false
    else passes (checkRecordRule rt pg db c recordId rule (ruleContext sub))

/-- The record passes the topic's rule alone, in the subscriber's context. -/
def ruleAdmits (rt : Runtime) (pg : Pg) (db : Db) (c : Collection) (sub : Subscription)
    (recordId : Text) : Bool :=
  match checkRule (topicRule c sub) (isAdmin sub.authPayload) with
  | .deny => false
  | .allow => true
  | .expression rule => passes (checkRecordRule rt pg db c recordId rule (ruleContext sub))

end Realtime

/-! ## Compiling the rule inside the spliced text -/

/-- No dotted field path and no `@collection` reference. -/
def Operand.isPlain : Operand → Bool
  | .fieldPath p => p.tail.isEmpty
  | .macroName n => !isCollectionMacro n
  | _ => true

/-- The relation index is loaded for the rule on its own whenever the rule reads it. -/
def IndexSettled (rule : Text) (r : Expr) : Prop :=
  filterNeedsRelationIndex rule = true ∨ ∀ o ∈ r.operands, o.isPlain = true

mutual

theorem Expr.macro_mem_tokens {n : Text} : ∀ {e : Expr}, .macroName n ∈ e.operands →
    Token.macroName n ∈ e.tokens
  | .one c, h => Conj.macro_mem_tokens (c := c) h
  | .or c e, h => by
    rcases List.mem_append.1 h with h | h
    · exact List.mem_append_left _ (Conj.macro_mem_tokens h)
    · exact List.mem_append_right _ (List.mem_cons_of_mem _ (Expr.macro_mem_tokens h))

theorem Conj.macro_mem_tokens {n : Text} : ∀ {c : Conj}, .macroName n ∈ c.operands →
    Token.macroName n ∈ c.tokens
  | .one a, h => Atom.macro_mem_tokens (a := a) h
  | .and a c, h => by
    rcases List.mem_append.1 h with h | h
    · exact List.mem_append_left _ (Atom.macro_mem_tokens h)
    · exact List.mem_append_right _ (List.mem_cons_of_mem _ (Conj.macro_mem_tokens h))

theorem Atom.macro_mem_tokens {n : Text} : ∀ {a : Atom}, .macroName n ∈ a.operands →
    Token.macroName n ∈ a.tokens
  | .comparison k, h => by
    rcases List.mem_cons.1 h with h | h
    · simp [Atom.tokens, Comparison.tokens, ← h, Operand.tokens]
    · rw [List.mem_singleton] at h
      simp [Atom.tokens, Comparison.tokens, ← h, Operand.tokens]
  | .paren e, h => by
    have := Expr.macro_mem_tokens (e := e) h
    simp [Atom.tokens, this]

end

theorem dropWhile_at_of_shape {n : Text} (h : MacroShape n) : '@' :: n.dropWhile (· = '@') = n := by
  obtain ⟨t, rfl, ht⟩ := h
  cases t with
  | nil => rfl
  | cons c t =>
    have hc : c ≠ '@' := by
      rintro rfl
      exact absurd (ht '@' List.mem_cons_self) (by decide)
    simp [hc]

/-- A spliced text is the rule inside parentheses. -/
theorem spliceFilters_eq (rule filter : Text) : ∃ v, spliceFilters rule filter =
    ['('] ++ (rule ++ ')' :: v) :=
  ⟨(" && (" : Text) ++ filter ++ [')'], by simp [spliceFilters]⟩

theorem contains_splice {p rule : Text} (h : Text.contains p rule = true) (filter : Text) :
    Text.contains p (spliceFilters rule filter) = true := by
  obtain ⟨v, hv⟩ := spliceFilters_eq rule filter
  obtain ⟨x, y, rfl⟩ := Text.contains_iff.1 h
  exact Text.contains_iff.2 ⟨['('] ++ x, y ++ ')' :: v, by rw [hv]; simp⟩

theorem contains_of_collectionMacro {n s : Text} (hs : MacroShape n) (ho : MacroOccurs n s)
    (h : isCollectionMacro n = true) : Text.contains "@collection." s = true := by
  obtain ⟨r, hr⟩ := Option.isSome_iff_exists.1 h
  have hn : n = '@' :: (("collection." : Text) ++ r) := by
    rw [← Text.afterPrefix?_eq_some.1 hr, dropWhile_at_of_shape hs]
  obtain ⟨u, v, rfl, -⟩ := ho
  refine Text.contains_iff.2 ⟨u, r ++ v, ?_⟩
  rw [hn]
  simp

section

variable {rt : Runtime} {pg : Pg} {db : Db} {c : Collection}

/-- Compiling for another text only changes the look-ups. -/
theorem filterEnv_reread (ctx : RequestContext) (s t : Text) :
    filterEnv rt db c ctx t = (filterEnv rt db c ctx s).reread
      (resolveRequestMacros rt db t ctx c).resolved (relationResolver db c t)
      (collectionResolver db c t) := by
  unfold filterEnv FilterEnv.reread
  rw [resolveRequestMacros_eq rt db s ctx c]
  dsimp only
  rw [← resolveRequestMacros_eq rt db t ctx c]

theorem agrees_splice {rule : Text} {r : Expr} (hr : parseText rule = some r)
    (hset : IndexSettled rule r) (hc : c ∈ db.collections)
    (hnd : (db.collections.map Collection.name).Nodup) (ctx : RequestContext) (filter : Text)
    {o : Operand} (ho : o ∈ r.operands) :
    o.Agrees (filterEnv rt db c ctx rule) ((filterEnv rt db c ctx rule).reread
      (resolveRequestMacros rt db (spliceFilters rule filter) ctx c).resolved
      (relationResolver db c (spliceFilters rule filter))
      (collectionResolver db c (spliceFilters rule filter))) := by
  obtain ⟨v, hv⟩ := spliceFilters_eq rule filter
  have hrel : filterNeedsRelationIndex rule = true →
      relationResolver db c (spliceFilters rule filter) = relationResolver db c rule := by
    intro hneeds
    have hsplice : filterNeedsRelationIndex (spliceFilters rule filter) = true := by
      rw [hv]
      exact filterNeedsRelationIndex_parens hneeds v
    simp [relationResolver, hneeds, hsplice]
  cases o with
  | macroName n =>
    obtain ⟨hshape, hocc⟩ :=
      macroOccurs_of_lex (parseText_eq_some.1 hr) (Expr.macro_mem_tokens ho)
    have hocc' : MacroOccurs ('@' :: n.dropWhile (· = '@')) rule := by
      rwa [dropWhile_at_of_shape hshape]
    refine ⟨?_, fun hcoll => ?_⟩
    · rw [hv]
      exact Macros.get?_resolveRequestMacros_parens ctx ['('] v hocc'
    · have hcont := contains_of_collectionMacro hshape hocc hcoll
      rcases hset with hneeds | hplain
      · show collectionResolver db c (spliceFilters rule filter) = collectionResolver db c rule
        simp only [collectionResolver, hcont, contains_splice hcont filter, if_true, hrel hneeds]
      · have := hplain _ ho
        simp [Operand.isPlain, hcoll] at this
  | fieldPath p =>
    rcases hset with hneeds | hplain
    · exact Or.inl (hrel hneeds)
    · refine Or.inr ⟨by simpa [Operand.isPlain] using hplain _ ho, fun f => ?_⟩
      show (relationResolver db c _).fieldType? c.name f = (relationResolver db c _).fieldType? c.name f
      rw [fieldType?_relationResolver hc hnd, fieldType?_relationResolver hc hnd]
  | _ => trivial

/-- A rule whose index is settled compiles inside the spliced text as it does alone. -/
theorem compileExpr_filterEnv_splice {rule : Text} {r : Expr} (hr : parseText rule = some r)
    (hset : IndexSettled rule r) (hc : c ∈ db.collections)
    (hnd : (db.collections.map Collection.name).Nodup) (ctx : RequestContext) (filter : Text) :
    compileExpr (filterEnv rt db c ctx (spliceFilters rule filter)) r =
      compileExpr (filterEnv rt db c ctx rule) r := by
  rw [filterEnv_reread ctx rule (spliceFilters rule filter)]
  exact compileExpr_reread fun o ho => agrees_splice hr hset hc hnd ctx filter ho

/-! ## Delivery -/

/-- A rule check that succeeds compiles the rule to a condition that selects the record. -/
theorem checkRecordRule_eq_true {recordId rule : Text} {ctx : RequestContext} :
    checkRecordRule rt pg db c recordId rule ctx = .ok true ↔
      ∃ cond, parseFilter (filterEnv rt db c ctx rule) rule = .ok cond ∧
        Accepted db c.name cond ∧ selectsRecord pg db c.name recordId cond = true := by
  unfold checkRecordRule
  split
  · next e he => simp [he]
  · next cond hcond =>
    simp only [hcond, Except.ok.injEq, exists_eq_left']
    split_ifs with hacc <;> simp [hacc]

theorem selectsRecord_eq_true {table recordId : Text} {cond : Cond} :
    selectsRecord pg db table recordId cond = true ↔
      ∃ row ∈ db.rows table, row.get? "id" = some (.text recordId) ∧
        (truthAt pg db table cond row).Holds := by
  simp [selectsRecord, List.any_eq_true]

theorem accepted_of_conj_cons {table : Text} {k : Cond} {ks : List Cond}
    (h : Accepted db table (Cond.conj (k :: ks))) : Accepted db table k := by
  cases ks with
  | nil => exact h
  | cons k' ks => exact (accepted_and.1 h).1

theorem holds_of_conj_cons {table : Text} {k : Cond} {ks : List Cond} {row : Row}
    (h : (truthAt pg db table (Cond.conj (k :: ks)) row).Holds) :
    (truthAt pg db table k row).Holds := by
  cases ks with
  | nil => exact h
  | cons k' ks => exact (Truth.holds_and.1 h).1

/-- A conjunction with a condition in front is that condition and the rest. -/
theorem andExpr_sql_cons (k : Cond) (items : List Item) :
    ∃ ks, Item.andExpr (.sql k :: items) = Cond.conj (k :: ks) := by
  refine ⟨Item.sqlParts items ++ (Item.collectionGroups items).map (fun e => collectionGroup e.2) ++
    (Item.relationGroups items).map fun e => relationGroup e.2, ?_⟩
  simp [Item.andExpr, Item.sqlParts, Item.collectionGroups, Item.relationGroups]

end

/-- The filter, read in parentheses, has no alternative outside them. Every filter that
parses on its own is such. -/
def OneConjunction (filter : Text) : Prop :=
  ∀ k e, parseText (parenthesized filter) ≠ some (.or k e)

theorem oneConjunction_of_parseText {filter : Text} {f : Expr} (hf : parseText filter = some f) :
    OneConjunction filter := by
  intro k e h
  rw [parseText_eq_some] at hf h
  rw [parenthesized, lex_lpar] at h
  by_cases hc : EndsInComment filter
  · rw [lex_comment_rpar hc hf] at h
    have hbal := (Expr.or k e).depth_tokens
    have hfb := f.depth_tokens
    rw [← Option.some.inj h] at hbal
    simp only [Token.depth] at hbal hfb
    simp at hbal
    omega
  · have hnil : lex [] = some [] := by decide
    have htok : (Expr.or k e).tokens = (Expr.one (.one (.paren f))).tokens := by
      rw [lex_rpar hf hc [], hnil] at h
      simpa [Expr.tokens, Conj.tokens, Atom.tokens] using (Option.some.inj h).symm
    have htree := (parseTokens_eq_some.2 rfl).symm.trans (parseTokens_eq_some.2 htok.symm)
    cases Option.some.inj htree

/-- The rule stays a conjunct of what the event is checked with : the subscription has no
filter, or the rule is a filter of its own that does not end inside a comment and whose
index is settled, and the subscription's filter is one conjunction. -/
def KeepsRule (rule filter : Text) : Prop :=
  filter = [] ∨
    (∃ r, parseText rule = some r ∧ IndexSettled rule r) ∧ ¬EndsInComment rule ∧
      OneConjunction filter

section

variable {rt : Runtime} {pg : Pg} {db : Db} {c : Collection}

variable {recordId : Text}

/-- What the spliced text selects, its rule selects. -/
theorem checkRecordRule_of_splice {rule filter : Text} {ctx : RequestContext}
    (hc : c ∈ db.collections) (hnd : (db.collections.map Collection.name).Nodup)
    (hk : KeepsRule rule filter) (hne : filter ≠ [])
    (h : checkRecordRule rt pg db c recordId (spliceFilters rule filter) ctx = .ok true) :
    checkRecordRule rt pg db c recordId rule ctx = .ok true := by
  obtain ⟨⟨r, hr, hset⟩, hcom, hone⟩ := hk.resolve_left hne
  obtain ⟨cond, hcond, hacc, hsel⟩ := checkRecordRule_eq_true.1 h
  rcases parseFilter_eq_ok hcond with hblank | ⟨ht, e, he, hce⟩
  · exact absurd (hblank _ (lpar_mem_spliceFilters rule filter)) (by decide)
  rw [parseText_splice_any hr hcom] at he
  obtain ⟨f, hf, rfl⟩ := Option.map_eq_some_iff.1 he
  obtain ⟨k, rfl⟩ : ∃ k, f = .one k := by
    cases f with
    | one k => exact ⟨k, rfl⟩
    | or k e => exact absurd hf (hone k e)
  simp only [Expr.consAnd, compileExpr, conjItems, atomItem,
    compileExpr_filterEnv_splice hr hset hc hnd ctx filter] at hce
  cases hcr : compileExpr (filterEnv rt db c ctx rule) r with
  | error err => simp [hcr, Functor.map, Except.map, bind, Except.bind] at hce
  | ok cr =>
    cases hks : conjItems (filterEnv rt db c ctx (spliceFilters rule filter)) k with
    | error err => simp [hcr, hks, Functor.map, Except.map, bind, Except.bind] at hce
    | ok ks =>
      obtain rfl : Item.andExpr (.sql cr :: ks) = cond := by
        simpa [hcr, hks, Functor.map, Except.map, bind, Except.bind, pure, Except.pure] using hce
      obtain ⟨rest, hrest⟩ := andExpr_sql_cons cr ks
      rw [hrest] at hacc hsel
      obtain ⟨row, hrow, hid, hholds⟩ := selectsRecord_eq_true.1 hsel
      refine checkRecordRule_eq_true.2 ⟨cr, parseFilter_of_parseText ht hr hcr,
        accepted_of_conj_cons hacc, selectsRecord_eq_true.2 ⟨row, hrow, hid, ?_⟩⟩
      exact holds_of_conj_cons hholds

/-- An event is delivered only for a record the topic's rule admits, if the rule stays a
conjunct of what the event is checked with. -/
theorem ruleAdmits_of_allowed {sub : Subscription} {action : Action} (hc : c ∈ db.collections)
    (hnd : (db.collections.map Collection.name).Nodup)
    (hk : ∀ rule, checkRule (Realtime.topicRule c sub) (Realtime.isAdmin sub.authPayload) = .expression rule → KeepsRule rule (Realtime.filterExpr sub))
    (h : Realtime.isSubscriptionAllowedForEvent rt pg db c sub recordId action = true) :
    Realtime.ruleAdmits rt pg db c sub recordId = true := by
  unfold Realtime.isSubscriptionAllowedForEvent Realtime.withFilter at h
  unfold Realtime.ruleAdmits
  cases hrule : checkRule (Realtime.topicRule c sub) (Realtime.isAdmin sub.authPayload) with
  | allow => rfl
  | deny =>
    rw [hrule] at h
    split_ifs at h
  | expression rule =>
    rw [hrule] at h
    dsimp only at h ⊢
    rw [passes_eq_true]
    by_cases hf : Realtime.filterExpr sub = []
    · rw [if_pos hf] at h
      dsimp only at h
      split_ifs at h
      exact passes_eq_true.1 h
    · rw [if_neg hf] at h
      dsimp only at h
      split_ifs at h
      exact checkRecordRule_of_splice hc hnd (hk rule hrule) hf (passes_eq_true.1 h)

theorem selectsRecord_or {table : Text} {k l : Cond} :
    selectsRecord pg db table recordId (.or k l) = true ↔
      selectsRecord pg db table recordId k = true ∨ selectsRecord pg db table recordId l = true := by
  simp only [selectsRecord_eq_true, holds_truthAt_or]
  constructor
  · rintro ⟨row, hrow, hid, h | h⟩
    · exact Or.inl ⟨row, hrow, hid, h⟩
    · exact Or.inr ⟨row, hrow, hid, h⟩
  · rintro (⟨row, hrow, hid, h⟩ | ⟨row, hrow, hid, h⟩)
    · exact ⟨row, hrow, hid, Or.inl h⟩
    · exact ⟨row, hrow, hid, Or.inr h⟩

/-- A filter with a further alternative is checked as the rule and the first alternative, or
the others on their own. -/
theorem allowed_iff_of_alternative {sub : Subscription} {rule : Text} {action : Action} {r e : Expr}
    {k : Conj} {cr ce : Cond} {ks : List Item}
    (hrule : checkRule (Realtime.topicRule c sub) (Realtime.isAdmin sub.authPayload) = .expression rule)
    (hr : parseText rule = some r) (hcom : ¬EndsInComment rule)
    (hf : parseText (parenthesized (Realtime.filterExpr sub)) = some (.or k e))
    (ht : sanitizeIdent c.name = .ok c.name) {E : FilterEnv}
    (hE : E = filterEnv rt db c (Realtime.ruleContext sub) (spliceFilters rule (Realtime.filterExpr sub)))
    (hcr : compileExpr E r = .ok cr) (hks : conjItems E k = .ok ks) (hce : compileExpr E e = .ok ce)
    (hacc : Accepted db c.name (Item.andExpr (.sql cr :: ks)) ∧ Accepted db c.name ce)
    (hact : action ≠ .delete) :
    Realtime.isSubscriptionAllowedForEvent rt pg db c sub recordId action = true ↔
      selectsRecord pg db c.name recordId (Item.andExpr (.sql cr :: ks)) = true ∨
        selectsRecord pg db c.name recordId ce = true := by
  subst hE
  have hne : Realtime.filterExpr sub ≠ [] := by
    intro h0
    rw [h0, parenthesized, parseText_eq_some] at hf
    have hlex : lex ('(' :: ([] ++ [')'])) = some [.lpar, .rpar] := by decide
    rw [hlex] at hf
    have hnone : parseTokens [.lpar, .rpar] = none := by simp [parseTokens, parseExpr_lpar_rpar]
    rw [parseTokens_eq_some.2 (Option.some.inj hf).symm] at hnone
    cases hnone
  have hparse : parseFilter (filterEnv rt db c (Realtime.ruleContext sub)
      (spliceFilters rule (Realtime.filterExpr sub)))
      (spliceFilters rule (Realtime.filterExpr sub)) =
      .ok (.or (Item.andExpr (.sql cr :: ks)) ce) := by
    refine parseFilter_of_parseText ht (e := (Expr.or k e).consAnd (.paren r)) ?_ ?_
    · rw [parseText_splice_any hr hcom, hf]
      rfl
    · simp [Expr.consAnd, compileExpr, conjItems, atomItem, hcr, hks, hce, Functor.map, Except.map,
        bind, Except.bind, pure, Except.pure]
  unfold Realtime.isSubscriptionAllowedForEvent Realtime.withFilter
  rw [hrule, if_neg hne]
  dsimp only
  rw [if_neg hact, passes_eq_true, checkRecordRule_eq_true]
  simp only [hparse, Except.ok.injEq, exists_eq_left', accepted_or, hacc, and_self, true_and,
    selectsRecord_or]

end

/-- A collection whose records are for their owner. -/
def ownedNotes : Collection where
  id := "notes"
  name := "notes"
  schema := [{ name := "owner", type := .text }]
  listRule := some "owner = 'alice'"

def ownedDb : Db where
  collections := [ownedNotes]
  tables := [("notes", ⟨["id", "owner"],
    [[("id", .text "n1"), ("owner", .text "alice")], [("id", .text "n2"), ("owner", .text "bob")]]⟩)]

/-- A subscription to all notes with a filter of the client's. -/
def notesSubscription (filter : Text) : Subscription where
  baseTopic := "notes/*"
  optionsQuery := [("filter", .text filter)]

/-- A filter that closes the parenthesis before it delivers a record the rule refuses. -/
theorem unbalanced_filter_delivered :
    Realtime.isSubscriptionAllowedForEvent .simple .scalars ownedDb ownedNotes
        (notesSubscription "1=1) || (1=1") "n2" .update = true ∧
      Realtime.ruleAdmits .simple .scalars ownedDb ownedNotes
        (notesSubscription "1=1) || (1=1") "n2" = false := by
  decide +kernel

/-- A filter that parses on its own, at the record the rule admits. -/
theorem owner_filter_admitted :
    Realtime.ruleAdmits .simple .scalars ownedDb ownedNotes (notesSubscription "id = 'n1'") "n1" =
      true := by
  have hrule : parseText "owner = 'alice'" = some (.one (.one (.comparison
      ⟨.fieldPath ⟨"owner", [], by decide⟩, .eq, .string "'alice'"⟩))) :=
    parseText_eq_some.2 (by decide)
  have hfilter : parseText "id = 'n1'" = some (.one (.one (.comparison
      ⟨.fieldPath ⟨"id", [], by decide⟩, .eq, .string "'n1'"⟩))) :=
    parseText_eq_some.2 (by decide)
  have hallowed : Realtime.isSubscriptionAllowedForEvent .simple .scalars ownedDb ownedNotes
      (notesSubscription "id = 'n1'") "n1" .update = true := by
    decide +kernel
  refine ruleAdmits_of_allowed (by simp [ownedDb]) (by decide) (fun rule h => ?_) hallowed
  obtain rfl : ("owner = 'alice'" : Text) = rule := RuleResult.expression.inj h
  refine Or.inr ⟨⟨_, hrule, Or.inr ?_⟩, by decide, oneConjunction_of_parseText hfilter⟩
  simp [Expr.operands, Conj.operands, Atom.operands, Operand.isPlain]

end PPBase
