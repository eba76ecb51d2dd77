import PPBase.DdlTokens

/-!
# The parts of an index statement

What stands before the table of an index statement is read by PostgreSQL up to its last
character, unless the name of the index is in backticks : keywords, blanks and names leave the
lexer in a `Calm` state (`Steady`), and a quote after the last blank opens an identifier
(`isClosed_target`).

If PostgreSQL reads the name of an index in a statement that was put together again, the name has
no quotes (`plain_of_lex`).
-/

namespace PPBase

namespace Ddl

open Pg SchemaManager IndexSql Matcher

/-! ## Calm states -/

/-- Between tokens, in a word, or after an identifier. -/
def Calm : Pg.State → Prop
  | .start | .word _ | .identQuote false _ => True
  | _ => False

/-- Between tokens or in a word. -/
def Sharp : Pg.State → Prop
  | .start | .word _ => True
  | _ => False

variable {st : Pg.State} {c : Char} {p : List Pg.Token × Pg.State} {a s : Text}
  {ms : List (Matcher Char Text)}

theorem Sharp.calm (h : Sharp st) : Calm st := by
  cases st <;> first | exact h | cases h

theorem Sharp.settled (h : Sharp st) : settled st = true := by
  cases st with
  | start => rfl
  | word acc =>
    refine decide_eq_true ?_
    change stepWord acc '"' = _
    unfold stepWord
    rw [if_neg (by decide)]
    split
    all_goals first | rfl | (rename_i h; cases h)
  | _ => cases h

/-- A character that opens no string, number or operator. -/
def Mild (c : Char) : Prop :=
  (∀ p, Pg.opening c = some p → Sharp p.2) ∧ c ≠ '"' ∧ c ≠ '\'' ∧ c ≠ '&'

theorem Mild.after (h : Mild c) {us : List Pg.Token} (hp : Pg.after us c = some p) : Sharp p.2 := by
  obtain ⟨q, hq, rfl⟩ := Option.map_eq_some_iff.1 hp
  exact h.1 q hq

theorem Mild.stepWord (h : Mild c) {acc : Text} (hp : Pg.stepWord acc c = some p) : Sharp p.2 := by
  unfold Pg.stepWord at hp
  split_ifs at hp with hc
  · rw [← Option.some.inj hp]
    trivial
  · split at hp
    all_goals first
      | exact absurd rfl h.2.2.1
      | exact absurd rfl h.2.2.2
      | exact h.after hp

theorem ne_zero_of_step (h : Pg.step st c = some p) : c ≠ '\x00' := by
  rintro rfl
  rw [step_zero] at h
  cases h

/-- A mild character leads from a calm state to a sharp one. -/
theorem Mild.step (h : Mild c) (hst : Calm st) (hp : Pg.step st c = some p) : Sharp p.2 := by
  have hzero := ne_zero_of_step hp
  cases st with
  | start =>
    rw [step_start hzero] at hp
    exact h.1 p hp
  | word acc =>
    rw [step_word hzero] at hp
    exact h.stepWord hp
  | identQuote unicode acc =>
    rw [step_identQuote hzero h.2.1] at hp
    obtain ⟨t, -, ht⟩ := Option.bind_eq_some_iff.1 hp
    exact h.after ht
  | _ => cases hst

theorem mild_of (hdigit : c.isDigit = false) (hop : isOpChar c = false)
    (hother : c ∉ ['"', '\'', '$', '.', ':']) : Mild c := by
  have hne : c ≠ '"' ∧ c ≠ '\'' ∧ c ≠ '$' ∧ c ≠ '.' ∧ c ≠ ':' := by simpa using hother
  obtain ⟨hquote, hapostrophe, hdollar, hdot, hcolon⟩ := hne
  refine ⟨fun p hp => ?_, hquote, hapostrophe, fun h => ?_⟩
  · unfold Pg.opening at hp
    simp only [hdigit, hop, Bool.false_eq_true, if_false] at hp
    split_ifs at hp
    · rw [← Option.some.inj hp]
      trivial
    · rw [← Option.some.inj hp]
      trivial
    · rw [← Option.some.inj hp]
      trivial
  · rw [h] at hop
    exact absurd hop (by decide)

/-- A class of characters without digits, operators, quotes and the like. -/
theorem mild_of_class {q : Char → Bool} (hdigit : ∀ c, c.isDigit = true → q c = false)
    (hop : ∀ c ∈ "~!@#^&|`?+-*/%<>=".toList, q c = false)
    (hother : ∀ c ∈ ['"', '\'', '$', '.', ':'], q c = false) (h : q c = true) : Mild c := by
  refine mild_of ?_ ?_ fun hc => ?_
  · by_contra hc
    rw [hdigit c (by simpa using hc)] at h
    cases h
  · by_contra hc
    rw [Bool.not_eq_false] at hc
    rw [hop c (of_decide_eq_true hc)] at h
    cases h
  · rw [hother c hc] at h
    cases h

theorem mild_of_isAlpha (h : c.isAlpha = true) : Mild c := by
  refine mild_of_class (fun d hd => ?_) (by decide) (by decide) h
  obtain ⟨hlow, hhigh⟩ := Text.toNat_of_isDigit hd
  rw [Bool.eq_false_iff]
  intro halpha
  rcases Text.isAlpha_iff.1 halpha with hd' | hd' <;> omega

theorem mild_of_isSpace (h : IndexSql.isSpace c = true) : Mild c := by
  refine mild_of_class (fun d hd => ?_) (by decide) (by decide) h
  obtain ⟨hlow, hhigh⟩ := Text.toNat_of_isDigit hd
  unfold IndexSql.isSpace
  simp only [Bool.or_eq_false_iff, Bool.and_eq_false_iff, decide_eq_false_iff_not]
  omega

theorem isAlpha_of_toLower {d : Char} (h : c.toLower = d.toLower) (hd : d.isAlpha = true) :
    c.isAlpha = true := by
  have hnat : c.toLower.toNat = d.toLower.toNat := by rw [h]
  rw [Text.toNat_toLower, Text.toNat_toLower] at hnat
  rw [Text.isAlpha_iff] at hd ⊢
  split_ifs at hnat <;> omega

/-! ## Steady texts -/

/-- A text after which a calm lexer is calm. -/
def Steady (a : Text) : Prop :=
  ∀ st, Calm st → ∀ p, Pg.lexer.run st a = some p → Calm p.2

theorem steady_nil : Steady [] := by
  rintro st hst p ⟨⟩
  exact hst

theorem steady_append {b : Text} (ha : Steady a) (hb : Steady b) : Steady (a ++ b) := by
  intro st hst p hp
  rw [Pg.lexer.run_append] at hp
  obtain ⟨q, hq, hp⟩ := Option.bind_eq_some_iff.1 hp
  obtain ⟨q', hq', rfl⟩ := Option.map_eq_some_iff.1 hp
  exact hb q.2 (ha st hst q hq) q' hq'

theorem steady_of_mild (h : ∀ c ∈ a, Mild c) : Steady a := by
  induction a with
  | nil => exact steady_nil
  | cons c a ih =>
    obtain ⟨hc, ha⟩ := List.forall_mem_cons.1 h
    intro st hst p hp
    obtain ⟨q, q', hq, hq', rfl⟩ := Pg.lexer.run_cons_eq_some.1 hp
    exact ih ha q.2 (hc.step hst hq).calm q' hq'

theorem steady_spaces : Gives spaces Steady :=
  (Gives.many1 _).mono fun _ h => steady_of_mild fun c hc => mild_of_isSpace (h.2 c hc)

theorem steady_keyword {w : Text} (hw : ∀ c ∈ w, c.isAlpha = true) : Gives (keyword w) Steady := by
  refine (Gives.literal _ w).mono fun a ha => steady_of_mild fun c hc => ?_
  have hmem : c.toLower ∈ w.map Char.toLower := ha ▸ List.mem_map_of_mem hc
  obtain ⟨d, hd, heq⟩ := List.mem_map.1 hmem
  exact mild_of_isAlpha (isAlpha_of_toLower heq.symm (hw d hd))

theorem steady_seq (h : ∀ m ∈ ms, Gives m Steady) : Gives (seq ms) Steady :=
  Gives.seq steady_nil (fun _ _ => steady_append) h

/-! ## Names -/

/-- The inside of a quoted name is a text with its quotes doubled. -/
theorem mem_quotedBody : ∀ p ∈ quotedBody s, s = p.1 ++ p.2 ∧ ∃ v, v ≠ [] ∧ p.1 = escape v := by
  induction s using quotedBody.induct with
  | case1 =>
    intro p hp
    exact absurd hp List.not_mem_nil
  | case2 s ih =>
    intro p hp
    obtain ⟨q, hq, rfl⟩ := List.mem_map.1 hp
    rcases List.mem_append.1 hq with hq | hq
    · obtain ⟨hs, v, -, hv⟩ := ih q hq
      exact ⟨congrArg ('"' :: '"' :: ·) hs, '"' :: v, List.cons_ne_nil _ _, by rw [hv]; rfl⟩
    · rw [List.mem_singleton.1 hq]
      exact ⟨rfl, ['"'], List.cons_ne_nil _ _, rfl⟩
  | case3 s h =>
    intro p hp
    rw [quotedBody] at hp
    · exact absurd hp List.not_mem_nil
    · exact h
  | case4 c s h₁ h₂ ih =>
    intro p hp
    have hc : c ≠ '"' := h₂
    rw [quotedBody_cons hc] at hp
    obtain ⟨q, hq, rfl⟩ := List.mem_map.1 hp
    rcases List.mem_append.1 hq with hq | hq
    · obtain ⟨hs, v, -, hv⟩ := ih q hq
      exact ⟨congrArg (c :: ·) hs, c :: v, List.cons_ne_nil _ _, by rw [hv, escape, if_neg hc]⟩
    · rw [List.mem_singleton.1 hq]
      exact ⟨rfl, [c], List.cons_ne_nil _ _, by rw [escape, if_neg hc]; rfl⟩

theorem mem_quote {p : Text × Text} (h : p ∈ literal id ['"'] s) : s = '"' :: p.2 := by
  cases s with
  | nil => exact absurd h List.not_mem_nil
  | cons c s =>
    rw [literal] at h
    split_ifs at h with hc
    · obtain ⟨q, hq, rfl⟩ := List.mem_map.1 h
      rw [literal] at hq
      have hquote : '"' = c := hc
      rw [List.mem_singleton.1 hq, hquote]
    · exact absurd h List.not_mem_nil

theorem mem_quotedIdent {p : Ident × Text} (h : p ∈ quotedIdent s) :
    s = p.1.text ++ p.2 ∧ ∃ v, v ≠ [] ∧ p.1 = .quoted (escape v) := by
  obtain ⟨q, hq, h⟩ := List.mem_flatMap.1 h
  obtain ⟨q', hq', h⟩ := List.mem_flatMap.1 h
  obtain ⟨q'', hq'', h⟩ := List.mem_flatMap.1 h
  obtain rfl := List.mem_singleton.1 h
  obtain ⟨hs, v, hv, hraw⟩ := mem_quotedBody q' hq'
  refine ⟨?_, v, hv, congrArg Ident.quoted hraw⟩
  rw [mem_quote hq, hs, mem_quote hq'']
  simp [Ident.text]

/-- A quote opens an identifier. -/
theorem Calm.quote (h : Calm st) (hp : Pg.step st '"' = some p) :
    ∃ acc, p.2 = .identBody false acc := by
  cases st with
  | start =>
    rw [← Option.some.inj hp]
    exact ⟨[], rfl⟩
  | word acc =>
    have hsharp : Sharp (.word acc) := trivial
    have hsettled := of_decide_eq_true hsharp.settled
    rw [hsettled] at hp
    rw [← Option.some.inj hp]
    exact ⟨[], rfl⟩
  | identQuote unicode acc =>
    cases unicode with
    | false =>
      rw [← Option.some.inj hp]
      exact ⟨_, rfl⟩
    | true => cases h
  | _ => cases h

theorem steady_quoted (v : Text) : Steady ('"' :: escape v ++ ['"']) := by
  intro st hst p hp
  rw [List.cons_append] at hp
  obtain ⟨q, q', hq, hq', rfl⟩ := Pg.lexer.run_cons_eq_some.1 hp
  obtain ⟨acc, hacc⟩ := hst.quote hq
  rw [hacc] at hq'
  by_cases hv : '\x00' ∈ v
  · have hmem : '\x00' ∈ escape v ++ ['"'] := List.mem_append_left _ (mem_escape hv)
    rw [run_eq_none_of_mem hmem] at hq'
    cases hq'
  · have hclose : Pg.lexer.step (.identBody false (acc ++ v)) '"' =
        some ([], .identQuote false (acc ++ v)) := rfl
    rw [Pg.lexer.run_append, run_identBody_escape hv, Option.bind_some,
      Pg.lexer.run_cons hclose] at hq'
    rw [← Option.some.inj hq']
    trivial

theorem opening_of_isIdentStart (h : Text.isIdentStart c = true) :
    Pg.opening c = some ([], .word [c]) := by
  have hspaces : ∀ d ∈ [' ', '\t', '\n', '\r', '\x0b', '\x0c'], Text.isIdentStart d = false := by
    decide
  have hspace : ¬Pg.isSpace c = true := by
    intro hc
    rw [hspaces c (of_decide_eq_true hc)] at h
    cases h
  have hstart : Pg.isIdentStart c = true := by
    unfold Pg.isIdentStart
    rw [show (c.isAlpha || c == '_') = true from h, Bool.true_or]
  unfold Pg.opening
  rw [if_neg hspace, if_pos hstart]

theorem stepWord_of_isIdentChar (h : (Text.isIdentChar c || c == '$') = true) (acc : Text) :
    Pg.stepWord acc c = some ([], .word (acc ++ [c])) := by
  have hident : Pg.isIdentChar c = true := by
    unfold Text.isIdentChar Text.isIdentStart at h
    unfold Pg.isIdentChar Pg.isTagChar Pg.isIdentStart
    revert h
    cases c.isAlpha <;> cases c == '_' <;> cases c.isDigit <;> cases c == '$' <;> simp
  exact if_pos hident

/-- A letter begins or goes on a word. -/
theorem Calm.letter (h : Calm st) (hc : Text.isIdentStart c = true) (hp : Pg.step st c = some p) :
    ∃ acc, p.2 = .word acc := by
  have hzero := ne_zero_of_step hp
  cases st with
  | start =>
    rw [step_start hzero, opening_of_isIdentStart hc] at hp
    rw [← Option.some.inj hp]
    exact ⟨[c], rfl⟩
  | word acc =>
    have hchar : (Text.isIdentChar c || c == '$') = true := by
      unfold Text.isIdentChar
      rw [hc, Bool.true_or, Bool.true_or]
    rw [step_word hzero, stepWord_of_isIdentChar hchar] at hp
    rw [← Option.some.inj hp]
    exact ⟨_, rfl⟩
  | identQuote unicode acc =>
    have hquote : c ≠ '"' := by
      rintro rfl
      revert hc
      decide
    rw [step_identQuote hzero hquote] at hp
    obtain ⟨t, -, ht⟩ := Option.bind_eq_some_iff.1 hp
    rw [Pg.after, opening_of_isIdentStart hc] at ht
    rw [← Option.some.inj ht]
    exact ⟨[c], rfl⟩
  | _ => cases h

theorem run_word (ha : ∀ c ∈ a, (Text.isIdentChar c || c == '$') = true) (acc : Text) :
    Pg.lexer.run (.word acc) a = some ([], .word (acc ++ a)) := by
  induction a generalizing acc with
  | nil => rw [List.append_nil]; rfl
  | cons c a ih =>
    obtain ⟨hc, ha⟩ := List.forall_mem_cons.1 ha
    have hzero : c ≠ '\x00' := by
      rintro rfl
      revert hc
      decide
    have hstep : Pg.lexer.step (.word acc) c = some ([], .word (acc ++ [c])) :=
      (step_word hzero acc).trans (stepWord_of_isIdentChar hc acc)
    rw [Pg.lexer.run_cons hstep, ih ha]
    simp

theorem steady_plain (hc : Text.isIdentStart c = true)
    (ha : ∀ d ∈ a, (Text.isIdentChar d || d == '$') = true) : Steady (c :: a) := by
  intro st hst p hp
  obtain ⟨q, q', hq, hq', rfl⟩ := Pg.lexer.run_cons_eq_some.1 hp
  obtain ⟨acc, hacc⟩ := hst.letter hc hq
  rw [hacc, run_word ha] at hq'
  rw [← Option.some.inj hq']
  trivial

theorem steady_quotedIdent : Gives quotedIdent fun i => Steady i.text := by
  intro s p hp
  obtain ⟨-, v, -, hv⟩ := mem_quotedIdent hp
  rw [hv]
  exact steady_quoted v

theorem steady_plainIdent : Gives plainIdent fun i => Steady i.text := by
  refine (Gives.many1 _).bind fun raw hraw s p hp => ?_
  split_ifs at hp with hhead
  · rw [List.mem_singleton.1 hp]
    cases raw with
    | nil => exact absurd rfl hraw.1
    | cons c a => exact steady_plain hhead (List.forall_mem_cons.1 hraw.2).2
  · exact absurd hp List.not_mem_nil

/-- The name of an index that is not in backticks. -/
def Unticked (i : Ident) : Prop := ∀ raw, i ≠ .backtick raw

theorem steady_name : Gives (quotedIdent.orElse (backtickIdent.orElse plainIdent))
    fun i => Unticked i → Steady i.text := by
  refine .orElse (steady_quotedIdent.mono fun _ h _ => h)
    (.orElse ?_ (steady_plainIdent.mono fun _ h _ => h))
  exact (Gives.trivial _).bind fun _ _ => (Gives.trivial _).bind fun raw _ =>
    (Gives.trivial _).bind fun _ _ => .pure fun h => absurd rfl (h raw)

theorem steady_many : Gives (many IndexSql.isSpace) Steady :=
  (Gives.many _).mono fun _ h => steady_of_mild fun c hc => mild_of_isSpace (h c hc)

theorem steady_nameHead : Gives nameHead Steady := by
  have hall : ∀ w : Text, (∀ c ∈ w, c.isAlpha = true) → Gives (keyword w) Steady := fun _ =>
    steady_keyword
  refine steady_seq ?_
  simp only [List.forall_mem_cons, List.not_mem_nil, IsEmpty.forall_iff, implies_true, and_true]
  refine ⟨steady_many, hall _ (by decide), steady_spaces, .opt (steady_seq ?_) steady_nil,
    hall _ (by decide), steady_spaces, .opt (steady_seq ?_) steady_nil,
    .opt (steady_seq ?_) steady_nil⟩
  all_goals
    simp only [List.forall_mem_cons, List.not_mem_nil, IsEmpty.forall_iff, implies_true, and_true]
  · exact ⟨hall _ (by decide), steady_spaces⟩
  · exact ⟨hall _ (by decide), steady_spaces⟩
  · exact ⟨hall _ (by decide), steady_spaces, hall _ (by decide), steady_spaces,
      hall _ (by decide), steady_spaces⟩

variable (isAlnum : Char → Bool)

/-- A text that begins with a blank. -/
def Spaced (s : Text) : Prop := ∃ c ∈ s.head?, IndexSql.isSpace c = true

theorem Spaced.unquoted (h : Spaced s) (r : Text) : Unquoted (s ++ r) := by
  obtain ⟨c, hc, hspace⟩ := h
  intro hr
  rw [List.head?_append, Option.mem_def.1 hc] at hr
  rw [Option.some.inj hr] at hspace
  revert hspace
  decide

theorem gives_spaces : Gives spaces fun a => Spaced a ∧ ∀ c ∈ a, IndexSql.isSpace c = true := by
  refine (Gives.many1 _).mono fun a h => ⟨?_, h.2⟩
  cases a with
  | nil => exact absurd rfl h.1
  | cons c a => exact ⟨c, rfl, (List.forall_mem_cons.1 h.2).1⟩

theorem spaced_of_ne_nil (h : spaces s ≠ []) : Spaced s := by
  cases s with
  | nil => exact absurd rfl h
  | cons c s =>
    refine ⟨c, rfl, ?_⟩
    by_contra hc
    apply h
    rw [spaces, many1, many, if_neg hc]
    rfl

theorem gives_indexName : Gives (indexName isAlnum) fun q => Steady q.1 ∧
    (Unticked q.2 → Steady q.2.text) :=
  steady_nameHead.bind fun _ hhead => steady_name.bind fun _ hname =>
    (Gives.trivial _).bind fun _ _ => .pure ⟨hhead, hname⟩

theorem leaves_indexName : Leaves (indexName isAlnum) Spaced := by
  refine .bind fun _ => .bind fun _ => Leaves.lookahead fun s h => spaced_of_ne_nil fun hnil => ?_
  have hempty : (seq [spaces, keyword "ON"]).bind (fun _ => wordEnd isAlnum) s = [] :=
    bind_eq_nil (seq_eq_nil hnil)
  rw [hempty] at h
  cases h

/-- A text after which a calm lexer is between tokens or in a word. -/
def Sharpens (a : Text) : Prop :=
  ∀ st, Calm st → ∀ p, Pg.lexer.run st a = some p → Sharp p.2

theorem sharpens_append {b : Text} (ha : Steady a) (hb : Sharpens b) : Sharpens (a ++ b) := by
  intro st hst p hp
  rw [Pg.lexer.run_append] at hp
  obtain ⟨q, hq, hp⟩ := Option.bind_eq_some_iff.1 hp
  obtain ⟨q', hq', rfl⟩ := Option.map_eq_some_iff.1 hp
  exact hb q.2 (ha st hst q hq) q' hq'

theorem Sharpens.steady (h : Sharpens a) : Steady a :=
  fun st hst p hp => (h st hst p hp).calm

theorem sharpens_spaces (h : Spaced a ∧ ∀ c ∈ a, IndexSql.isSpace c = true) : Sharpens a := by
  obtain ⟨b, c, rfl⟩ : ∃ b c, a = b ++ [c] := by
    obtain ⟨d, hd, -⟩ := h.1
    have hne : a ≠ [] := by
      rintro rfl
      cases hd
    exact ⟨a.dropLast, a.getLast hne, (List.dropLast_append_getLast hne).symm⟩
  refine sharpens_append (steady_of_mild fun d hd => mild_of_isSpace
    (h.2 d (List.mem_append_left _ hd))) fun st hst p hp => ?_
  obtain ⟨q, q', hq, hq', rfl⟩ := Pg.lexer.run_cons_eq_some.1 hp
  obtain rfl := Option.some.inj hq'
  have hsharp := (mild_of_isSpace (h.2 c (by simp))).step hst hq
  exact hsharp

/-- What stands before the table of an index. -/
theorem gives_targetHead :
    Gives (seq [spaces, keyword "ON", spaces, opt (seq [keyword "ONLY", spaces])])
      fun a => Spaced a ∧ Sharpens a := by
  have hon : Gives (keyword "ON") Steady := steady_keyword (by decide)
  have honly : Gives (keyword "ONLY") Steady := steady_keyword (by decide)
  have hblank : Gives spaces Sharpens := gives_spaces.mono fun _ => sharpens_spaces
  have hopt : Gives (opt (seq [keyword "ONLY", spaces])) fun b => b = [] ∨ Sharpens b :=
    .opt ((honly.seq_cons hblank.seq_singleton fun _ _ => sharpens_append).mono fun _ => .inr)
      (.inl rfl)
  have htail : Gives (seq [spaces, opt (seq [keyword "ONLY", spaces])]) Sharpens := by
    refine hblank.seq_cons hopt.seq_singleton fun a b ha hb => ?_
    rcases hb with rfl | hb
    · rw [List.append_nil]
      exact ha
    · exact sharpens_append ha.steady hb
  refine gives_spaces.seq_cons (hon.seq_cons htail fun _ _ => sharpens_append) fun a b ha hb =>
    ⟨?_, sharpens_append (sharpens_spaces ha).steady hb⟩
  obtain ⟨c, hc, hspace⟩ := ha.1
  refine ⟨c, ?_, hspace⟩
  rw [List.head?_append, Option.mem_def.1 hc]
  rfl

theorem gives_indexTarget : Gives (indexTarget isAlnum) fun q => Spaced q.1 ∧ Sharpens q.1 :=
  gives_targetHead.bind fun _ hhead => (Gives.trivial _).bind fun _ _ =>
    (Gives.trivial _).bind fun _ _ => (Gives.trivial _).bind fun _ _ => .pure hhead

theorem leaves_indexTarget : Leaves (indexTarget isAlnum) Unquoted := by
  refine .bind fun _ => .bind fun _ => .bind fun _ => Leaves.lookahead fun s h hs => ?_
  obtain ⟨t, rfl⟩ : ∃ t, s = '"' :: t := exists_cons_of_not_unquoted (not_not.2 hs)
  have husing : keyword "USING" ('"' :: t) = [] := keyword_eq_nil (v := ['"']) t (by decide)
  have hkeys : (((keyword "USING").bind fun _ => wordEnd isAlnum).orElse
      ((literal id ['(']).bind fun _ => .pure ())) ('"' :: t) = [] := by
    rw [orElse, bind_eq_nil husing]
    rfl
  have hmany : many IndexSql.isSpace ('"' :: t) = [([], '"' :: t)] := rfl
  have hempty : ((many IndexSql.isSpace).bind fun _ => ((keyword "USING").bind fun _ =>
      wordEnd isAlnum).orElse ((literal id ['(']).bind fun _ => .pure ())) ('"' :: t) = [] := by
    rw [Matcher.bind, hmany, List.flatMap_singleton, hkeys]
  rw [hempty] at h
  cases h

/-! ## A statement that was taken apart -/

/-- A text may not run into what follows it. -/
structure Sane (p : Parts) : Prop where
  head : Steady p.head
  name : Unticked p.name → Steady p.name.text
  middle : Spaced p.middle ∧ Sharpens p.middle
  tail : Unquoted p.tail

theorem sane_of_parts {p : Parts} (h : indexStatementParts isAlnum s = some p) : Sane p := by
  unfold indexStatementParts at h
  split at h
  · cases h
  · rename_i head name rest hname
    split_ifs at h
    obtain ⟨q, hq, rfl⟩ := Option.map_eq_some_iff.1 h
    have hmem := List.mem_of_head? hname
    have hmem' := List.mem_of_head? hq
    obtain ⟨hhead, hid⟩ := gives_indexName isAlnum _ _ hmem
    exact ⟨hhead, hid, gives_indexTarget isAlnum _ _ hmem', leaves_indexTarget isAlnum _ _ hmem'⟩

/-- The name of the schema does not run into the table's. -/
theorem isClosed_target {b : Text} (ha : Steady a) (hb : Sharpens b) :
    isClosed (a ++ b ++ ("\"public\"." : Text)) = true := by
  have hsplit : ("\"public\"." : Text) = '"' :: ("public\"." : Text) := by decide
  have hpublic : Pg.lexer.run (.identBody false []) ("public\"." : Text) =
      some ([.ident "public"], .dot) := by decide
  unfold isClosed
  cases hrun : Pg.lexer.run .start (a ++ b ++ ("\"public\"." : Text)) with
  | none => rfl
  | some p =>
    rw [Pg.lexer.run_append] at hrun
    obtain ⟨q, hq, hrun⟩ := Option.bind_eq_some_iff.1 hrun
    obtain ⟨q', hq', rfl⟩ := Option.map_eq_some_iff.1 hrun
    have hsharp : Sharp q.2 := sharpens_append ha hb .start trivial q hq
    rw [hsplit] at hq'
    obtain ⟨r, r', hr, hr', rfl⟩ := Pg.lexer.run_cons_eq_some.1 hq'
    have hstep := of_decide_eq_true hsharp.settled
    rw [Pg.lexer_step, hstep] at hr
    obtain ⟨ts, -, rfl⟩ := Option.map_eq_some_iff.1 hr
    rw [hpublic] at hr'
    rw [← Option.some.inj hr']
    rfl

/-! ## The name in a statement that was put together -/

theorem literal_append {w : Text} (r : Text) : keyword w (w ++ r) = [(w, r)] := by
  induction w with
  | nil =>
    unfold keyword literal
    rfl
  | cons c w ih =>
    unfold keyword at ih ⊢
    rw [List.cons_append, literal, if_pos rfl, ih]
    rfl

variable {r : Text}

theorem many_eq (hr : ∀ c ∈ r.head?, IndexSql.isSpace c = false) :
    many IndexSql.isSpace r = [([], r)] := by
  cases r with
  | nil => rfl
  | cons c r =>
    rw [many, hr c rfl]
    rfl

theorem spaces_eq (hr : ∀ c ∈ r.head?, IndexSql.isSpace c = false) :
    spaces (' ' :: r) = [([' '], r)] := by
  have hblank : IndexSql.isSpace ' ' = true := by decide
  rw [spaces, many1, many, if_pos hblank, many_eq hr]
  rfl

theorem seq_cons_eq {m : Matcher Char Text} (h : m s = [(a, r)]) :
    seq (m :: ms) s = (seq ms r).map fun q => (a ++ q.1, q.2) := by
  rw [seq, Matcher.bind, h, List.flatMap_singleton, Matcher.bind]
  exact List.flatMap_pure_eq_map _ _

theorem seq_keyword_eq {w : Text} (hr : ∀ c ∈ r.head?, IndexSql.isSpace c = false) :
    seq (keyword w :: spaces :: ms) (w ++ ' ' :: r) =
      (seq ms r).map fun q => (w ++ ' ' :: q.1, q.2) := by
  rw [seq_cons_eq (literal_append _), seq_cons_eq (spaces_eq hr), List.map_map]
  rfl

theorem opt_eq {ps : List (Text × Text)} (h : seq ms s = ps) : opt (seq ms) s = ps ++ [([], s)] := by
  rw [opt, orElse, h]
  rfl

/-- The ways to read `INDEX IF NOT EXISTS` before a quote. -/
theorem seq_index (r : Text) :
    seq [keyword "INDEX", spaces, opt (seq [keyword "CONCURRENTLY", spaces]),
      opt (seq [keyword "IF", spaces, keyword "NOT", spaces, keyword "EXISTS", spaces])]
      (indexIfNotExists ('"' :: r)) =
    [(indexIfNotExists [], '"' :: r), (("INDEX" : Text) ++ [' '], ifNotExists ('"' :: r))] := by
  have hquote : ∀ c ∈ ('"' :: r).head?, IndexSql.isSpace c = false := by
    rintro c ⟨⟩
    decide
  have hconc : opt (seq [keyword "CONCURRENTLY", spaces]) (ifNotExists ('"' :: r)) =
      [([], ifNotExists ('"' :: r))] :=
    opt_eq (seq_eq_nil (keyword_eq_nil _ (by decide)))
  have hif : seq [keyword "IF", spaces, keyword "NOT", spaces, keyword "EXISTS", spaces]
      (ifNotExists ('"' :: r)) = [(ifNotExists [], '"' :: r)] := by
    rw [ifNotExists, seq_keyword_eq (head_append (by decide)),
      seq_keyword_eq (head_append (by decide)), seq_keyword_eq hquote]
    rfl
  have hblank : ∀ c ∈ (ifNotExists ('"' :: r)).head?, IndexSql.isSpace c = false :=
    head_append (by decide)
  rw [indexIfNotExists, seq_keyword_eq hblank, seq_cons_eq hconc, seq, Matcher.bind, opt_eq hif]
  rfl

theorem mem_nameHead {unique : Bool} {q : Text × Text}
    (h : q ∈ nameHead (managedHead unique ++ '"' :: r)) :
    q = (managedHead unique, '"' :: r) ∨ q.2 = ifNotExists ('"' :: r) := by
  have hcreate : ∀ t : Text, many IndexSql.isSpace (("CREATE" : Text) ++ ' ' :: t) =
      [([], ("CREATE" : Text) ++ ' ' :: t)] := fun t => many_eq (head_append (by decide))
  have hindex : ∀ c ∈ (indexIfNotExists ('"' :: r)).head?, IndexSql.isSpace c = false :=
    head_append (by decide)
  have hnil : keyword "UNIQUE" (indexIfNotExists ('"' :: r)) = [] := keyword_eq_nil _ (by decide)
  have hhead := managedHead_append unique []
  rw [List.append_nil] at hhead
  rw [managedHead_append, nameHead, seq_cons_eq (hcreate _)] at h
  cases unique with
  | false =>
    rw [if_neg Bool.false_ne_true, seq_keyword_eq hindex,
      seq_cons_eq (opt_eq (seq_eq_nil hnil)), seq_index] at h
    simp only [List.map_cons, List.map_nil, List.mem_cons, List.not_mem_nil, or_false,
      List.nil_append] at h
    rcases h with rfl | rfl
    · exact .inl (by rw [hhead]; rfl)
    · exact .inr rfl
  | true =>
    have hunique : seq [keyword "UNIQUE", spaces] (("UNIQUE" : Text) ++ ' ' ::
        indexIfNotExists ('"' :: r)) =
          [(("UNIQUE" : Text) ++ [' '], indexIfNotExists ('"' :: r))] :=
      seq_keyword_eq hindex
    have hskip : keyword "INDEX" (("UNIQUE" : Text) ++ ' ' :: indexIfNotExists ('"' :: r)) = [] :=
      keyword_eq_nil _ (by decide)
    rw [if_pos rfl, seq_keyword_eq (head_append (by decide)), seq, Matcher.bind, opt_eq hunique,
      List.singleton_append, List.flatMap_cons, List.flatMap_singleton,
        bind_eq_nil (seq_eq_nil hskip),
      List.append_nil, Matcher.bind, seq_index] at h
    simp only [List.flatMap_cons, List.flatMap_nil, Matcher.pure, List.map_cons, List.map_nil,
      List.mem_cons, List.not_mem_nil, or_false, List.nil_append, List.append_nil,
      List.singleton_append] at h
    rcases h with rfl | rfl
    · exact .inl (by rw [hhead, if_pos rfl]; simp)
    · exact .inr rfl

theorem names_if (t : Text) : (quotedIdent.orElse (backtickIdent.orElse plainIdent))
    (("IF" : Text) ++ ' ' :: t) = [(.plain "IF", ' ' :: t), (.plain "I", 'F' :: ' ' :: t)] := rfl

theorem onFollows_eq_nil (h : (seq [spaces, keyword "ON"]).bind (fun _ => wordEnd isAlnum) s = []) :
    onFollows isAlnum s = [] := by
  rw [onFollows, lookahead, h]
  rfl

/-- A name is read where the quote stands. -/
theorem mem_indexName {unique : Bool} {q : (Text × Ident) × Text}
    (h : q ∈ indexName isAlnum (managedHead unique ++ '"' :: r)) :
    q.1.1 = managedHead unique ∧ ∃ v, v ≠ [] ∧ q.1.2 = .quoted (escape v) ∧
      '"' :: r = q.1.2.text ++ q.2 := by
  obtain ⟨p, hp, hq⟩ := List.mem_flatMap.1 h
  obtain ⟨p', hp', hq⟩ := List.mem_flatMap.1 hq
  obtain ⟨p'', hp'', hq⟩ := List.mem_flatMap.1 hq
  obtain rfl := List.mem_singleton.1 hq
  rcases mem_nameHead hp with rfl | hif
  · have hbacktick : backtickIdent ('"' :: r) = [] := rfl
    have hplain : plainIdent ('"' :: r) = [] := rfl
    have hquoted : p' ∈ quotedIdent ('"' :: r) := by
      rw [orElse, orElse, hbacktick, hplain, List.append_nil, List.append_nil] at hp'
      exact hp'
    have hrest : p''.2 = p'.2 := by
      unfold onFollows lookahead at hp''
      split_ifs at hp''
      · rw [List.mem_singleton.1 hp'']
      · exact absurd hp'' List.not_mem_nil
    obtain ⟨hr, v, hv, hname⟩ := mem_quotedIdent hquoted
    exact ⟨rfl, v, hv, hname, hr.trans (congrArg (p'.1.text ++ ·) hrest.symm)⟩
  · rw [hif, ifNotExists, names_if] at hp'
    have hnot : onFollows isAlnum (' ' :: (("NOT" : Text) ++ ' ' :: (("EXISTS" : Text) ++
        ' ' :: '"' :: r))) = [] := by
      refine onFollows_eq_nil isAlnum (bind_eq_nil ?_)
      have hkeyword : keyword "ON" (("NOT" : Text) ++ ' ' :: (("EXISTS" : Text) ++ ' ' :: '"' :: r)) =
          [] := keyword_eq_nil _ (by decide)
      rw [seq_cons_eq (spaces_eq (head_append (by decide))), seq_eq_nil hkeyword]
      rfl
    have hfollow : ∀ t : Text, onFollows isAlnum ('F' :: ' ' :: t) = [] := fun t =>
      onFollows_eq_nil isAlnum (bind_eq_nil (seq_eq_nil rfl))
    rcases List.mem_cons.1 hp' with rfl | hp'
    · rw [hnot] at hp''
      exact absurd hp'' List.not_mem_nil
    · rw [List.mem_singleton.1 hp', hfollow] at hp''
      exact absurd hp'' List.not_mem_nil

theorem managedHead_closed (unique : Bool) : isClosed (managedHead unique) = true := by
  cases unique <;> decide

/-- If PostgreSQL reads the name of the index in what a statement was rewritten to, the name is
plain. -/
theorem plain_of_lex {unique : Bool} {name rest target : Text} {p : Parts}
    {us ts : List Pg.Token} (hrest : Unquoted rest)
    (hp : indexStatementParts isAlnum (managedHead unique ++ '"' :: (name ++ '"' :: rest)) = some p)
    (hus : Pg.lex (managedHead unique) = some us)
    (h : Pg.lex (p.head ++ p.name.text ++ p.middle ++ target ++ p.tail) =
      some (us ++ .ident name :: ts)) : Plain name := by
  have hsane := sane_of_parts isAlnum hp
  unfold indexStatementParts at hp
  split at hp
  · cases hp
  · rename_i head name' rest' hname
    split_ifs at hp
    obtain ⟨q, -, rfl⟩ := Option.map_eq_some_iff.1 hp
    have hmem := List.mem_of_head? hname
    have hspaced : Spaced rest' := leaves_indexName isAlnum _ _ hmem
    obtain ⟨rfl, v, hv, rfl, htext⟩ := mem_indexName isAlnum hmem
    have hmiddle := hsane.middle.1.unquoted (target ++ q.2)
    have hsplit : managedHead unique ++ (Ident.quoted (escape v)).text ++ q.1.1 ++ target ++ q.2 =
        managedHead unique ++ '"' :: (escape v ++ '"' :: (q.1.1 ++ (target ++ q.2))) := by
      simp [Ident.text]
    rw [hsplit, lex_closed (managedHead_closed unique), hus, Option.bind_some] at h
    obtain ⟨vs, hvs, heq⟩ := Option.map_eq_some_iff.1 h
    rw [List.append_cancel_left heq] at hvs
    obtain ⟨rfl, hzero⟩ := eq_of_lex_escaped hv hmiddle hvs
    have htext' : '"' :: (name ++ '"' :: rest) = '"' :: (escape name ++ '"' :: rest') := by
      rw [htext]
      simp [Ident.text]
    have hquote := notMem_of_escape_append hrest (List.cons.inj htext').2.symm
    exact ⟨hv, hquote, hzero⟩

end Ddl

end PPBase
