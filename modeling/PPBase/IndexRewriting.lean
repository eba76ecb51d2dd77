import PPBase.IndexParts

/-!
# Rewriting index statements

What `_index_statement_parts` finds in a statement is the only way to read it (`Named.first`) : the
words before a name can be told from the name (`head_unique`, `Longer.name`), and a name from what
follows (`name_unique`), since `CONCURRENTLY` is refused, the only word that can be both.

So a statement that was given another name or another table is read with the same parts, but for
this one (`Reads.parts_renamed`, `Reads.parts_moved`), and the two rewrites commute
(`rewrites_of_parts`). A name in backticks is read, but not replaced (`rewriteIndexName_ticked`).
-/

namespace PPBase

namespace IndexSql

open Matcher Ddl

/-- A text in two parts, the first of which ends where a class of characters does. -/
theorem span_unique {p : Char → Bool} {a b x y : Text} (ha : ∀ c ∈ a, p c = true)
    (hb : ∀ c ∈ b, p c = true) (hx : ∀ c ∈ x.head?, p c = false)
    (hy : ∀ c ∈ y.head?, p c = false) (h : a ++ x = b ++ y) : a = b ∧ x = y := by
  induction a generalizing b with
  | nil =>
    cases b with
    | nil => exact ⟨rfl, h⟩
    | cons c b =>
      rw [List.nil_append] at h
      have hc := hx c (by rw [h]; rfl)
      rw [hb c List.mem_cons_self] at hc
      cases hc
  | cons c a ih =>
    cases b with
    | nil =>
      rw [List.nil_append] at h
      have hc := hy c (by rw [← h]; rfl)
      rw [ha c List.mem_cons_self] at hc
      cases hc
    | cons d b =>
      obtain ⟨rfl, hrest⟩ := List.cons.inj h
      obtain ⟨rfl, rfl⟩ := ih (List.forall_mem_cons.1 ha).2 (List.forall_mem_cons.1 hb).2 hrest
      exact ⟨rfl, rfl⟩

/-- A text that begins with no blank. -/
def Blunt (s : Text) : Prop := ∀ c ∈ s.head?, isSpace c = false

/-! ## Names -/

/-- A name as the expressions read it. -/
def IsName : Ident → Prop
  | .quoted raw => ∃ v, v ≠ [] ∧ raw = Pg.escape v
  | .backtick raw => raw ≠ [] ∧ ∀ c ∈ raw, decide (c ≠ '`') = true
  | .plain raw => (∃ c ∈ raw.head?, Text.isIdentStart c = true) ∧
      ∀ c ∈ raw, (Text.isIdentChar c || c == '$') = true

/-- The name of an index. -/
def anyName : Matcher Char Ident := quotedIdent.orElse (backtickIdent.orElse plainIdent)

theorem mem_literal_char {c : Char} {s : Text} {p : Text × Text} (h : p ∈ literal id [c] s) :
    s = c :: p.2 := by
  obtain ⟨hs, -⟩ := Free.literal id [c] s p h
  have hc : p.1.map id = [c].map id := Gives.literal id [c] s p h
  rw [List.map_id, List.map_id] at hc
  rw [hs, hc]
  rfl

theorem mem_plainIdent {s : Text} {p : Ident × Text} (h : p ∈ plainIdent s) :
    s = p.1.text ++ p.2 ∧ IsName p.1 := by
  obtain ⟨q, hq, h⟩ := List.mem_flatMap.1 h
  obtain ⟨hs, -⟩ := Free.many1 _ s q hq
  dsimp only at h
  split_ifs at h with hhead
  · obtain rfl := List.mem_singleton.1 h
    refine ⟨hs, ?_, (Gives.many1 _ s q hq).2⟩
    rw [Option.any_eq_true_iff_get] at hhead
    obtain ⟨hsome, hstart⟩ := hhead
    exact ⟨_, Option.get_mem hsome, hstart⟩
  · exact absurd h List.not_mem_nil

theorem mem_anyName {s : Text} {p : Ident × Text} (h : p ∈ anyName s) :
    s = p.1.text ++ p.2 ∧ IsName p.1 := by
  rcases List.mem_append.1 h with h | h
  · obtain ⟨hs, v, hv, hraw⟩ := mem_quotedIdent h
    refine ⟨hs, ?_⟩
    rw [hraw]
    exact ⟨v, hv, rfl⟩
  · rcases List.mem_append.1 h with h | h
    · obtain ⟨q, hq, h⟩ := List.mem_flatMap.1 h
      obtain ⟨q', hq', h⟩ := List.mem_flatMap.1 h
      obtain ⟨q'', hq'', h⟩ := List.mem_flatMap.1 h
      obtain rfl := List.mem_singleton.1 h
      refine ⟨?_, Gives.many1 _ _ q' hq'⟩
      rw [mem_literal_char hq, (Free.many1 _ _ q' hq').1, mem_literal_char hq'']
      simp [Ident.text]
    · exact mem_plainIdent h

theorem first_quotedBody_escape {v r : Text} (hv : v ≠ []) (hr : Pg.Unquoted r) :
    First quotedBody (Pg.escape v ++ '"' :: r) (Pg.escape v) ('"' :: r) := by
  induction v with
  | nil => exact absurd rfl hv
  | cons c v ih =>
    have hrest : (quotedBody (Pg.escape v ++ '"' :: r) ++
        [(([] : Text), Pg.escape v ++ '"' :: r)]).head? = some (Pg.escape v, '"' :: r) := by
      rw [List.head?_append]
      by_cases hnil : v = []
      · rw [hnil, Pg.escape, List.nil_append, quotedBody_quote hr]
        rfl
      · have hread : (quotedBody (Pg.escape v ++ '"' :: r)).head? = _ := ih hnil
        rw [hread]
        rfl
    unfold First
    rw [Pg.escape]
    split_ifs with hc
    · rw [List.cons_append, List.cons_append, quotedBody, List.head?_map, hrest]
      rfl
    · rw [List.cons_append, quotedBody_cons hc, List.head?_map, hrest]
      rfl

theorem first_quotedIdent_escape {v r : Text} (hv : v ≠ []) (hr : Pg.Unquoted r) :
    First quotedIdent (quoteIdentifier v ++ r) (.quoted (Pg.escape v)) r := by
  rw [quoteIdentifier, List.cons_append, List.cons_append, List.append_assoc]
  exact (First.literal id ['"'] _).bind <| (first_quotedBody_escape hv hr).bind <|
    (First.literal id ['"'] r).bind (.pure _ r)

theorem escape_inj {v w r r' : Text} (hr : Pg.Unquoted r) (hr' : Pg.Unquoted r')
    (h : Pg.escape v ++ '"' :: r = Pg.escape w ++ '"' :: r') : v = w ∧ r = r' := by
  induction v generalizing w with
  | nil =>
    cases w with
    | nil => exact ⟨rfl, (List.cons.inj h).2⟩
    | cons d w =>
      rw [Pg.escape, Pg.escape] at h
      split_ifs at h with hd
      · refine absurd ?_ hr
        rw [(List.cons.inj h).2]
        rfl
      · exact absurd (List.cons.inj h).1.symm hd
  | cons c v ih =>
    cases w with
    | nil =>
      rw [Pg.escape, Pg.escape] at h
      split_ifs at h with hc
      · refine absurd ?_ hr'
        rw [← (List.cons.inj h).2]
        rfl
      · exact absurd (List.cons.inj h).1 hc
    | cons d w =>
      rw [Pg.escape, Pg.escape] at h
      split_ifs at h with hc hd hd
      · obtain ⟨rfl, hrest⟩ := ih (List.cons.inj (List.cons.inj h).2).2
        exact ⟨by rw [hc, hd], hrest⟩
      · exact absurd (List.cons.inj h).1.symm hd
      · exact absurd (List.cons.inj h).1 hc
      · obtain ⟨hcd, h⟩ := List.cons.inj h
        obtain ⟨rfl, hrest⟩ := ih h
        exact ⟨by rw [hcd], hrest⟩

theorem not_ident_of_spaced {r : Text} (h : Spaced r) :
    ∀ c ∈ r.head?, (Text.isIdentChar c || c == '$') = false := by
  obtain ⟨d, hd, hspace⟩ := h
  intro c hc
  obtain rfl : d = c := Option.some.inj (hd.symm.trans hc)
  by_contra hident
  rw [Bool.not_eq_false] at hident
  rw [Bool.or_eq_true, beq_iff_eq] at hident
  rcases hident with hident | rfl
  · have hdigit : d.isAlpha = true ∨ d = '_' ∨ d.isDigit = true := by
      unfold Text.isIdentChar Text.isIdentStart at hident
      rw [Bool.or_eq_true, Bool.or_eq_true, beq_iff_eq] at hident
      tauto
    unfold isSpace at hspace
    simp only [Bool.or_eq_true, Bool.and_eq_true, decide_eq_true_iff] at hspace
    rcases hdigit with h | rfl | h
    · rcases Text.isAlpha_iff.1 h with h | h <;> omega
    · revert hspace
      decide
    · have hrange := Text.toNat_of_isDigit h
      omega
  · revert hspace
    decide

theorem mem_anyName_of {i : Ident} (h : IsName i) {r : Text} (hr : Spaced r) :
    (i, r) ∈ anyName (i.text ++ r) := by
  have hopen : ∀ c, ([c] : Text) ∈ [[c]] ∧ ∀ t, ([c], t) ∈ literal id [c] (c :: t) := fun c =>
    ⟨List.mem_singleton_self _, (Free.literal id [c] [c] ([c], []) (by simp [literal])).2⟩
  cases i with
  | quoted raw =>
    obtain ⟨v, hv, rfl⟩ := h
    exact List.mem_append_left _ (List.mem_of_head?
      (first_quotedIdent_escape hv (by simpa using hr.unquoted [])))
  | backtick raw =>
    refine List.mem_append_right _ (List.mem_append_left _ ?_)
    obtain ⟨hne, hraw⟩ := h
    have hmany : (raw, '`' :: r) ∈ many1 (fun c => decide (c ≠ '`')) (raw ++ '`' :: r) :=
      List.mem_of_head? (First.many1 hne hraw (by rintro c ⟨⟩; decide))
    refine List.mem_flatMap.2 ⟨(['`'], raw ++ '`' :: r), ?_, List.mem_flatMap.2
      ⟨(raw, '`' :: r), hmany, List.mem_flatMap.2 ⟨(['`'], r), (hopen '`').2 r,
        List.mem_singleton_self _⟩⟩⟩
    rw [Ident.text, List.cons_append, List.cons_append, List.append_assoc]
    exact (hopen '`').2 _
  | plain raw =>
    refine List.mem_append_right _ (List.mem_append_right _ ?_)
    obtain ⟨⟨c, hc, hstart⟩, hraw⟩ := h
    have hne : raw ≠ [] := by
      rintro rfl
      cases hc
    have hmany : (raw, r) ∈ many1 (fun c => Text.isIdentChar c || c == '$') (raw ++ r) :=
      List.mem_of_head? (First.many1 hne hraw (not_ident_of_spaced hr))
    refine List.mem_flatMap.2 ⟨(raw, r), hmany, ?_⟩
    have hany : raw.head?.any (fun c => Text.isIdentStart c) = true := by
      rw [Option.mem_def.1 hc]
      exact hstart
    dsimp only
    rw [if_pos hany]
    exact List.mem_singleton_self _

/-- How a name begins. -/
theorem IsName.head {i : Ident} (h : IsName i) :
    ∃ c ∈ i.text.head?, match i with
      | .quoted _ => c = '"'
      | .backtick _ => c = '`'
      | .plain _ => Text.isIdentStart c = true := by
  cases i with
  | quoted raw => exact ⟨'"', rfl, rfl⟩
  | backtick raw => exact ⟨'`', rfl, rfl⟩
  | plain raw =>
    obtain ⟨c, hc, hstart⟩ := h.1
    exact ⟨c, hc, hstart⟩

theorem name_unique {i j : Ident} (hi : IsName i) (hj : IsName j) {r r' : Text} (hr : Spaced r)
    (hr' : Spaced r') (h : i.text ++ r = j.text ++ r') : i = j ∧ r = r' := by
  obtain ⟨c, hc, hci⟩ := hi.head
  obtain ⟨d, hd, hdj⟩ := hj.head
  have hcd : c = d := by
    have hhead := congrArg List.head? h
    rw [List.head?_append, List.head?_append, Option.mem_def.1 hc, Option.mem_def.1 hd] at hhead
    exact Option.some.inj hhead
  have hquote : Text.isIdentStart '"' = false := by decide
  have htick : Text.isIdentStart '`' = false := by decide
  cases i with
  | quoted raw =>
    cases j with
    | quoted raw' =>
      obtain ⟨v, -, rfl⟩ := hi
      obtain ⟨w, -, rfl⟩ := hj
      simp only [Ident.text, List.cons_append, List.append_assoc, List.nil_append] at h
      obtain ⟨rfl, hrest⟩ := escape_inj (by simpa using hr.unquoted [])
        (by simpa using hr'.unquoted []) (List.cons.inj h).2
      exact ⟨rfl, hrest⟩
    | backtick raw' =>
      rw [hci, hdj] at hcd
      exact absurd hcd (by decide)
    | plain raw' =>
      rw [← hcd, hci, hquote] at hdj
      cases hdj
  | backtick raw =>
    cases j with
    | quoted raw' =>
      rw [hci, hdj] at hcd
      exact absurd hcd (by decide)
    | backtick raw' =>
      simp only [Ident.text, List.cons_append, List.append_assoc, List.nil_append] at h
      obtain ⟨rfl, hrest⟩ := span_unique hi.2 hj.2 (by rintro c ⟨⟩; decide)
        (by rintro c ⟨⟩; decide) (List.cons.inj h).2
      exact ⟨rfl, (List.cons.inj hrest).2⟩
    | plain raw' =>
      rw [← hcd, hci, htick] at hdj
      cases hdj
  | plain raw =>
    cases j with
    | quoted raw' =>
      rw [hcd, hdj, hquote] at hci
      cases hci
    | backtick raw' =>
      rw [hcd, hdj, htick] at hci
      cases hci
    | plain raw' =>
      obtain ⟨rfl, hrest⟩ := span_unique hi.2 hj.2 (not_ident_of_spaced hr)
        (not_ident_of_spaced hr') h
      exact ⟨rfl, hrest⟩

theorem undouble_escape (v : Text) : Ident.undouble (Pg.escape v) = v := by
  induction v with
  | nil => rfl
  | cons c v ih =>
    rw [Pg.escape]
    split_ifs with hc
    · rw [Ident.undouble, ih, hc]
    · have hcons : ∀ s : Text, Ident.undouble (c :: s) = c :: Ident.undouble s := by
        intro s
        rw [Ident.undouble]
        exact fun t h => absurd h hc
      rw [hcons, ih]

theorem value_quoted (v : Text) : (Ident.quoted (Pg.escape v)).value = v := undouble_escape v

theorem text_quoted (v : Text) : (Ident.quoted (Pg.escape v)).text = quoteIdentifier v := rfl

/-! ## Words -/

/-- Words in one case or another, each with blanks after it. -/
def Spelled : List Text → Text → Prop
  | [], a => a = []
  | w :: ws, a => ∃ v b r, a = v ++ (b ++ r) ∧ (v.map Char.toLower = w ∧ v ≠ [] ∧
      ∀ c ∈ v, c.isAlpha = true) ∧ (b ≠ [] ∧ ∀ c ∈ b, isSpace c = true) ∧ Spelled ws r

theorem isSpace_of_isAlpha {c : Char} (h : c.isAlpha = true) : isSpace c = false := by
  by_contra hc
  rw [Bool.not_eq_false] at hc
  unfold isSpace at hc
  simp only [Bool.or_eq_true, Bool.and_eq_true, decide_eq_true_iff] at hc
  rcases Text.isAlpha_iff.1 h with h | h <;> omega

theorem Spelled.blunt {ws : List Text} {a x : Text} (h : Spelled ws a) (hx : Blunt x) :
    Blunt (a ++ x) := by
  cases ws with
  | nil =>
    rw [show a = [] from h]
    exact hx
  | cons w ws =>
    obtain ⟨v, b, r, rfl, ⟨-, hne, hv⟩, -, -⟩ := h
    cases v with
    | nil => exact absurd rfl hne
    | cons c v =>
      rintro d hd
      rw [← Option.some.inj hd]
      exact isSpace_of_isAlpha (hv c List.mem_cons_self)

theorem Spelled.append {ws us : List Text} {a b : Text} (ha : Spelled ws a) (hb : Spelled us b) :
    Spelled (ws ++ us) (a ++ b) := by
  induction ws generalizing a with
  | nil =>
    rw [show a = [] from ha]
    exact hb
  | cons w ws ih =>
    obtain ⟨v, s, r, rfl, hv, hs, hr⟩ := ha
    exact ⟨v, s, r ++ b, by simp only [List.append_assoc], hv, hs, ih hr⟩

/-- Blanks stand at the end. -/
theorem Spelled.last {ws : List Text} {a : Text} (h : Spelled ws a) (hne : ws ≠ []) :
    ∃ u c, a = u ++ [c] ∧ isSpace c = true := by
  induction ws generalizing a with
  | nil => exact absurd rfl hne
  | cons w ws ih =>
    obtain ⟨v, b, r, rfl, -, ⟨hb, hspace⟩, hr⟩ := h
    by_cases hws : ws = []
    · rw [hws] at hr
      obtain ⟨b', c, rfl⟩ : ∃ b' c, b = b' ++ [c] :=
        ⟨b.dropLast, b.getLast hb, (List.dropLast_append_getLast hb).symm⟩
      refine ⟨v ++ b', c, ?_, hspace c (by simp)⟩
      rw [show r = [] from hr]
      simp
    · obtain ⟨u, c, rfl, hc⟩ := ih hr hws
      exact ⟨v ++ (b ++ u), c, by simp, hc⟩

/-- Of two texts that begin with words, one begins with the words of the other. -/
theorem Spelled.split {ws ws' : List Text} {a a' x y : Text} (h : Spelled ws a)
    (h' : Spelled ws' a') (hx : Blunt x) (hy : Blunt y) (heq : a ++ x = a' ++ y) :
    (∃ us d, ws' = ws ++ us ∧ Spelled us d ∧ x = d ++ y ∧ a' = a ++ d) ∨
    (∃ us d, ws = ws' ++ us ∧ Spelled us d ∧ y = d ++ x ∧ a = a' ++ d) := by
  induction ws generalizing ws' a a' with
  | nil =>
    rw [show a = [] from h] at heq ⊢
    exact .inl ⟨ws', a', rfl, h', heq, rfl⟩
  | cons w ws ih =>
    cases ws' with
    | nil =>
      rw [show a' = [] from h'] at heq ⊢
      exact .inr ⟨w :: ws, a, rfl, h, heq.symm, rfl⟩
    | cons w' ws' =>
      obtain ⟨v, b, r, rfl, ⟨rfl, hne, hv⟩, ⟨hb, hspace⟩, hr⟩ := h
      obtain ⟨v', b', r', rfl, ⟨rfl, hne', hv'⟩, ⟨hb', hspace'⟩, hr'⟩ := h'
      have hblank : ∀ {s t : Text}, s ≠ [] → (∀ c ∈ s, isSpace c = true) →
          ∀ c ∈ (s ++ t).head?, (!isSpace c) = false := by
        intro s t hs hall c hc
        cases s with
        | nil => exact absurd rfl hs
        | cons d s =>
          rw [← Option.some.inj hc, hall d List.mem_cons_self]
          rfl
      have hletters : ∀ {s : Text}, (∀ c ∈ s, c.isAlpha = true) → ∀ c ∈ s, (!isSpace c) = true :=
        fun hs c hc => by rw [isSpace_of_isAlpha (hs c hc)]; rfl
      simp only [List.append_assoc] at heq
      obtain ⟨rfl, hblanks⟩ := span_unique (hletters hv) (hletters hv') (hblank hb hspace)
        (hblank hb' hspace') heq
      obtain ⟨rfl, hrest⟩ := span_unique hspace hspace' (hr.blunt hx) (hr'.blunt hy) hblanks
      rcases ih hr hr' hrest with ⟨us, d, rfl, hd, hxy, rfl⟩ | ⟨us, d, rfl, hd, hxy, rfl⟩
      · exact .inl ⟨us, d, rfl, hd, hxy, by simp only [List.append_assoc]⟩
      · exact .inr ⟨us, d, rfl, hd, hxy, by simp only [List.append_assoc]⟩

/-! ## What stands before the name -/

/-- One of several lists of words. -/
def SpelledIn (L : List (List Text)) (a : Text) : Prop := ∃ ws ∈ L, Spelled ws a

theorem gives_nil : Gives (seq []) (SpelledIn [[]]) :=
  .pure ⟨[], List.mem_singleton_self _, rfl⟩

theorem gives_word {w : Text} (hw : ∀ c ∈ w, c.isAlpha = true) (hne : w ≠ [])
    {ms : List (Matcher Char Text)} {L : List (List Text)} (h : Gives (seq ms) (SpelledIn L)) :
    Gives (seq (keyword w :: spaces :: ms))
      (SpelledIn (L.map fun ws => w.map Char.toLower :: ws)) := by
  refine (Gives.literal Char.toLower w).seq_cons ((Gives.many1 isSpace).seq_cons h
    (R := fun a => ∃ b r, a = b ++ r ∧ (b ≠ [] ∧ ∀ c ∈ b, isSpace c = true) ∧ SpelledIn L r)
    fun b r hb hr => ⟨b, r, rfl, hb, hr⟩) ?_
  rintro v a hv ⟨b, r, rfl, hb, ws, hws, hr⟩
  refine ⟨_, List.mem_map_of_mem hws, v, b, r, rfl, ⟨hv, ?_, fun c hc => ?_⟩, hb, hr⟩
  · rintro rfl
    exact hne (List.map_eq_nil_iff.1 hv.symm)
  · have hmem : c.toLower ∈ w.map Char.toLower := hv ▸ List.mem_map_of_mem hc
    obtain ⟨d, hd, heq⟩ := List.mem_map.1 hmem
    exact isAlpha_of_toLower heq.symm (hw d hd)

theorem gives_opt {m : Matcher Char Text} {ms : List (Matcher Char Text)} {K L : List (List Text)}
    (hm : Gives m (SpelledIn K)) (h : Gives (seq ms) (SpelledIn L)) :
    Gives (seq (opt m :: ms)) (SpelledIn (([] :: K).flatMap fun k => L.map (k ++ ·))) := by
  have hopt : Gives (opt m) (SpelledIn ([] :: K)) :=
    .opt (hm.mono fun _ ⟨ws, hws, ha⟩ => ⟨ws, List.mem_cons_of_mem _ hws, ha⟩)
      ⟨[], List.mem_cons_self, rfl⟩
  refine hopt.seq_cons h ?_
  rintro a b ⟨k, hk, ha⟩ ⟨ws, hws, hb⟩
  exact ⟨k ++ ws, List.mem_flatMap.2 ⟨k, hk, List.mem_map_of_mem hws⟩, ha.append hb⟩

/-- The words that may stand before the name of an index. -/
def headWords : List (List Text) :=
  ([[], ["unique"]] : List (List Text)).flatMap fun u =>
    ([[], ["concurrently"]] : List (List Text)).flatMap fun c =>
      ([[], ["if", "not", "exists"]] : List (List Text)).map fun (i : List Text) =>
        ("create" : Text) :: (u ++ ("index" : Text) :: (c ++ i))

theorem gives_nameHead : Gives nameHead fun a => ∃ b body, a = b ++ body ∧
    (∀ c ∈ b, isSpace c = true) ∧ SpelledIn headWords body := by
  have hwords := gives_word (w := "CREATE") (by decide) (by decide) <|
    gives_opt (gives_word (w := "UNIQUE") (by decide) (by decide) gives_nil) <|
    gives_word (w := "INDEX") (by decide) (by decide) <|
    gives_opt (gives_word (w := "CONCURRENTLY") (by decide) (by decide) gives_nil) <|
    gives_opt (gives_word (w := "IF") (by decide) (by decide) <|
      gives_word (w := "NOT") (by decide) (by decide) <|
      gives_word (w := "EXISTS") (by decide) (by decide) gives_nil) gives_nil
  refine (Gives.many isSpace).seq_cons hwords ?_
  rintro b body hb ⟨ws, hws, hbody⟩
  refine ⟨b, body, rfl, hb, ws, ?_, hbody⟩
  clear hbody
  revert ws
  decide +kernel

theorem free_nameHead : Free nameHead := by
  have hword : ∀ w : Text, Free (keyword w) := fun w => .literal _ w
  have hspaces : Free spaces := .many1 _
  have hmany : Free (many isSpace) := .many _
  refine .seq ?_
  simp only [List.forall_mem_cons, List.not_mem_nil, IsEmpty.forall_iff, implies_true, and_true]
  refine ⟨hmany, hword _, hspaces, .opt (.seq ?_), hword _, hspaces, .opt (.seq ?_),
    .opt (.seq ?_)⟩
  all_goals
    simp only [List.forall_mem_cons, List.not_mem_nil, IsEmpty.forall_iff, implies_true, and_true]
  · exact ⟨hword _, hspaces⟩
  · exact ⟨hword _, hspaces⟩
  · exact ⟨hword _, hspaces, hword _, hspaces, hword _, hspaces⟩

/-- A text that may stand before the name of an index. -/
def IsHead (h : Text) : Prop := (h, []) ∈ nameHead h

theorem isHead_of_mem {s : Text} {p : Text × Text} (h : p ∈ nameHead s) :
    s = p.1 ++ p.2 ∧ IsHead p.1 := by
  obtain ⟨hs, hread⟩ := free_nameHead s p h
  have hnil := hread []
  rw [List.append_nil] at hnil
  exact ⟨hs, hnil⟩

theorem IsHead.mem {h : Text} (hh : IsHead h) (r : Text) : (h, r) ∈ nameHead (h ++ r) :=
  (free_nameHead h _ hh).2 r

theorem IsHead.words {h : Text} (hh : IsHead h) : ∃ b body, h = b ++ body ∧
    (∀ c ∈ b, isSpace c = true) ∧ SpelledIn headWords body :=
  gives_nameHead h _ hh

theorem headWords_ne_nil : ∀ ws ∈ headWords, ws ≠ [] := by decide +kernel

/-- A blank stands before the name. -/
theorem IsHead.last {h : Text} (hh : IsHead h) : ∃ u c, h = u ++ [c] ∧ isSpace c = true := by
  obtain ⟨b, body, rfl, -, ws, hws, hbody⟩ := hh.words
  obtain ⟨u, c, rfl, hc⟩ := hbody.last (headWords_ne_nil ws hws)
  exact ⟨b ++ u, c, by simp, hc⟩

/-- What can be read on. -/
def Onward (us : List Text) : Prop :=
  us.head? = some "concurrently" ∨ us.take 2 = ["if", "not"]

theorem headWords_onward {ws us : List Text} (hws : ws ∈ headWords) (hus : ws ++ us ∈ headWords) :
    us = [] ∨ Onward us := by
  have hall : ∀ ws ∈ headWords, ∀ ws' ∈ headWords, ws <+: ws' →
      ws'.drop ws.length = [] ∨ (ws'.drop ws.length).head? = some ("concurrently" : Text) ∨
        (ws'.drop ws.length).take 2 = (["if", "not"] : List Text) := by decide +kernel
  have h := hall ws hws _ hus (List.prefix_append ws us)
  rwa [List.drop_left] at h

/-- One text before a name is another, with words after it. -/
def Longer (h h' x y : Text) : Prop :=
  ∃ us d, Onward us ∧ Spelled us d ∧ h' = h ++ d ∧ x = d ++ y

theorem head_unique {h h' x y : Text} (hh : IsHead h) (hh' : IsHead h') (hx : Blunt x)
    (hy : Blunt y) (heq : h ++ x = h' ++ y) :
    (h = h' ∧ x = y) ∨ Longer h h' x y ∨ Longer h' h y x := by
  obtain ⟨b, body, rfl, hb, ws, hws, hbody⟩ := hh.words
  obtain ⟨b', body', rfl, hb', ws', hws', hbody'⟩ := hh'.words
  simp only [List.append_assoc] at heq
  obtain ⟨rfl, hrest⟩ := span_unique hb hb' (hbody.blunt hx) (hbody'.blunt hy) heq
  rcases hbody.split hbody' hx hy hrest with ⟨us, d, rfl, hd, rfl, rfl⟩ | ⟨us, d, rfl, hd, rfl, rfl⟩
  · rcases headWords_onward hws hws' with rfl | honward
    · rw [show d = [] from hd]
      exact .inl ⟨by simp, rfl⟩
    · exact .inr (.inl ⟨us, d, honward, hd, by simp, rfl⟩)
  · rcases headWords_onward hws' hws with rfl | honward
    · rw [show d = [] from hd]
      exact .inl ⟨by simp, rfl⟩
    · exact .inr (.inr ⟨us, d, honward, hd, by simp, rfl⟩)

section

variable (isAlnum : Char → Bool)

/-! ## The first match -/

/-- `ON` comes next. -/
def OnAhead (s : Text) : Prop := ((), s) ∈ onFollows isAlnum s

variable {isAlnum} in
theorem onAhead_of_mem {s : Text} {p : Unit × Text} (h : p ∈ onFollows isAlnum s) :
    p = ((), s) ∧ OnAhead isAlnum s := by
  have hp : p = ((), s) := by
    unfold onFollows lookahead at h
    split_ifs at h
    · exact List.mem_singleton.1 h
    · exact absurd h List.not_mem_nil
  refine ⟨hp, ?_⟩
  rw [hp] at h
  exact h

variable {isAlnum} in
theorem OnAhead.shape {s : Text} (h : OnAhead isAlnum s) : ∃ b c t, s = b ++ c :: t ∧
    (b ≠ [] ∧ ∀ d ∈ b, isSpace d = true) ∧ c.toLower = 'o' := by
  unfold OnAhead onFollows lookahead at h
  split_ifs at h with hon
  · rw [Bool.not_eq_true', List.isEmpty_eq_false_iff_exists_mem] at hon
    obtain ⟨q, hq⟩ := hon
    obtain ⟨p, hp, -⟩ := List.mem_flatMap.1 hq
    have hfree : Free (seq [spaces, keyword "ON"]) :=
      (Free.many1 _).seq_cons ((Free.literal _ _).seq_cons .nil)
    obtain ⟨hs, -⟩ := hfree s p hp
    have hgives : Gives (seq [spaces, keyword "ON"]) fun a => ∃ b v, a = b ++ v ∧
        (b ≠ [] ∧ ∀ d ∈ b, isSpace d = true) ∧ v.map Char.toLower = ['o', 'n'] :=
      (Gives.many1 isSpace).seq_cons ((Gives.literal Char.toLower "ON").seq_singleton)
        fun b v hb hv => ⟨b, v, rfl, hb, hv⟩
    obtain ⟨b, v, heq, hb, hv⟩ := hgives s p hp
    cases v with
    | nil => cases hv
    | cons c v =>
      refine ⟨b, c, v ++ p.2, ?_, hb, (List.cons.inj hv).1⟩
      rw [hs, heq]
      simp
  · exact absurd h List.not_mem_nil

variable {isAlnum} in
theorem OnAhead.spaced {s : Text} (h : OnAhead isAlnum s) : Spaced s := by
  obtain ⟨b, c, t, rfl, ⟨hne, hb⟩, -⟩ := h.shape
  cases b with
  | nil => exact absurd rfl hne
  | cons d b => exact ⟨d, rfl, hb d List.mem_cons_self⟩

/-- A text with a name before `ON`. -/
structure Named (s h : Text) (i : Ident) (r : Text) : Prop where
  text : s = h ++ (i.text ++ r)
  head : IsHead h
  name : IsName i
  on : OnAhead isAlnum r

theorem mem_indexName_iff {s h r : Text} {i : Ident} :
    ((h, i), r) ∈ indexName isAlnum s ↔ Named isAlnum s h i r := by
  constructor
  · intro hmem
    obtain ⟨p, hp, hq⟩ := List.mem_flatMap.1 hmem
    obtain ⟨p', hp', hq⟩ := List.mem_flatMap.1 hq
    obtain ⟨p'', hp'', hq⟩ := List.mem_flatMap.1 hq
    obtain ⟨rfl, hon⟩ := onAhead_of_mem hp''
    obtain ⟨⟨rfl, rfl⟩, rfl⟩ : (h = p.1 ∧ i = p'.1) ∧ r = p'.2 := by
      simpa using List.mem_singleton.1 hq
    obtain ⟨hs, hhead⟩ := isHead_of_mem hp
    obtain ⟨hs', hname⟩ := mem_anyName hp'
    exact ⟨by rw [hs, hs'], hhead, hname, hon⟩
  · rintro ⟨rfl, hhead, hname, hon⟩
    exact List.mem_flatMap.2 ⟨(h, i.text ++ r), hhead.mem _, List.mem_flatMap.2
      ⟨(i, r), mem_anyName_of hname hon.spaced, List.mem_flatMap.2
        ⟨((), r), hon, List.mem_singleton_self _⟩⟩⟩

theorem IsName.blunt {i : Ident} (h : IsName i) (r : Text) : Blunt (i.text ++ r) := by
  obtain ⟨c, hc, hi⟩ := h.head
  intro d hd
  rw [List.head?_append, Option.mem_def.1 hc] at hd
  obtain rfl : c = d := Option.some.inj hd
  cases i with
  | quoted raw =>
    rw [hi]
    decide
  | backtick raw =>
    rw [hi]
    decide
  | plain raw =>
    by_contra hspace
    rw [Bool.not_eq_false] at hspace
    have hident := not_ident_of_spaced (r := [c]) ⟨c, rfl, hspace⟩ c rfl
    rw [Text.isIdentChar, show Text.isIdentStart c = true from hi] at hident
    cases hident

variable {isAlnum} in
/-- Only `CONCURRENTLY` can be both a name and a word before one. -/
theorem Longer.name {h h' r y : Text} {i : Ident} (hl : Longer h h' (i.text ++ r) y)
    (hi : IsName i) (hon : OnAhead isAlnum r) :
    ∃ raw b t, i = .plain raw ∧ raw.map Char.toLower = "concurrently" ∧
      h' = h ++ (raw ++ (b ++ t)) ∧ b ≠ [] ∧ ∀ c ∈ b, isSpace c = true := by
  obtain ⟨us, d, honward, hd, rfl, hx⟩ := hl
  cases us with
  | nil => rcases honward with h | h <;> cases h
  | cons w us =>
    obtain ⟨v, b, t, rfl, ⟨rfl, hne, hv⟩, ⟨hb, hspace⟩, ht⟩ := hd
    obtain ⟨c, hc, hci⟩ := hi.head
    have hhead : (v ++ (b ++ t)).head? = v.head? := by
      cases v with
      | nil => exact absurd rfl hne
      | cons => rfl
    have hcv : c ∈ v.head? := by
      have heq := congrArg List.head? hx
      rw [List.head?_append, Option.mem_def.1 hc, List.head?_append, hhead] at heq
      cases v with
      | nil => exact absurd rfl hne
      | cons => exact heq.symm
    have halpha : c.isAlpha = true := hv c (List.mem_of_mem_head? hcv)
    obtain ⟨raw, rfl⟩ : ∃ raw, i = .plain raw := by
      cases i with
      | quoted raw =>
        rw [hci] at halpha
        exact absurd halpha (by decide)
      | backtick raw =>
        rw [hci] at halpha
        exact absurd halpha (by decide)
      | plain raw => exact ⟨raw, rfl⟩
    have hletters : ∀ c ∈ v, (Text.isIdentChar c || c == '$') = true := fun c hc => by
      rw [Text.isIdentChar, Text.isIdentStart, hv c hc]
      rfl
    have hblank : Spaced (b ++ (t ++ y)) := by
      cases b with
      | nil => exact absurd rfl hb
      | cons e b => exact ⟨e, rfl, hspace e List.mem_cons_self⟩
    simp only [List.append_assoc] at hx
    obtain ⟨rfl, hr⟩ := span_unique hi.2 hletters (not_ident_of_spaced hon.spaced)
      (not_ident_of_spaced hblank) hx
    refine ⟨raw, b, t, rfl, ?_, rfl, hb, hspace⟩
    rcases honward with hword | hword
    · exact Option.some.inj hword
    · exfalso
      cases us with
      | nil => exact List.cons_ne_nil _ _ (List.cons.inj hword).2.symm
      | cons w us =>
        obtain ⟨v, b', t, rfl, ⟨rfl, hne', hv'⟩, -⟩ := ht
        obtain ⟨b'', e, s, hr', ⟨-, hspace''⟩, he⟩ := hon.shape
        have hnot : v.map Char.toLower = "not" := by
          have hcons := (List.cons.inj hword).2
          exact (List.cons.inj hcons).1
        have hlower : ∀ c : Char, c.toLower = 'o' → isSpace c = false := fun c hc =>
          isSpace_of_isAlpha (isAlpha_of_toLower (d := 'o') (hc.trans (by decide)) (by decide))
        cases v with
        | nil => exact absurd rfl hne'
        | cons f v =>
          rw [hr'] at hr
          obtain ⟨-, hcons⟩ := span_unique hspace'' hspace
            (by rintro c ⟨⟩; exact hlower e he)
            (by rintro c ⟨⟩; exact isSpace_of_isAlpha (hv' f List.mem_cons_self)) hr
          obtain rfl : e = f := (List.cons.inj hcons).1
          have hf : e.toLower = 'n' := (List.cons.inj hnot).1
          rw [he] at hf
          exact absurd hf (by decide)

end

section

variable (isAlnum : Char → Bool)

/-! ## `CONCURRENTLY` -/

/-- Blanks are no letters or digits. -/
def Blanks : Prop := ∀ c, isSpace c = true → isAlnum c = false

variable {isAlnum} (hblanks : Blanks isAlnum)

include hblanks

theorem isWord_of_isSpace {c : Char} (h : isSpace c = true) : isWord isAlnum c = false := by
  have hident := not_ident_of_spaced (r := [c]) ⟨c, rfl, h⟩ c rfl
  rw [Bool.or_eq_false_iff] at hident
  rw [isWord, hident.1, hblanks c h, Bool.and_false]
  rfl

/-- A word that begins after a blank is found. -/
theorem hasConcurrently_of_word {c : Char} (hc : isSpace c = true) {v w : Text}
    (hv : v.map Char.toLower = "concurrently") (hw : ∀ d ∈ w.head?, isWord isAlnum d = false)
    (before : Bool) (u : Text) :
    hasConcurrently isAlnum before (u ++ c :: (v ++ w)) = true := by
  induction u generalizing before with
  | nil =>
    have hword : First ((keyword "CONCURRENTLY").bind fun _ => wordEnd isAlnum) (v ++ w) () w := by
      have hfold : v.map Char.toLower = ("CONCURRENTLY" : Text).map Char.toLower := by
        rw [hv]
        decide
      refine (First.literal_of_map hfold w).bind (First.lookahead ?_)
      cases w with
      | nil => rfl
      | cons d w =>
        rw [List.head?_cons, Option.any_some, hw d rfl]
        rfl
    rw [List.nil_append, hasConcurrently, isWord_of_isSpace hblanks hc, Bool.or_eq_true]
    right
    cases v with
    | nil => cases hv
    | cons d v =>
      rw [List.cons_append] at hword ⊢
      rw [hasConcurrently, hword.isEmpty]
      rfl
  | cons d u ih => rw [List.cons_append, hasConcurrently, ih, Bool.or_true]

omit hblanks in
/-- A keyword does not look past a character that it has not. -/
theorem keyword_isEmpty_append {c : Char} {w : Text} (hw : ∀ d ∈ w, d.toLower ≠ c.toLower)
    (s x : Text) : ((keyword w).bind (fun _ => wordEnd isAlnum) (s ++ c :: x)).isEmpty =
      ((keyword w).bind (fun _ => wordEnd isAlnum) (s ++ [c])).isEmpty := by
  induction w generalizing s with
  | nil =>
    have hempty : ∀ t : Text, (keyword []).bind (fun _ => wordEnd isAlnum) t =
        wordEnd isAlnum t := by
      intro t
      rw [Matcher.bind, keyword, literal]
      exact List.flatMap_singleton _ _
    have hhead : (s ++ c :: x).head? = (s ++ [c]).head? := by cases s <;> rfl
    rw [hempty, hempty, wordEnd, lookahead, lookahead, hhead]
    split_ifs <;> rfl
  | cons d w ih =>
    obtain ⟨hd, hw⟩ := List.forall_mem_cons.1 hw
    cases s with
    | nil =>
      have hnil : ∀ t, keyword (d :: w) (c :: t) = [] := fun t => literal_eq_nil hd
      rw [List.nil_append, List.nil_append, bind_eq_nil (hnil x), bind_eq_nil (hnil [])]
    | cons e s =>
      have hcons : ∀ t : Text, (keyword (d :: w)).bind (fun _ => wordEnd isAlnum) (e :: t) =
          if d.toLower = e.toLower then (keyword w).bind (fun _ => wordEnd isAlnum) t else [] := by
        intro t
        rw [Matcher.bind, keyword, literal]
        split_ifs
        · exact List.flatMap_map _ _ _
        · rfl
      rw [List.cons_append, List.cons_append, hcons, hcons]
      split_ifs
      · exact ih hw s
      · rfl

/-- The search goes on after a blank as it would begin. -/
theorem hasConcurrently_append {c : Char} (hc : isSpace c = true) (before : Bool) (u x : Text) :
    hasConcurrently isAlnum before (u ++ c :: x) =
      (hasConcurrently isAlnum before (u ++ [c]) || hasConcurrently isAlnum false x) := by
  have hne : ∀ d ∈ ("CONCURRENTLY" : Text), d.toLower ≠ c.toLower := by
    intro d hd heq
    have halpha : ∀ d ∈ ("CONCURRENTLY" : Text), d.isAlpha = true := by decide
    rw [isSpace_of_isAlpha (isAlpha_of_toLower heq.symm (halpha d hd))] at hc
    cases hc
  induction u generalizing before with
  | nil =>
    have hnil : ∀ t, (keyword "CONCURRENTLY").bind (fun _ => wordEnd isAlnum) (c :: t) = [] :=
      fun t => bind_eq_nil (literal_eq_nil (hne _ (by decide)))
    rw [List.nil_append, List.nil_append, hasConcurrently, hasConcurrently, hnil, hnil,
      isWord_of_isSpace hblanks hc]
    simp [hasConcurrently]
  | cons d u ih =>
    have hword := @keyword_isEmpty_append isAlnum _ _ hne (d :: u) x
    rw [List.cons_append, List.cons_append] at hword ⊢
    rw [hasConcurrently, hasConcurrently, hword, ih, Bool.or_assoc]

/-! ## The first match -/

/-- The name that was found is the only one. -/
theorem Named.first {s h r x : Text} {i : Ident} (hn : Named isAlnum s h i r)
    (hconc : hasConcurrently isAlnum false (h ++ x) = false)
    (hi : ∀ raw, i = .plain raw → raw.map Char.toLower ≠ "concurrently") :
    First (indexName isAlnum) s (h, i) r := by
  refine .of_unique ((mem_indexName_iff isAlnum).2 hn) fun p hp => ?_
  obtain ⟨⟨h', i'⟩, r'⟩ := p
  have hn' := (mem_indexName_iff isAlnum).1 hp
  have htext := hn.text.symm.trans hn'.text
  rcases head_unique hn.head hn'.head (hn.name.blunt r) (hn'.name.blunt r') htext with
    ⟨rfl, htail⟩ | hl | hl
  · obtain ⟨rfl, rfl⟩ := name_unique hn.name hn'.name hn.on.spaced hn'.on.spaced htail
    rfl
  · obtain ⟨raw, -, -, hraw, hlower, -⟩ := hl.name hn.name hn.on
    exact absurd hlower (hi raw hraw)
  · obtain ⟨raw, b, t, -, hlower, hsplit, hb, hspace⟩ := hl.name hn'.name hn'.on
    obtain ⟨u, c, hu, hc⟩ := hn'.head.last
    have hfound : hasConcurrently isAlnum false (u ++ c :: (raw ++ (b ++ (t ++ x)))) = true := by
      refine hasConcurrently_of_word hblanks hc hlower ?_ false u
      cases b with
      | nil => exact absurd rfl hb
      | cons d b =>
        rintro e ⟨⟩
        exact isWord_of_isSpace hblanks (hspace d List.mem_cons_self)
    rw [hsplit, hu] at hconc
    simp only [List.append_assoc, List.cons_append, List.nil_append] at hconc
    rw [hfound] at hconc
    cases hconc

theorem ne_concurrently {h : Text} {i : Ident} (hh : IsHead h)
    (hconc : hasConcurrently isAlnum false (h ++ i.text) = false) :
    ∀ raw, i = .plain raw → raw.map Char.toLower ≠ "concurrently" := by
  rintro raw rfl hlower
  obtain ⟨u, c, rfl, hc⟩ := hh.last
  have hfound := hasConcurrently_of_word (w := []) hblanks hc hlower (by rintro d ⟨⟩) false u
  rw [List.append_nil] at hfound
  rw [Ident.text, List.append_assoc, List.singleton_append, hfound] at hconc
  cases hconc

end

section

variable (isAlnum : Char → Bool)

/-! ## The target -/

/-- What stands before a target. -/
def IsLead (a : Text) : Prop := ∃ b v b' e, a = b ++ (v ++ (b' ++ e)) ∧
  (b ≠ [] ∧ ∀ c ∈ b, isSpace c = true) ∧ v.map Char.toLower = ['o', 'n'] ∧
  (b' ≠ [] ∧ ∀ c ∈ b', isSpace c = true) ∧
  (e = [] ∨ ∃ w b'', e = w ++ b'' ∧ w.map Char.toLower = ['o', 'n', 'l', 'y'] ∧
    b'' ≠ [] ∧ ∀ c ∈ b'', isSpace c = true)

theorem gives_lead : Gives (seq [spaces, keyword "ON", spaces, opt (seq [keyword "ONLY", spaces])])
    IsLead := by
  have honly : Gives (seq [opt (seq [keyword "ONLY", spaces])]) fun e => e = [] ∨
      ∃ w b'', e = w ++ b'' ∧ w.map Char.toLower = ['o', 'n', 'l', 'y'] ∧
        b'' ≠ [] ∧ ∀ c ∈ b'', isSpace c = true :=
    (Gives.opt (((Gives.literal Char.toLower "ONLY").seq_cons (Gives.many1 isSpace).seq_singleton
      fun w b'' hw hb => ⟨w, b'', rfl, hw, hb⟩).mono fun _ => .inr) (.inl rfl)).seq_singleton
  exact (Gives.many1 isSpace).seq_cons ((Gives.literal Char.toLower "ON").seq_cons
    ((Gives.many1 isSpace).seq_cons honly
      (R := fun a => ∃ b' e, a = b' ++ e ∧ (b' ≠ [] ∧ ∀ c ∈ b', isSpace c = true) ∧ (e = [] ∨
        ∃ w b'', e = w ++ b'' ∧ w.map Char.toLower = ['o', 'n', 'l', 'y'] ∧
          b'' ≠ [] ∧ ∀ c ∈ b'', isSpace c = true))
      fun b' e hb he => ⟨b', e, rfl, hb, he⟩)
    (R := fun a => ∃ v b' e, a = v ++ (b' ++ e) ∧ v.map Char.toLower = ['o', 'n'] ∧
      (b' ≠ [] ∧ ∀ c ∈ b', isSpace c = true) ∧ (e = [] ∨
        ∃ w b'', e = w ++ b'' ∧ w.map Char.toLower = ['o', 'n', 'l', 'y'] ∧
          b'' ≠ [] ∧ ∀ c ∈ b'', isSpace c = true))
    fun v a hv ⟨b', e, ha, hb, he⟩ => ⟨v, b', e, by rw [ha], hv, hb, he⟩)
    fun b a hb ⟨v, b', e, ha, hv, hb', he⟩ => ⟨b, v, b', e, by rw [ha], hb, hv, hb', he⟩

theorem blunt_of_lower {w t : Text} {c : Char} {u : Text} (h : w.map Char.toLower = c :: u)
    (hc : c.isAlpha = true) (hlow : c.toLower = c) : Blunt (w ++ t) := by
  cases w with
  | nil => cases h
  | cons d w =>
    rintro e ⟨⟩
    exact isSpace_of_isAlpha (isAlpha_of_toLower ((List.cons.inj h).1.trans hlow.symm) hc)

theorem first_blanks {b r : Text} (hb : b ≠ [] ∧ ∀ c ∈ b, isSpace c = true) (hr : Blunt r) :
    First spaces (b ++ r) b r :=
  First.many1 hb.1 hb.2 hr

theorem IsLead.first {a : Text} (h : IsLead a) (r : Text) :
    First (seq [spaces, keyword "ON", spaces, opt (seq [keyword "ONLY", spaces])])
      (a ++ '"' :: r) a ('"' :: r) := by
  obtain ⟨b, v, b', e, rfl, hb, hv, hb', he⟩ := h
  have hquote : Blunt ('"' :: r) := by
    rintro c ⟨⟩
    decide
  have hon : v.map Char.toLower = ("ON" : Text).map Char.toLower := hv
  simp only [List.append_assoc]
  refine (first_blanks hb (blunt_of_lower hv (by decide) (by decide))).seq_cons <|
    (First.literal_of_map hon _).seq_cons ?_
  rcases he with rfl | ⟨w, b'', rfl, hw, hb''⟩
  · have hskip : keyword "ONLY" ('"' :: r) = [] := keyword_eq_nil (v := ['"']) r (by decide)
    exact (first_blanks hb' hquote).seq_cons <|
      (First.opt_skip (seq_eq_nil hskip)).seq_cons (.seq_nil _)
  · have honly : w.map Char.toLower = ("ONLY" : Text).map Char.toLower := hw
    simp only [List.append_assoc]
    have hword : First (keyword "ONLY") (w ++ (b'' ++ '"' :: r)) w (b'' ++ '"' :: r) :=
      First.literal_of_map honly _
    have hread := hword.seq_cons ((first_blanks hb'' hquote).seq_cons (.seq_nil _))
    have h := (first_blanks hb' (blunt_of_lower (t := b'' ++ '"' :: r) hw (by decide)
      (by decide))).seq_cons ((First.opt hread).seq_cons (.seq_nil _))
    simpa only [List.append_nil] using h

variable {isAlnum} in
/-- `ON` is read before any target. -/
theorem IsLead.onAhead (hblanks : Blanks isAlnum) {a : Text} (h : IsLead a) (r : Text) :
    OnAhead isAlnum (a ++ r) := by
  obtain ⟨b, v, b', e, rfl, hb, hv, hb', -⟩ := h
  have hon : v.map Char.toLower = ("ON" : Text).map Char.toLower := hv
  have hend : First (wordEnd isAlnum) (b' ++ (e ++ r)) () (b' ++ (e ++ r)) := by
    refine First.lookahead ?_
    cases b' with
    | nil => exact absurd rfl hb'.1
    | cons c b' =>
      rw [List.cons_append, List.head?_cons, Option.any_some,
        isWord_of_isSpace hblanks (hb'.2 c List.mem_cons_self)]
      rfl
  have hread : First ((seq [spaces, keyword "ON"]).bind fun _ => wordEnd isAlnum)
      (b ++ (v ++ (b' ++ (e ++ r)))) () (b' ++ (e ++ r)) :=
    ((first_blanks hb (blunt_of_lower hv (by decide) (by decide))).seq_cons
      ((First.literal_of_map hon _).seq_cons (.seq_nil _))).bind hend
  have hahead : First (onFollows isAlnum) (b ++ (v ++ (b' ++ (e ++ r)))) ()
      (b ++ (v ++ (b' ++ (e ++ r)))) := First.lookahead (by rw [hread.isEmpty]; rfl)
  simp only [List.append_assoc]
  exact List.mem_of_head? hahead

/-- The keys come next. -/
def KeysAhead (s : Text) : Prop := ((), s) ∈ keysFollow isAlnum s

theorem mem_tableIdent {s : Text} {p : Ident × Text} (h : p ∈ (quotedIdent.orElse plainIdent) s) :
    s = p.1.text ++ p.2 := by
  rcases List.mem_append.1 h with h | h
  · exact (mem_quotedIdent h).1
  · exact (mem_plainIdent h).1

theorem mem_lookahead {q : Text → Bool} {s : Text} {p : Unit × Text}
    (h : p ∈ (lookahead q : Matcher Char Unit) s) : p = ((), s) := by
  unfold lookahead at h
  split_ifs at h
  · exact List.mem_singleton.1 h
  · exact absurd h List.not_mem_nil

theorem mem_indexTarget {s : Text} {p : (Text × Target) × Text} (h : p ∈ indexTarget isAlnum s) :
    s = p.1.1 ++ (p.1.2.text ++ p.2) ∧ IsLead p.1.1 ∧ KeysAhead isAlnum p.2 ∧
      Pg.Unquoted p.2 := by
  have htail := leaves_indexTarget isAlnum s p h
  obtain ⟨q, hq, h⟩ := List.mem_flatMap.1 h
  obtain ⟨q', hq', h⟩ := List.mem_flatMap.1 h
  obtain ⟨q'', hq'', h⟩ := List.mem_flatMap.1 h
  obtain ⟨k, hk, h⟩ := List.mem_flatMap.1 h
  obtain rfl := List.mem_singleton.1 h
  obtain rfl := mem_lookahead hk
  have hword : ∀ w : Text, Free (keyword w) := fun w => .literal _ w
  have hspaces : Free spaces := .many1 _
  have hfree : Free (seq [spaces, keyword "ON", spaces, opt (seq [keyword "ONLY", spaces])]) :=
    hspaces.seq_cons <| (hword _).seq_cons <| hspaces.seq_cons <|
      (Free.opt ((hword _).seq_cons (hspaces.seq_cons .nil))).seq_cons .nil
  refine ⟨?_, gives_lead _ _ hq, hk, htail⟩
  rw [(hfree _ _ hq).1]
  congr 1
  have htable := mem_tableIdent hq''
  rcases List.mem_append.1 hq' with hq' | hq'
  · obtain ⟨i, hi, hq'⟩ := List.mem_flatMap.1 hq'
    obtain ⟨d, hd, hq'⟩ := List.mem_flatMap.1 hq'
    obtain rfl := List.mem_singleton.1 hq'
    have hdot : Free (seq [many isSpace, literal id ['.'], many isSpace]) :=
      (Free.many _).seq_cons <| (Free.literal _ _).seq_cons <| (Free.many _).seq_cons .nil
    rw [mem_tableIdent hi, (hdot _ _ hd).1, htable]
    simp [Target.text]
  · obtain rfl := List.mem_singleton.1 hq'
    exact htable

/-- `"schema"."table"` -/
def qualified (schema table : Text) : Target :=
  ⟨some (.quoted (Pg.escape schema), ['.']), .quoted (Pg.escape table)⟩

theorem qualified_text (schema table : Text) : (qualified schema table).text =
    quoteIdentifier schema ++ '.' :: quoteIdentifier table := by
  simp [qualified, Target.text, text_quoted]

end

variable {isAlnum : Char → Bool}

theorem first_qualified {lead tail schema table : Text} (hl : IsLead lead)
    (hk : KeysAhead isAlnum tail) (hq : Pg.Unquoted tail) (hs : schema ≠ []) (ht : table ≠ []) :
    First (indexTarget isAlnum) (lead ++ ((qualified schema table).text ++ tail))
      (lead, qualified schema table) tail := by
  have hquote : ∀ s : Text, Blunt ('"' :: s) := by
    rintro s c ⟨⟩
    decide
  have htable : First (quotedIdent.orElse plainIdent) (quoteIdentifier table ++ tail)
      (.quoted (Pg.escape table)) tail := First.orElse_left (first_quotedIdent_escape ht hq)
  have hdot : First (seq [many isSpace, literal id ['.'], many isSpace])
      ('.' :: (quoteIdentifier table ++ tail)) ['.'] (quoteIdentifier table ++ tail) :=
    (First.many (u := []) (by decide) (by rintro c ⟨⟩; decide)).seq_cons <|
      (First.literal id ['.'] _).seq_cons <|
      (First.many (u := []) (by decide) (hquote _)).seq_cons (.seq_nil _)
  have hschema : First ((quotedIdent.orElse plainIdent).bind fun schema =>
      (seq [many isSpace, literal id ['.'], many isSpace]).bind fun dot =>
        .pure (some (schema, dot))) (quoteIdentifier schema ++ '.' ::
          (quoteIdentifier table ++ tail))
      (some (.quoted (Pg.escape schema), ['.'])) (quoteIdentifier table ++ tail) :=
    (First.orElse_left (first_quotedIdent_escape hs (by simp [Pg.Unquoted]))).bind <|
      hdot.bind (.pure _ _)
  have hkeys : First (keysFollow isAlnum) tail () tail := by
    unfold KeysAhead keysFollow lookahead at hk
    split_ifs at hk with hc
    · exact First.lookahead hc
    · exact absurd hk List.not_mem_nil
  rw [qualified_text, List.append_assoc, List.cons_append]
  exact (hl.first _).bind <| (First.orElse_left hschema).bind <| htable.bind <|
    hkeys.bind (.pure _ _)

/-! ## The rewrites -/

def Parts.text (p : Parts) : Text :=
  p.head ++ p.name.text ++ p.middle ++ p.target.text ++ p.tail

/-- The statement with another name. -/
def Parts.renamed (p : Parts) (name : Text) : Parts := { p with name := .quoted (Pg.escape name) }

/-- The statement on another table. -/
def Parts.moved (p : Parts) (schema table : Text) : Parts :=
  { p with target := qualified schema table }

/-- The statement is read with these parts. -/
structure Reads (isAlnum : Char → Bool) (s : Text) (p : Parts) (rest : Text) : Prop where
  named : Named isAlnum s p.head p.name rest
  once : hasConcurrently isAlnum false (p.head ++ p.name.text) = false
  target : First (indexTarget isAlnum) rest (p.middle, p.target) p.tail

theorem reads_of_parts {s : Text} {p : Parts} (h : indexStatementParts isAlnum s = some p) :
    ∃ rest, Reads isAlnum s p rest := by
  unfold indexStatementParts at h
  split at h
  · cases h
  · rename_i head name rest hname
    split_ifs at h with hconc
    obtain ⟨q, hq, rfl⟩ := Option.map_eq_some_iff.1 h
    exact ⟨rest, (mem_indexName_iff isAlnum).1 (List.mem_of_head? hname),
      Bool.eq_false_iff.2 hconc, hq⟩

theorem parts_of_first {s h rest lead tail : Text} {i : Ident} {t : Target}
    (hname : First (indexName isAlnum) s (h, i) rest)
    (hconc : hasConcurrently isAlnum false (h ++ i.text) = false)
    (htarget : First (indexTarget isAlnum) rest (lead, t) tail) :
    indexStatementParts isAlnum s = some ⟨h, i, lead, t, tail⟩ := by
  unfold indexStatementParts
  rw [show (indexName isAlnum s).head? = _ from hname]
  dsimp only
  rw [hconc, if_neg Bool.false_ne_true, show (indexTarget isAlnum rest).head? = _ from htarget]
  rfl

namespace Reads

variable {s rest : Text} {p : Parts} (h : Reads isAlnum s p rest)

include h

theorem rest_eq : rest = p.middle ++ (p.target.text ++ p.tail) :=
  (mem_indexTarget isAlnum (List.mem_of_head? h.target)).1

theorem lead : IsLead p.middle := (mem_indexTarget isAlnum (List.mem_of_head? h.target)).2.1

theorem keysAhead : KeysAhead isAlnum p.tail :=
  (mem_indexTarget isAlnum (List.mem_of_head? h.target)).2.2.1

theorem unquoted : Pg.Unquoted p.tail :=
  (mem_indexTarget isAlnum (List.mem_of_head? h.target)).2.2.2

theorem text_eq : s = p.text := by
  rw [h.named.text, h.rest_eq, Parts.text]
  simp only [List.append_assoc]

theorem first_renamed (hblanks : Blanks isAlnum) {name : Text} (hn : name ≠ []) :
    First (indexName isAlnum) (p.renamed name).text (p.head, .quoted (Pg.escape name)) rest := by
  have hnamed : Named isAlnum (p.renamed name).text p.head (.quoted (Pg.escape name)) rest := by
    refine ⟨?_, h.named.head, ⟨name, hn, rfl⟩, h.named.on⟩
    rw [h.rest_eq, Parts.text]
    simp only [Parts.renamed, List.append_assoc]
  exact hnamed.first hblanks h.once nofun

theorem customIndexName_renamed (hblanks : Blanks isAlnum) {name : Text} (hn : name ≠ []) :
    customIndexName isAlnum (p.renamed name).text = some name := by
  rw [customIndexName, show (indexName isAlnum _).head? = _ from h.first_renamed hblanks hn]
  exact congrArg some (value_quoted name)

theorem parts_renamed (hblanks : Blanks isAlnum) {name : Text} (hn : name ≠ [])
    (hc : hasConcurrently isAlnum false (quoteIdentifier name) = false) :
    indexStatementParts isAlnum (p.renamed name).text = some (p.renamed name) := by
  refine parts_of_first (h.first_renamed hblanks hn) ?_ h.target
  obtain ⟨u, c, hu, hspace⟩ := h.named.head.last
  have honce := h.once
  rw [hu, List.append_assoc, List.singleton_append, hasConcurrently_append hblanks hspace,
    Bool.or_eq_false_iff] at honce
  rw [hu, List.append_assoc, List.singleton_append, hasConcurrently_append hblanks hspace,
    honce.1, text_quoted, hc]
  rfl

theorem parts_moved (hblanks : Blanks isAlnum) {schema table : Text} (hs : schema ≠ [])
    (ht : table ≠ []) :
    indexStatementParts isAlnum (p.moved schema table).text = some (p.moved schema table) := by
  have hnamed : Named isAlnum (p.moved schema table).text p.head p.name
      (p.middle ++ ((qualified schema table).text ++ p.tail)) := by
    refine ⟨?_, h.named.head, h.named.name, h.lead.onAhead hblanks _⟩
    rw [Parts.text]
    simp only [Parts.moved, List.append_assoc]
  exact parts_of_first (hnamed.first hblanks h.once
    (ne_concurrently hblanks h.named.head h.once)) h.once
    (first_qualified h.lead h.keysAhead h.unquoted hs ht)

end Reads

theorem rewriteIndexName_of_parts {s name : Text} {p : Parts}
    (h : indexStatementParts isAlnum s = some p) (hname : Unticked p.name) :
    rewriteIndexName isAlnum s name = some (p.renamed name).text := by
  unfold rewriteIndexName
  rw [h]
  cases hp : p.name with
  | quoted raw => simp [hp, Parts.text, Parts.renamed, text_quoted]
  | backtick raw => exact absurd hp (hname raw)
  | plain raw => simp [hp, Parts.text, Parts.renamed, text_quoted]

theorem rewriteIndexName_ticked {s name : Text} {p : Parts}
    (h : indexStatementParts isAlnum s = some p) (hname : ¬Unticked p.name) :
    rewriteIndexName isAlnum s name = none := by
  unfold Unticked at hname
  push Not at hname
  obtain ⟨raw, hraw⟩ := hname
  unfold rewriteIndexName
  rw [h]
  simp [hraw]

theorem rewriteIndexTarget_of_parts {s schema table : Text} {p : Parts}
    (h : indexStatementParts isAlnum s = some p) :
    rewriteIndexTarget isAlnum s (qualified schema table).text =
      some (p.moved schema table).text := by
  unfold rewriteIndexTarget
  rw [h]
  rfl

/-- What becomes of a statement with these parts when it is given another name or table. A name
that has the word `CONCURRENTLY` is read back, but nothing is said of the statement around it. -/
structure Rewrites (isAlnum : Char → Bool) (s : Text) (p : Parts) (name schema table : Text) :
    Prop where
  text : s = p.text
  ticked : ¬Unticked p.name → rewriteIndexName isAlnum s name = none
  renamed : Unticked p.name → rewriteIndexName isAlnum s name = some (p.renamed name).text
  nameRead : customIndexName isAlnum (p.renamed name).text = some name
  renamedParts : hasConcurrently isAlnum false (quoteIdentifier name) = false →
    indexStatementParts isAlnum (p.renamed name).text = some (p.renamed name)
  moved : rewriteIndexTarget isAlnum s (qualified schema table).text =
    some (p.moved schema table).text
  movedParts : indexStatementParts isAlnum (p.moved schema table).text =
    some (p.moved schema table)
  commute : hasConcurrently isAlnum false (quoteIdentifier name) = false →
    ((rewriteIndexName isAlnum s name).bind fun t =>
      rewriteIndexTarget isAlnum t (qualified schema table).text) =
    ((rewriteIndexTarget isAlnum s (qualified schema table).text).bind fun t =>
      rewriteIndexName isAlnum t name)

/-- A statement that the parser takes apart is rewritten in its name and its target alone, and what
is put in is read back. -/
theorem rewrites_of_parts (hblanks : Blanks isAlnum) {s : Text} {p : Parts}
    (h : indexStatementParts isAlnum s = some p) {name schema table : Text} (hn : name ≠ [])
    (hs : schema ≠ []) (ht : table ≠ []) : Rewrites isAlnum s p name schema table := by
  obtain ⟨rest, hr⟩ := reads_of_parts h
  have hmoved := hr.parts_moved hblanks hs ht
  refine ⟨hr.text_eq, rewriteIndexName_ticked h, rewriteIndexName_of_parts h,
    hr.customIndexName_renamed hblanks hn, hr.parts_renamed hblanks hn,
    rewriteIndexTarget_of_parts h, hmoved, fun hc => ?_⟩
  rw [rewriteIndexTarget_of_parts h, Option.bind_some]
  by_cases hname : Unticked p.name
  · rw [rewriteIndexName_of_parts h hname, Option.bind_some,
      rewriteIndexTarget_of_parts (hr.parts_renamed hblanks hn hc),
      rewriteIndexName_of_parts hmoved hname]
    rfl
  · rw [rewriteIndexName_ticked h hname, rewriteIndexName_ticked hmoved hname]
    rfl

/-- A statement that the expressions accept. -/
def ownerIndex : Text := "create unique index if not exists \"a\"\"b\" on only t (lower(c)) where d"

theorem rewrites_ownerIndex : ∃ p, indexStatementParts (fun _ => false) ownerIndex = some p ∧
    Rewrites (fun _ => false) ownerIndex p "c" "pg_temp" "probe" := by
  have hsome : (indexStatementParts (fun _ => false) ownerIndex).isSome = true := by
    decide +kernel
  obtain ⟨p, hp⟩ := Option.isSome_iff_exists.1 hsome
  exact ⟨p, hp, rewrites_of_parts (fun _ _ => rfl) hp (by decide) (by decide) (by decide)⟩

/-- A name in backticks is accepted, and cannot be replaced. -/
theorem ticked_accepted_not_renamed :
    (indexStatementParts (fun _ => false) "CREATE INDEX \x60a\x60 ON t (b)").isSome = true ∧
    rewriteIndexName (fun _ => false) "CREATE INDEX \x60a\x60 ON t (b)" "c" = none := by
  decide +kernel

end IndexSql

end PPBase
