import PPBase.IndexSearch

/-!
# When a filter needs the relation index

The grammar reads quotes and comments in one pass. To it a quote in a comment opens nothing, and a
path goes on over blanks around its dots. Where the comments close the quotes they open
(`ClosesQuotes`) it reads the same quotes and comments as `_filter_needs_relation_index`
(`agrees_of_run`). Then the index is loaded exactly for the filters with an `@collection` macro or
with two segments that only a dot parts (`Joined`, `index_loaded_iff`).
-/

namespace PPBase

namespace IndexDetection

open Lexer Reading

variable {r : Reading} {c : Char} {t : Text}

/-! ## The grammar's reading -/

/-- Neither in a quote nor in a comment. -/
def IsOpen : LexState → Prop
  | .quoted _ _ | .escaped _ _ | .comment | .slash => False
  | _ => True

/-- The last character may be one of a name or a path. -/
def InName : LexState → Prop
  | .ident _ | .macroAt | .macroName _ | .dot | .int _ | .intDot _ | .frac _ | .exp _ | .expInt _ => True
  | _ => False

/-- How a terminal goes on. -/
inductive GoesOn : LexState → Char → LexState → Prop
  | ident {acc : Text} {c : Char} (h : isIdentTail c = true) :
      GoesOn (.ident acc) c (.ident (acc ++ [c]))
  | macroStart {c : Char} (h : Text.isIdentStart c = true) : GoesOn .macroAt c (.macroName ['@', c])
  | macroTail {acc : Text} {c : Char} (h : isMacroTail c = true) :
      GoesOn (.macroName acc) c (.macroName (acc ++ [c]))
  | digit {st st' : LexState} {c : Char} (h : c.isDigit = true) (hopen : IsOpen st')
      (hname : ∀ acc, st' ≠ .macroName acc) : GoesOn st c st'
  | signPoint {st : LexState} {acc : Text} : GoesOn st '.' (.signDot acc)
  | intPoint {st : LexState} {acc : Text} : GoesOn st '.' (.intDot acc)
  | exp {st : LexState} {c : Char} {acc : Text} (h : isExp c = true) (hst : InName st) :
      GoesOn st c (.exp acc)
  | sign {st : LexState} {c : Char} {acc : Text} (h : isSign c = true) : GoesOn st c (.expSign acc)
  | operator {st : LexState} {c : Char} {p : OpPrefix} (h : c = '!' ∨ c = '>' ∨ c = '<') :
      GoesOn st c (.operator p)
  | close {st : LexState} {c : Char} (h : c = '=' ∨ c = '~' ∨ c = '|' ∨ c = '&') :
      GoesOn st c .start

variable {ts : List Token} {st st' : LexState} {u s : Text}

theorem state_eq {us : List Token} (h : some (us, st) = some (ts, st')) :
    st = st' := (Prod.mk.inj (Option.some.inj h)).2

theorem open?_of_after {t : Token} (h : Lexer.after t c = some (ts, st')) :
    ∃ ts', open? c = some (ts', st') := by
  obtain ⟨⟨us, st₁⟩, ho, hp⟩ := Option.map_eq_some_iff.1 h
  obtain ⟨-, rfl⟩ := Prod.mk.inj hp
  exact ⟨us, ho⟩

/-- Outside the quotes and comments a terminal starts, or the one in progress goes on. -/
theorem open_or_goesOn (hopen : IsOpen st) (h : Lexer.step st c = some (ts, st')) :
    (∃ ts', open? c = some (ts', st')) ∨ GoesOn st c st' := by
  cases st with
  | start => exact Or.inl ⟨ts, h⟩
  | comment => exact hopen.elim
  | slash => exact hopen.elim
  | quoted q acc => exact hopen.elim
  | escaped q acc => exact hopen.elim
  | bar =>
    simp only [Lexer.step] at h
    split_ifs at h with hc
    obtain rfl := state_eq h
    exact Or.inr (.close (by simp [hc]))
  | amp =>
    simp only [Lexer.step] at h
    split_ifs at h with hc
    obtain rfl := state_eq h
    exact Or.inr (.close (by simp [hc]))
  | operator p =>
    simp only [Lexer.step] at h
    cases p <;> simp only [stepOperator] at h <;> split_ifs at h <;>
    first
      | (obtain rfl := state_eq h; exact Or.inr (.close (by simp [*])))
      | (obtain rfl := state_eq h; exact Or.inr (.operator (by simp [*])))
      | exact Or.inl (open?_of_after h)
  | ident acc =>
    simp only [Lexer.step] at h
    split_ifs at h with hc
    · obtain rfl := state_eq h
      exact Or.inr (.ident hc)
    · exact Or.inl (open?_of_after h)
  | macroAt =>
    simp only [Lexer.step] at h
    split_ifs at h with hc
    obtain rfl := state_eq h
    exact Or.inr (.macroStart hc)
  | macroName acc =>
    simp only [Lexer.step] at h
    split_ifs at h with hc
    · obtain rfl := state_eq h
      exact Or.inr (.macroTail hc)
    · exact Or.inl (open?_of_after h)
  | _ =>
    simp only [Lexer.step] at h
    (try split_ifs at h) <;>
    first
      | exact Or.inl (open?_of_after h)
      | (obtain rfl := state_eq h
         subst_vars
         first
           | exact Or.inr (.digit ‹_› trivial (by simp))
           | exact Or.inr .signPoint
           | exact Or.inr .intPoint
           | exact Or.inr (.exp ‹_› trivial)
           | exact Or.inr (.sign ‹_›))

/-- Where a character leads that no quote and no comment takes. -/
def Next (c : Char) (st : LexState) : Prop :=
  if c = '/' then st = .slash else if c = '\'' ∨ c = '"' then st = .quoted c [c] else IsOpen st

theorem next_of_kept (hc : ¬(c = '\'' ∨ c = '"') ∧ c ≠ '/') (h : IsOpen st) : Next c st := by
  rw [Next, if_neg hc.2, if_neg hc.1]
  exact h

theorem next_open? (h : open? c = some (ts, st)) : Next c st := by
  unfold open? at h
  split_ifs at h with hws hident hdigit hsign
  · obtain rfl := state_eq h
    refine next_of_kept ⟨?_, ?_⟩ trivial
    · rintro (rfl | rfl) <;> exact absurd hws (by decide)
    · rintro rfl
      exact absurd hws (by decide)
  · obtain rfl := state_eq h
    exact next_of_kept (isPlain_of_isIdentTail (isIdentTail_of_isIdentStart hident)).kept trivial
  · obtain rfl := state_eq h
    exact next_of_kept (isPlain_of_isIdentTail (isIdentTail_of_isDigit hdigit)).kept trivial
  · obtain rfl := state_eq h
    refine next_of_kept ⟨?_, ?_⟩ trivial
    · rintro (rfl | rfl) <;> exact absurd hsign (by decide)
    · rintro rfl
      exact absurd hsign (by decide)
  · split at h <;> first
      | (obtain rfl := state_eq h
         first
           | exact next_of_kept (by decide) trivial
           | rfl)
      | cases h

theorem continues_of_isIdentTail (h : isIdentTail c = true) : continues c = true := by
  simp [continues, isMacroTail, h]

theorem kept_of_continues (h : continues c = true) : ¬(c = '\'' ∨ c = '"') ∧ c ≠ '/' := by
  refine ⟨?_, ?_⟩
  · rintro (rfl | rfl) <;> exact absurd h (by decide)
  · rintro rfl
    exact absurd h (by decide)

theorem continues_of_isExp (h : isExp c = true) : continues c = true := by
  unfold isExp at h
  rw [Bool.or_eq_true, beq_iff_eq, beq_iff_eq] at h
  rcases h with rfl | rfl <;> decide

theorem next_goesOn (h : GoesOn st c st') : Next c st' := by
  cases h with
  | ident h => exact next_of_kept (kept_of_continues (continues_of_isIdentTail h)) trivial
  | macroStart h =>
    exact next_of_kept (isPlain_of_isIdentTail (isIdentTail_of_isIdentStart h)).kept trivial
  | macroTail h => exact next_of_kept (kept_of_continues (by simp [continues, h])) trivial
  | digit h hopen _ => exact next_of_kept (isPlain_of_isIdentTail (isIdentTail_of_isDigit h)).kept hopen
  | signPoint => exact next_of_kept (by decide) trivial
  | intPoint => exact next_of_kept (by decide) trivial
  | exp h _ => exact next_of_kept (kept_of_continues (continues_of_isExp h)) trivial
  | sign h =>
    refine next_of_kept ⟨?_, ?_⟩ trivial
    · rintro (rfl | rfl) <;> exact absurd h (by decide)
    · rintro rfl
      exact absurd h (by decide)
  | operator h => rcases h with rfl | rfl | rfl <;> exact next_of_kept (by decide) trivial
  | close h => rcases h with rfl | rfl | rfl | rfl <;> exact next_of_kept (by decide) trivial

/-- A step outside the quotes and comments. -/
theorem next_step (hopen : IsOpen st) (h : Lexer.step st c = some (ts, st')) : Next c st' := by
  rcases open_or_goesOn hopen h with ⟨ts', ho⟩ | hgoes
  · exact next_open? ho
  · exact next_goesOn hgoes

/-- What the last character is where a name may go on. -/
theorem continues_of_step (hopen : IsOpen st) (h : Lexer.step st c = some (ts, st'))
    (hname : InName st') : continues c = true := by
  rcases open_or_goesOn hopen h with ⟨ts', ho⟩ | hgoes
  · unfold open? at ho
    split_ifs at ho with hws hident hdigit hsign
    · obtain rfl := state_eq ho
      exact hname.elim
    · exact continues_of_isIdentTail (isIdentTail_of_isIdentStart hident)
    · exact continues_of_isIdentTail (isIdentTail_of_isDigit hdigit)
    · obtain rfl := state_eq ho
      exact hname.elim
    · split at ho <;> first
        | (obtain rfl := state_eq ho
           first
             | exact hname.elim
             | decide)
        | cases ho
  · cases hgoes with
    | ident hc => exact continues_of_isIdentTail hc
    | macroStart hc => exact continues_of_isIdentTail (isIdentTail_of_isIdentStart hc)
    | macroTail hc => simp [continues, hc]
    | digit hc _ _ => exact continues_of_isIdentTail (isIdentTail_of_isDigit hc)
    | signPoint => decide
    | intPoint => decide
    | exp hc _ => exact continues_of_isExp hc
    | sign _ => exact hname.elim
    | operator _ => exact hname.elim
    | close _ => exact hname.elim

/-- Where no name goes on, a letter starts one. -/
theorem ident_of_step (hopen : IsOpen st) (hname : ¬InName st) (hc : Text.isIdentStart c = true)
    (h : Lexer.step st c = some (ts, st')) : st' = .ident [c] := by
  have hws : isWs c = false := by
    rw [Bool.eq_false_iff]
    intro hws
    simp only [isWs, Bool.or_eq_true, beq_iff_eq] at hws
    rcases hws with (((rfl | rfl) | rfl) | rfl) | rfl <;> exact absurd hc (by decide)
  rcases open_or_goesOn hopen h with ⟨ts', ho⟩ | hgoes
  · unfold open? at ho
    rw [if_neg (by rw [hws]; decide), if_pos hc] at ho
    exact (Prod.mk.inj (Option.some.inj ho)).2.symm
  · have hne : ∀ d, Text.isIdentStart d = false → c ≠ d := by
      rintro d hd rfl
      rw [hc] at hd
      cases hd
    cases hgoes with
    | ident _ => exact absurd trivial hname
    | macroStart _ => exact absurd trivial hname
    | macroTail _ => exact absurd trivial hname
    | digit hdigit _ _ =>
      simp only [Text.isIdentStart, Bool.or_eq_true, beq_iff_eq] at hc
      have hrange := Text.toNat_of_isDigit hdigit
      rcases hc with hc | rfl
      · rcases Text.isAlpha_iff.1 hc with h | h <;> omega
      · exact absurd hdigit (by decide)
    | signPoint => exact absurd rfl (hne '.' (by decide))
    | intPoint => exact absurd rfl (hne '.' (by decide))
    | exp _ hst => exact absurd hst hname
    | sign hsign =>
      unfold isSign at hsign
      rw [Bool.or_eq_true, beq_iff_eq, beq_iff_eq] at hsign
      rcases hsign with rfl | rfl
      · exact absurd rfl (hne '+' (by decide))
      · exact absurd rfl (hne '-' (by decide))
    | operator hop =>
      rcases hop with rfl | rfl | rfl
      · exact absurd rfl (hne '!' (by decide))
      · exact absurd rfl (hne '>' (by decide))
      · exact absurd rfl (hne '<' (by decide))
    | close hop =>
      rcases hop with rfl | rfl | rfl | rfl
      · exact absurd rfl (hne '=' (by decide))
      · exact absurd rfl (hne '~' (by decide))
      · exact absurd rfl (hne '|' (by decide))
      · exact absurd rfl (hne '&' (by decide))

/-- Where both readings stand after the same text. -/
def Agrees : LexState → Reading → Prop
  | .quoted q _, r => r.quote = some q ∧ r.escaped = false ∧ r.comments = .text
  | .escaped q _, r => r.quote = some q ∧ r.escaped = true ∧ r.comments = .text
  | .comment, r => r.comments = .comment
  | .slash, r => r.quote = none ∧ r.comments = .slash
  | _, r => r.quote = none ∧ r.comments = .text

theorem agrees_iff (h : IsOpen st) : Agrees st r ↔ r.quote = none ∧ r.comments = .text := by
  cases st <;> first
    | exact h.elim
    | exact Iff.rfl

theorem shown_some (q c : Char) : shown (some q) c = ' ' := if_neg fun h => nomatch h.1

/-- One character keeps the readings together, if no comment ends in a quote. -/
theorem Agrees.step (h : Agrees st r) (hstep : Lexer.step st c = some (ts, st'))
    (hclose : st = .comment → c = '\n' → r.quote = none) : Agrees st' (r.step c) := by
  by_cases hopen : IsOpen st
  · obtain ⟨hq, hk⟩ := (agrees_iff hopen).1 h
    have hnext := next_step hopen hstep
    unfold Next at hnext
    split_ifs at hnext with hslash hquote
    · subst hslash hnext
      refine ⟨step_plain hq (by decide), ?_⟩
      rw [comments_step, hk, hq]
      rfl
    · subst hnext
      obtain ⟨quote, escaped, comments⟩ := r
      obtain rfl : quote = none := hq
      obtain rfl : comments = .text := hk
      have hshown : shown none c = ' ' := if_neg fun h => h.2 hquote
      simp [Agrees, Reading.step, hquote, hshown, CommentState.step]
    · exact (agrees_iff hnext).2 (rest_plain (t := []) hq hk ⟨hquote, hslash⟩).2
  · obtain ⟨quote, escaped, comments⟩ := r
    cases st with
    | quoted q acc =>
      obtain ⟨rfl, rfl, rfl⟩ : quote = some q ∧ escaped = false ∧ comments = .text := h
      simp only [Lexer.step] at hstep
      split_ifs at hstep with hb hq
      · obtain rfl := state_eq hstep
        simp [Agrees, Reading.step, shown_some, CommentState.step, hb]
      · obtain rfl := state_eq hstep
        subst hq
        simp [Agrees, Reading.step, shown_some, CommentState.step, hb]
      · obtain rfl := state_eq hstep
        simp [Agrees, Reading.step, shown_some, CommentState.step, hb, hq]
    | escaped q acc =>
      obtain ⟨rfl, rfl, rfl⟩ : quote = some q ∧ escaped = true ∧ comments = .text := h
      obtain rfl := state_eq hstep
      simp [Agrees, Reading.step, shown_some, CommentState.step]
    | comment =>
      obtain rfl : comments = .comment := h
      simp only [Lexer.step] at hstep
      split_ifs at hstep with hc
      · obtain rfl := state_eq hstep
        obtain rfl : quote = none := hclose rfl hc
        subst hc
        exact ⟨step_plain rfl (by decide), rfl⟩
      · obtain rfl := state_eq hstep
        have hshown : shown quote c ≠ '\n' := by
          unfold shown
          split_ifs
          · exact hc
          · decide
        show (Reading.step _ c).comments = .comment
        rw [comments_step]
        exact if_neg hshown
    | slash =>
      obtain ⟨rfl, rfl⟩ : quote = none ∧ comments = .slash := h
      simp only [Lexer.step] at hstep
      split_ifs at hstep with hc
      obtain rfl := state_eq hstep
      subst hc
      rfl
    | _ => exact absurd trivial hopen

/-- The comments close the quotes they open : at the end of the line of a comment, the pass over the
quotes is in none. -/
def ClosesQuotes (s : Text) : Prop :=
  ∀ u v, s = u ++ '\n' :: v → lexer.stateAfter u = some .comment → (Reading.after {} u).quote = none

/-- A run over one more character. -/
theorem run_snoc {p : List Token × LexState} (h : lexer.run .start (u ++ [c]) = some p) :
    ∃ us st vs, lexer.run .start u = some (us, st) ∧ Lexer.step st c = some (vs, p.2) ∧
      p.1 = us ++ vs := by
  rw [lexer.run_append] at h
  obtain ⟨⟨us, st⟩, hus, h⟩ := Option.bind_eq_some_iff.1 h
  obtain ⟨⟨vs, st'⟩, hvs, rfl⟩ := Option.map_eq_some_iff.1 h
  obtain ⟨q, q', hstep, hnil, hq⟩ := lexer.run_cons_eq_some.1 hvs
  obtain rfl := Option.some.inj hnil
  obtain ⟨rfl, rfl⟩ := Prod.mk.inj hq
  rw [List.append_nil]
  exact ⟨us, st, q.1, hus, hstep, rfl⟩

theorem after_snoc (u : Text) : r.after (u ++ [c]) = (r.after u).step c := List.foldl_concat ..

/-- Both readings stand alike after every part of a text whose comments close their quotes. -/
theorem agrees_of_run (hclose : ClosesQuotes s) {v : Text} (hs : s = u ++ v)
    (h : lexer.run .start u = some (ts, st)) : Agrees st (Reading.after {} u) := by
  induction u using List.reverseRecOn generalizing v ts st with
  | nil =>
    obtain ⟨-, rfl⟩ := Prod.mk.inj (Option.some.inj h)
    exact ⟨rfl, rfl⟩
  | append_singleton u c ih =>
    obtain ⟨us, st₁, vs, hus, hstep, -⟩ := run_snoc h
    have hsplit : s = u ++ c :: v := by rw [hs, List.append_assoc]; rfl
    rw [after_snoc]
    refine (ih hsplit hus).step hstep ?_
    rintro rfl rfl
    refine hclose u v hsplit ?_
    rw [Scanner.stateAfter, show lexer.start = LexState.start from rfl, hus]
    rfl

/-- In a text whose comments close their quotes, only what neither a quote nor a comment holds is
looked at. -/
theorem visible_iff (h : Agrees st r) : r.Visible ↔ IsOpen st ∨ st = .slash := by
  by_cases hopen : IsOpen st
  · obtain ⟨hq, hk⟩ := (agrees_iff hopen).1 h
    exact iff_of_true ⟨hq, by rw [hk]; decide⟩ (Or.inl hopen)
  · rw [or_iff_right hopen]
    cases st with
    | quoted q acc => exact iff_of_false (fun hv => nomatch h.1.symm.trans hv.1) (by simp)
    | escaped q acc => exact iff_of_false (fun hv => nomatch h.1.symm.trans hv.1) (by simp)
    | comment => exact iff_of_false (fun hv => hv.2 h) (by simp)
    | slash => exact iff_of_true ⟨h.1, by rw [h.2]; decide⟩ rfl
    | _ => exact absurd trivial hopen

/-! ## Macros and segments in the text -/

/-- A name starts, or goes on, only outside the quotes and comments. -/
theorem isOpen_of_step (h : Lexer.step st c = some (ts, st')) (hst' : InName st') : IsOpen st := by
  cases st with
  | quoted q acc | escaped q acc | comment | slash =>
    simp only [Lexer.step] at h
    (try split_ifs at h) <;>
      (obtain rfl := state_eq h
       exact hst'.elim)
  | _ => exact trivial

/-- The last character before a place where a name may go on. -/
theorem continues_of_run (h : lexer.run .start u = some (ts, st)) (hst : InName st) :
    ∃ d ∈ u.getLast?, continues d = true := by
  induction u using List.reverseRecOn with
  | nil =>
    obtain ⟨-, rfl⟩ := Prod.mk.inj (Option.some.inj h)
    exact hst.elim
  | append_singleton u d ih =>
    obtain ⟨us, st₁, vs, -, hstep, -⟩ := run_snoc h
    exact ⟨d, List.getLast?_concat .., continues_of_step (isOpen_of_step hstep hst) hstep hst⟩

theorem macroAt_of_step (hopen : IsOpen st) (h : Lexer.step st '@' = some (ts, st')) :
    st' = .macroAt := by
  rcases open_or_goesOn hopen h with ⟨ts', ho⟩ | hgoes
  · exact (Prod.mk.inj (Option.some.inj ho)).2.symm
  · cases hgoes with
    | ident hc => exact absurd hc (by decide)
    | macroStart hc => exact absurd hc (by decide)
    | macroTail hc => exact absurd hc (by decide)
    | digit hc _ _ => exact absurd hc (by decide)
    | exp hc _ => exact absurd hc (by decide)
    | sign hc => exact absurd hc (by decide)
    | operator hc => exact absurd hc (by decide)
    | close hc => exact absurd hc (by decide)

/-- The name of a macro in progress is read to its end. -/
theorem macroName_of_scan {acc w : Text} (h : lexer.scanFrom (.macroName acc) w = some ts) :
    ∃ n, acc <+: n ∧ Token.macroName n ∈ ts := by
  induction w generalizing acc ts with
  | nil =>
    obtain ⟨us, st, vs, hrun, hfin, rfl⟩ := lexer.scanFrom_eq_some.1 h
    obtain ⟨rfl, rfl⟩ := Prod.mk.inj (Option.some.inj hrun)
    obtain rfl := Option.some.inj hfin
    exact ⟨acc, List.prefix_rfl, List.mem_cons_self⟩
  | cons c w ih =>
    by_cases hc : isMacroTail c = true
    · have hstep : lexer.step (.macroName acc) c = some ([], .macroName (acc ++ [c])) := if_pos hc
      rw [lexer.scanFrom_silent hstep] at h
      obtain ⟨n, hn, hmem⟩ := ih h
      exact ⟨n, (List.prefix_append acc [c]).trans hn, hmem⟩
    · have hstep : lexer.step (.macroName acc) c = Lexer.after (.macroName acc) c := if_neg hc
      obtain ⟨us, st, vs, hrun, -, rfl⟩ := lexer.scanFrom_eq_some.1 h
      obtain ⟨q, q', hq, -, hrest⟩ := lexer.run_cons_eq_some.1 hrun
      rw [hstep] at hq
      obtain ⟨p, -, rfl⟩ := Option.map_eq_some_iff.1 hq
      obtain ⟨rfl, -⟩ := Prod.mk.inj hrest
      exact ⟨acc, List.prefix_rfl,
        List.mem_append_left _ (List.mem_append_left _ List.mem_cons_self)⟩

/-- A macro's name starts where the grammar reads its first character. -/
def StartsAt (n s : Text) : Prop :=
  ∃ u v, s = u ++ n ++ v ∧ lexer.stateAfter (u ++ ['@']) = some .macroAt

theorem stateAfter_of_run (h : lexer.run .start u = some (ts, st)) :
    lexer.stateAfter u = some st := by
  rw [Scanner.stateAfter, show lexer.start = LexState.start from rfl, h]
  rfl

theorem open?_ne_macroName {acc : Text} : open? c ≠ some (ts, .macroName acc) := by
  intro h
  unfold open? at h
  split_ifs at h
  · cases h
  · cases h
  · cases h
  · cases h
  · split at h <;> cases h

theorem startsAt_of_run (s : Text) : ∀ {ts : List Token} {st : LexState},
    lexer.run .start s = some (ts, st) →
      (∀ n, Token.macroName n ∈ ts → StartsAt n s) ∧
      ∀ acc, st = .macroName acc →
        ∃ u, s = u ++ acc ∧ lexer.stateAfter (u ++ ['@']) = some .macroAt := by
  induction s using List.reverseRecOn with
  | nil =>
    intro ts st h
    obtain ⟨rfl, rfl⟩ := Prod.mk.inj (Option.some.inj h)
    exact ⟨fun n hn => (nomatch hn), fun acc hacc => (nomatch hacc)⟩
  | append_singleton s c ih =>
    intro ts st h
    obtain ⟨us, st₁, vs, hus, hstep, rfl⟩ := run_snoc h
    obtain ⟨hnames, hacc⟩ := ih hus
    obtain ⟨-, hreads⟩ := run_macroName s hus
    refine ⟨fun n hn => ?_, fun acc hst => ?_⟩
    · rcases List.mem_append.1 hn with hn | hn
      · obtain ⟨u, v, rfl, hu⟩ := hnames n hn
        exact ⟨u, v ++ [c], by simp, hu⟩
      · obtain ⟨rfl, -⟩ := (step_macroName hstep hreads).1 n hn
        obtain ⟨u, rfl, hu⟩ := hacc n rfl
        exact ⟨u, [c], rfl, hu⟩
    · subst hst
      rcases open_or_goesOn (isOpen_of_step hstep trivial) hstep with ⟨ts', ho⟩ | hgoes
      · exact absurd ho open?_ne_macroName
      · cases hgoes with
        | macroStart hc =>
          obtain ⟨u, rfl⟩ := hreads
          exact ⟨u, by simp, stateAfter_of_run hus⟩
        | macroTail hc =>
          obtain ⟨u, rfl, hu⟩ := hacc _ rfl
          exact ⟨u, by simp, hu⟩
        | digit _ _ hname => exact absurd rfl (hname acc)

/-! ## Filters -/

/-- The grammar starts a segment of a path here, not where a name or a path may go on, and a dot and
another segment follow it at once. -/
def Joined (s : Text) : Prop :=
  ∃ u c w, s = u ++ c :: w ∧ lexer.stateAfter (u ++ [c]) = some (.ident [c]) ∧
    startsDottedPath (c :: w) = true ∧ ∀ d ∈ u.getLast?, continues d = false

theorem run_of_stateAfter (h : lexer.stateAfter u = some st) :
    ∃ ts, lexer.run .start u = some (ts, st) := by
  obtain ⟨⟨ts, st'⟩, hrun, rfl⟩ := Option.map_eq_some_iff.1 h
  exact ⟨ts, hrun⟩

/-- A place that is looked at, in a text whose comments close their quotes. -/
theorem visible_of_step {v : Text} (hclose : ClosesQuotes s) (hs : s = u ++ v)
    (h : lexer.stateAfter (u ++ [c]) = some st') (hst' : InName st') :
    (Reading.after {} u).Visible := by
  obtain ⟨ts, hrun⟩ := run_of_stateAfter h
  obtain ⟨us, st₁, vs, hus, hstep, -⟩ := run_snoc hrun
  exact (visible_iff (agrees_of_run hclose hs hus)).2 (Or.inl (isOpen_of_step hstep hst'))

theorem collectionStart_eq : "@collection.".toList = '@' :: "collection.".toList := by decide

/-- What the search finds is a macro's start or joined segments. -/
theorem of_seen (hlex : lex s = some ts) (hclose : ClosesQuotes s) (h : Seen s) :
    (∃ n, "@collection.".toList <+: n ∧ Token.macroName n ∈ ts) ∨ Joined s := by
  obtain ⟨u, v, rfl, hvisible, hfound⟩ := h
  obtain ⟨xs, stEnd, ys, hrun, -, -⟩ := lexer.scanFrom_eq_some.1 hlex
  rw [lexer.run_append] at hrun
  obtain ⟨⟨us, st⟩, hus, -⟩ := Option.bind_eq_some_iff.1 hrun
  have hscan := lexer.scanFrom_append hus v
  rw [show lexer.scanFrom lexer.start (u ++ v) = some ts from hlex] at hscan
  obtain ⟨rest, hrest, rfl⟩ := Option.map_eq_some_iff.1 hscan.symm
  obtain ⟨c, w, rfl, hslash⟩ : ∃ c w, v = c :: w ∧ c ≠ '/' := by
    cases v with
    | nil => exact absurd hfound not_found_nil
    | cons c w =>
      refine ⟨c, w, rfl, ?_⟩
      rintro rfl
      exact not_found (by decide) hfound
  obtain ⟨zs, st₂, ws, hrun₂, -, -⟩ := lexer.scanFrom_eq_some.1 hrest
  obtain ⟨q, -, hstep, -, -⟩ := lexer.run_cons_eq_some.1 hrun₂
  have hopen : IsOpen st := by
    refine ((visible_iff (agrees_of_run hclose rfl hus)).1 hvisible).resolve_right ?_
    rintro rfl
    have hnone : lexer.step .slash c = none := if_neg hslash
    rw [hnone] at hstep
    cases hstep
  rcases hfound with ⟨x, hx⟩ | ⟨hpath, hlast⟩
  · rw [collectionStart_eq, List.cons_append] at hx
    obtain ⟨rfl, rfl⟩ := List.cons.inj hx.symm
    have hcoll : q = (q.1, .macroAt) := Prod.ext rfl (macroAt_of_step hopen hstep)
    rw [hcoll] at hstep
    rw [lexer.scanFrom_cons hstep] at hrest
    obtain ⟨rest', hrest', rfl⟩ := Option.map_eq_some_iff.1 hrest
    have hname : lexer.run .macroAt "collection.".toList =
        some ([], .macroName "@collection.") := by decide
    have hsilent := lexer.scanFrom_append hname x
    rw [show lexer.scanFrom .macroAt ("collection.".toList ++ x) = some rest' from hrest']
      at hsilent
    obtain ⟨rest'', hrest'', rfl⟩ := Option.map_eq_some_iff.1 hsilent.symm
    obtain ⟨n, hn, hmem⟩ := macroName_of_scan hrest''
    refine Or.inl ⟨n, hn, ?_⟩
    exact List.mem_append_right _ (List.mem_append_right _ (List.mem_append_right _ hmem))
  · rw [Option.or_none] at hlast
    rw [startsDottedPath_cons, Bool.and_eq_true] at hpath
    have hname : ¬InName st := by
      intro hst
      obtain ⟨d, hd, hcontinues⟩ := continues_of_run hus hst
      rw [hlast d hd] at hcontinues
      cases hcontinues
    have hident : q = (q.1, .ident [c]) := Prod.ext rfl (ident_of_step hopen hname hpath.1 hstep)
    refine Or.inr ⟨u, c, w, rfl, ?_, ?_, hlast⟩
    · have hrun : lexer.run lexer.start (u ++ [c]) = some (us ++ q.1, .ident [c]) := by
        rw [lexer.run_append, hus, Option.bind_some, lexer.run_cons (hident ▸ hstep)]
        simp
      exact stateAfter_of_run hrun
    · rw [startsDottedPath_cons, hpath.1, hpath.2]
      rfl

theorem seen_of_joined (hclose : ClosesQuotes s) (h : Joined s) : Seen s := by
  obtain ⟨u, c, w, rfl, hstate, hpath, hlast⟩ := h
  refine ⟨u, c :: w, rfl, visible_of_step hclose rfl hstate trivial, Or.inr ⟨hpath, ?_⟩⟩
  rw [Option.or_none]
  exact hlast

variable {n : Text}

theorem seen_of_macro (hclose : ClosesQuotes s) (hlex : lex s = some ts)
    (hmem : Token.macroName n ∈ ts) (hn : "@collection.".toList <+: n) : Seen s := by
  have hstarts : StartsAt n s := by
    obtain ⟨us, st, vs, hrun, hfin, rfl⟩ := lexer.scanFrom_eq_some.1 hlex
    obtain ⟨hnames, hacc⟩ := startsAt_of_run s hrun
    rcases List.mem_append.1 hmem with hmem | hmem
    · exact hnames n hmem
    · obtain ⟨u, hu, hstate⟩ := hacc n (finish_macroName hfin hmem)
      exact ⟨u, [], by rw [hu, List.append_nil], hstate⟩
  obtain ⟨u, v, rfl, hstate⟩ := hstarts
  refine ⟨u, n ++ v, List.append_assoc .., ?_, Or.inl (hn.trans (List.prefix_append n v))⟩
  exact visible_of_step hclose (List.append_assoc ..) hstate trivial

theorem notMem_tailTokens (ns : List Text) : Token.macroName n ∉ FieldPath.tailTokens ns := by
  induction ns with
  | nil => exact List.not_mem_nil
  | cons m ns ih => simp [FieldPath.tailTokens, ih]

theorem eq_of_mem_tokens {o : Operand} (h : Token.macroName n ∈ o.tokens) : o = .macroName n := by
  cases o with
  | macroName m => rw [Token.macroName.inj (List.mem_singleton.1 h)]
  | fieldPath p =>
    exact absurd ((List.mem_cons.1 h).resolve_left (by simp)) (notMem_tailTokens p.tail)
  | _ => exact absurd (List.mem_singleton.1 h) (by simp)

mutual

theorem Expr.mem_operands {n : Text} : ∀ {e : Expr}, Token.macroName n ∈ e.tokens →
    Operand.macroName n ∈ e.operands
  | .one c, h => Conj.mem_operands (c := c) h
  | .or c e, h => by
    rcases List.mem_append.1 h with h | h
    · exact List.mem_append_left _ (Conj.mem_operands h)
    · exact List.mem_append_right _ (Expr.mem_operands ((List.mem_cons.1 h).resolve_left (by simp)))

theorem Conj.mem_operands {n : Text} : ∀ {c : Conj}, Token.macroName n ∈ c.tokens →
    Operand.macroName n ∈ c.operands
  | .one a, h => Atom.mem_operands (a := a) h
  | .and a c, h => by
    rcases List.mem_append.1 h with h | h
    · exact List.mem_append_left _ (Atom.mem_operands h)
    · exact List.mem_append_right _ (Conj.mem_operands ((List.mem_cons.1 h).resolve_left (by simp)))

theorem Atom.mem_operands {n : Text} : ∀ {a : Atom}, Token.macroName n ∈ a.tokens →
    Operand.macroName n ∈ a.operands
  | .comparison k, h => by
    rcases List.mem_append.1 h with h | h
    · rw [← eq_of_mem_tokens h]
      exact List.mem_cons_self
    · rw [← eq_of_mem_tokens ((List.mem_cons.1 h).resolve_left (by simp))]
      exact List.mem_cons_of_mem _ List.mem_cons_self
  | .paren e, h => by
    have hmem := (List.mem_cons.1 h).resolve_left (by simp)
    refine Expr.mem_operands (e := e) ((List.mem_append.1 hmem).resolve_right ?_)
    simp

end

/-- A filter reads another collection : it has a path of two or more segments or an `@collection`
macro. -/
def ReadsRelations (e : Expr) : Prop := ∃ o ∈ e.operands, o.isPlain = false

/-- The filter has an `@collection` macro. -/
def HasCollectionMacro (e : Expr) : Prop :=
  ∃ n, Operand.macroName n ∈ e.operands ∧ isCollectionMacro n = true

theorem prefix_iff_isCollectionMacro (h : MacroShape n) :
    "@collection.".toList <+: n ↔ isCollectionMacro n = true := by
  unfold isCollectionMacro
  rw [Option.isSome_iff_exists]
  conv_lhs => rw [← dropWhile_at_of_shape h]
  constructor
  · rintro ⟨w, hw⟩
    rw [collectionStart_eq, List.cons_append] at hw
    exact ⟨w, Text.afterPrefix?_eq_some.2 (List.cons.inj hw).2.symm⟩
  · rintro ⟨w, hw⟩
    rw [Text.afterPrefix?_eq_some.1 hw, collectionStart_eq]
    exact ⟨w, rfl⟩

/-- Where the comments close their quotes, the search finds the macros and the joined segments. -/
theorem seen_iff {e : Expr} (h : parseText s = some e) (hclose : ClosesQuotes s) :
    Seen s ↔ HasCollectionMacro e ∨ Joined s := by
  obtain ⟨ts, hlex, hparse⟩ := Option.bind_eq_some_iff.1 h
  obtain rfl := parseTokens_eq_some.1 hparse
  constructor
  · intro hseen
    rcases of_seen hlex hclose hseen with ⟨n, hn, hmem⟩ | hjoined
    · refine Or.inl ⟨n, Expr.mem_operands hmem, ?_⟩
      exact (prefix_iff_isCollectionMacro (macroOccurs_of_lex hlex hmem).1).1 hn
    · exact Or.inr hjoined
  · rintro (⟨n, hmem, hn⟩ | hjoined)
    · have htoken := Expr.macro_mem_tokens hmem
      exact seen_of_macro hclose hlex htoken
        ((prefix_iff_isCollectionMacro (macroOccurs_of_lex hlex htoken).1).2 hn)
    · exact seen_of_joined hclose hjoined

/-- The index is loaded for a filter that reads relations exactly if what the search looks for stands
outside the quotes and comments, as they are read. In a filter whose comments close their quotes
that is an `@collection` macro or joined segments. -/
theorem index_loaded_iff {e : Expr} (h : parseText s = some e) :
    ((ReadsRelations e → filterNeedsRelationIndex s = true) ↔ (ReadsRelations e → Seen s)) ∧
      (ClosesQuotes s → (Seen s ↔ HasCollectionMacro e ∨ Joined s)) := by
  refine ⟨?_, seen_iff h⟩
  rw [needs_iff_seen]

/-- A comment with an apostrophe before a path. -/
def commented : Text := "// don't\nauthor.name = 'x'"

/-- Blanks around the dot of a path. -/
def spaced : Text := "author . name = 'x'"

/-- The tree of both. -/
def authorName : Expr :=
  .one (.one (.comparison ⟨.fieldPath ⟨"author", ["name"], by simp⟩, .eq, .string "'x'"⟩))

theorem parseText_of_lex {e : Expr} (h : lex s = some e.tokens) : parseText s = some e := by
  rw [parseText, h]
  exact parseTokens_eq_some.2 rfl

theorem parseText_commented : parseText commented = some authorName :=
  parseText_of_lex (by decide)

theorem parseText_spaced : parseText spaced = some authorName :=
  parseText_of_lex (by decide)

theorem readsRelations_authorName : ReadsRelations authorName := ⟨_, List.mem_cons_self, rfl⟩

theorem index_loaded_spaced :
    ((ReadsRelations authorName → filterNeedsRelationIndex spaced = true) ↔
      (ReadsRelations authorName → Seen spaced)) ∧
    (ClosesQuotes spaced → (Seen spaced ↔ HasCollectionMacro authorName ∨ Joined spaced)) :=
  index_loaded_iff parseText_spaced

/-- The quote in the comment hides the path after it. -/
theorem path_overlooked : ¬∀ (s : Text) (e : Expr), parseText s = some e → ReadsRelations e →
    filterNeedsRelationIndex s = true := by
  intro h
  have hloaded := h commented authorName parseText_commented readsRelations_authorName
  exact absurd hloaded (by decide)

end IndexDetection

end PPBase
