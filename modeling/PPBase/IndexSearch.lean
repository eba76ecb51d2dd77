import PPBase.Realtime

/-!
# The search for relations in a filter

`_filter_needs_relation_index` reads a filter twice, apart from the grammar : it blanks what stands
in quotes, drops the comments of what is left, and looks for `@collection.` or a dotted path in the
rest. `Reading` is where the two passes stand after a part of the text. The search over the rest is
the search over the places of the text that are looked at (`finds_rest_iff`), so the index is loaded
exactly if such a text stands outside the quotes and comments as they are read (`needs_iff_seen`).
-/

namespace PPBase

namespace IndexDetection

open Lexer

/-! ## The two passes -/

/-- Where the pass over the comments stands. -/
inductive CommentState
  | text | slash | comment
  deriving DecidableEq

/-- Where the passes over the quotes and the comments stand. -/
structure Reading where
  quote : Option Char := none
  escaped : Bool := false
  comments : CommentState := .text

/-- A character as the pass over the quotes leaves it. -/
def shown (quote : Option Char) (c : Char) : Char :=
  if quote = none ∧ ¬(c = '\'' ∨ c = '"') then c else ' '

/-- The pass over the comments. -/
def CommentState.step : CommentState → Char → CommentState
  | .text, c => if c = '/' then .slash else .text
  | .slash, c => if c = '/' then .comment else .text
  | .comment, c => if c = '\n' then .text else .comment

namespace Reading

/-- Both passes over one character. -/
def step (r : Reading) (c : Char) : Reading :=
  let comments := r.comments.step (shown r.quote c)
  match r.quote, r.escaped with
  | some q, true => ⟨some q, false, comments⟩
  | some q, false =>
    if c = '\\' then ⟨some q, true, comments⟩
    else if c = q then ⟨none, false, comments⟩
    else ⟨some q, false, comments⟩
  | none, _ => if c = '\'' ∨ c = '"' then ⟨some c, false, comments⟩ else ⟨none, false, comments⟩

def after (r : Reading) (u : Text) : Reading := u.foldl step r

/-- What follows is looked at. -/
def Visible (r : Reading) : Prop := r.quote = none ∧ r.comments ≠ .comment

/-- Only quotes are open. -/
def Valid (r : Reading) : Prop := ∀ q ∈ r.quote, q = '\'' ∨ q = '"'

end Reading

/-- A character that a name or a path goes on from. -/
def continues (c : Char) : Bool := isMacroTail c || c = '@'

/-- What the search looks for starts here, after a previous character. -/
def Found (prev : Option Char) (v : Text) : Prop :=
  "@collection.".toList <+: v ∨ startsDottedPath v = true ∧ ∀ c ∈ prev, continues c = false

/-- Outside the quotes and comments, as they are read from `r` on, the text has what the search
looks for. -/
def SeenFrom (r : Reading) (last : Option Char) (t : Text) : Prop :=
  ∃ u v, t = u ++ v ∧ (r.after u).Visible ∧ Found (u.getLast?.or last) v

def Seen (s : Text) : Prop := SeenFrom {} none s

namespace Reading

/-- What the passes leave of the text that follows. -/
def rest (r : Reading) (t : Text) : Text :=
  match r.comments with
  | .text => dropComments false (blankQuotes r.quote r.escaped t)
  | .slash => dropComments false ('/' :: blankQuotes r.quote r.escaped t)
  | .comment => dropComments true (blankQuotes r.quote r.escaped t)

variable {r : Reading} {c : Char} {t : Text}

theorem blankQuotes_cons (r : Reading) (c : Char) (t : Text) :
    blankQuotes r.quote r.escaped (c :: t) =
    shown r.quote c :: blankQuotes (r.step c).quote (r.step c).escaped t := by
  obtain ⟨quote, escaped, comments⟩ := r
  unfold step shown
  cases quote with
  | none =>
    by_cases hc : c = '\'' ∨ c = '"'
    · simp [blankQuotes, hc]
    · simp [blankQuotes, hc]
  | some q =>
    cases escaped with
    | true => simp [blankQuotes]
    | false =>
      by_cases hb : c = '\\'
      · simp [blankQuotes, hb]
      · by_cases hq : c = q
        · subst hq
          simp [blankQuotes, hb]
        · simp [blankQuotes, hb, hq]

theorem comments_step : (r.step c).comments = r.comments.step (shown r.quote c) := by
  unfold step
  split
  · rfl
  · split_ifs <;> rfl
  · split_ifs <;> rfl

theorem rest_text (h : r.comments = .text) (hs : shown r.quote c ≠ '/') :
    r.rest (c :: t) = shown r.quote c :: (r.step c).rest t := by
  have hstep : (r.step c).comments = .text := by
    rw [comments_step, h, CommentState.step, if_neg hs]
  unfold rest
  rw [h, hstep]
  dsimp only
  rw [blankQuotes_cons, dropComments_cons (Or.inl hs)]

theorem rest_text_slash (h : r.comments = .text) (hs : shown r.quote c = '/') :
    r.rest (c :: t) = (r.step c).rest t := by
  have hstep : (r.step c).comments = .slash := by
    rw [comments_step, h, CommentState.step, if_pos hs]
  unfold rest
  rw [h, hstep]
  dsimp only
  rw [blankQuotes_cons, hs]

theorem rest_slash (h : r.comments = .slash) (hs : shown r.quote c ≠ '/') :
    r.rest (c :: t) = '/' :: shown r.quote c :: (r.step c).rest t := by
  have hstep : (r.step c).comments = .text := by
    rw [comments_step, h, CommentState.step, if_neg hs]
  unfold rest
  rw [h, hstep]
  dsimp only
  rw [blankQuotes_cons, dropComments_cons (Or.inr (by simpa using hs)),
    dropComments_cons (Or.inl hs)]

theorem rest_slash_slash (h : r.comments = .slash) (hs : shown r.quote c = '/') :
    r.rest (c :: t) = (r.step c).rest t := by
  have hstep : (r.step c).comments = .comment := by
    rw [comments_step, h, CommentState.step, if_pos hs]
  unfold rest
  rw [h, hstep]
  dsimp only
  rw [blankQuotes_cons, hs]
  rfl

theorem rest_comment (h : r.comments = .comment) (hs : shown r.quote c ≠ '\n') :
    r.rest (c :: t) = (r.step c).rest t := by
  have hstep : (r.step c).comments = .comment := by
    rw [comments_step, h, CommentState.step, if_neg hs]
  unfold rest
  rw [h, hstep]
  dsimp only
  rw [blankQuotes_cons, dropComments, if_neg hs]

theorem rest_comment_end (h : r.comments = .comment) (hs : shown r.quote c = '\n') :
    r.rest (c :: t) = '\n' :: (r.step c).rest t := by
  have hstep : (r.step c).comments = .text := by
    rw [comments_step, h, CommentState.step, if_pos hs]
  unfold rest
  rw [h, hstep]
  dsimp only
  rw [blankQuotes_cons, dropComments, if_pos hs, hs]

theorem rest_nil : r.rest [] = if r.comments = .slash then ['/'] else [] := by
  obtain ⟨quote, escaped, comments⟩ := r
  cases comments <;> cases quote <;> cases escaped <;> rfl

/-- Only a slash that waits or the end of a comment is left in front. -/
theorem head?_rest (h : r.comments ≠ .text) : ∀ c ∈ (r.rest t).head?, c = '/' ∨ c = '\n' := by
  induction t generalizing r with
  | nil =>
    rw [rest_nil]
    split_ifs
    · exact fun c hc => Or.inl (Option.some.inj hc).symm
    · exact fun c hc => nomatch hc
  | cons d t ih =>
    cases hr : r.comments with
    | text => exact absurd hr h
    | slash =>
      by_cases hs : shown r.quote d = '/'
      · rw [rest_slash_slash hr hs]
        refine ih ?_
        rw [comments_step, hr, CommentState.step, if_pos hs]
        decide
      · rw [rest_slash hr hs]
        exact fun c hc => Or.inl (Option.some.inj hc).symm
    | comment =>
      by_cases hs : shown r.quote d = '\n'
      · rw [rest_comment_end hr hs]
        exact fun c hc => Or.inr (Option.some.inj hc).symm
      · rw [rest_comment hr hs]
        refine ih ?_
        rw [comments_step, hr, CommentState.step, if_neg hs]
        decide

theorem shown_none : shown none c = c ∨ shown none c = ' ' ∧ (c = '\'' ∨ c = '"') := by
  unfold shown
  by_cases hc : c = '\'' ∨ c = '"'
  · exact Or.inr ⟨if_neg fun h => h.2 hc, hc⟩
  · exact Or.inl (if_pos ⟨rfl, hc⟩)

/-- Outside the quotes a character that is none stays. -/
theorem step_plain (hr : r.quote = none) (hc : ¬(c = '\'' ∨ c = '"')) :
    (r.step c).quote = none := by
  obtain ⟨quote, escaped, comments⟩ := r
  obtain rfl : quote = none := hr
  simp [step, hc]

/-- In the text the first character is left as it is, if it is no quote and no slash. -/
theorem rest_plain (hq : r.quote = none) (hr : r.comments = .text)
    (hc : ¬(c = '\'' ∨ c = '"') ∧ c ≠ '/') : r.rest (c :: t) = c :: (r.step c).rest t ∧
      (r.step c).quote = none ∧ (r.step c).comments = .text := by
  have hshown : shown r.quote c = c := if_pos ⟨hq, hc.1⟩
  have hne : shown r.quote c ≠ '/' := by rw [hshown]; exact hc.2
  refine ⟨by rw [rest_text hr hne, hshown], step_plain hq hc.1, ?_⟩
  rw [comments_step, hr, CommentState.step, if_neg hne]

/-- What is left in front of any other text is a blank, a slash or the end of a comment. -/
theorem head?_rest_of_not_plain (hq : r.quote = none) (hr : r.comments = .text)
    (hc : ¬(¬(c = '\'' ∨ c = '"') ∧ c ≠ '/')) :
    ∀ d ∈ (r.rest (c :: t)).head?, d = ' ' ∨ d = '/' ∨ d = '\n' := by
  rw [not_and_or, not_not, not_not] at hc
  rcases hc with hc | rfl
  · have hshown : shown r.quote c = ' ' := if_neg fun h => h.2 hc
    rw [rest_text hr (by rw [hshown]; decide), hshown]
    exact fun d hd => Or.inl (Option.some.inj hd).symm
  · have hshown : shown r.quote '/' = '/' := if_pos ⟨hq, by decide⟩
    rw [rest_text_slash hr hshown]
    refine fun d hd => Or.inr (head?_rest ?_ d hd)
    rw [comments_step, hr, CommentState.step, if_pos hshown]
    decide

end Reading

/-! ## What is found -/

open Reading

/-- A character that the passes leave as it is, other than a blank and a newline. -/
def IsPlain (c : Char) : Prop := c ≠ '\'' ∧ c ≠ '"' ∧ c ≠ '/' ∧ c ≠ ' ' ∧ c ≠ '\n'

theorem IsPlain.kept {c : Char} (h : IsPlain c) : ¬(c = '\'' ∨ c = '"') ∧ c ≠ '/' :=
  ⟨not_or.2 ⟨h.1, h.2.1⟩, h.2.2.1⟩

theorem isPlain_of_isIdentTail {c : Char} (h : isIdentTail c = true) : IsPlain c := by
  refine ⟨?_, ?_, ?_, ?_, ?_⟩ <;> rintro rfl <;> exact absurd h (by decide)

theorem isIdentTail_of_isIdentStart {c : Char} (h : Text.isIdentStart c = true) :
    isIdentTail c = true := by
  simp [isIdentTail, Text.isIdentChar, h]

variable {r : Reading} {c : Char} {t : Text}

theorem isIdentTail_of_isDigit (h : c.isDigit = true) : isIdentTail c = true := by
  simp [isIdentTail, Text.isIdentChar, h]

/-- A plain text starts the rest where it starts the text. -/
theorem prefix_rest_iff {p : Text} (hp : ∀ c ∈ p, IsPlain c) (hq : r.quote = none)
    (hr : r.comments = .text) : p <+: r.rest t ↔ p <+: t := by
  induction p generalizing r t with
  | nil => exact iff_of_true (List.nil_prefix) (List.nil_prefix)
  | cons a p ih =>
    obtain ⟨ha, hp⟩ := List.forall_mem_cons.1 hp
    cases t with
    | nil =>
      rw [rest_nil, hr, if_neg (by decide)]
    | cons c t =>
      by_cases hc : ¬(c = '\'' ∨ c = '"') ∧ c ≠ '/'
      · obtain ⟨hrest, hq', hr'⟩ := rest_plain (t := t) hq hr hc
        rw [hrest, List.cons_prefix_cons, List.cons_prefix_cons, ih hp hq' hr']
      · refine iff_of_false ?_ ?_
        · rintro ⟨w, hw⟩
          have hhead := head?_rest_of_not_plain (t := t) hq hr hc a (by rw [← hw]; rfl)
          rcases hhead with h | h | h
          · exact ha.2.2.2.1 h
          · exact ha.2.2.1 h
          · exact ha.2.2.2.2 h
        · intro hpre
          obtain rfl := (List.cons_prefix_cons.1 hpre).1
          exact hc ha.kept

/-- The tail of a segment, a dot and the start of another one. -/
def pathGoesOn (t : Text) : Bool :=
  match t.dropWhile isIdentTail with
  | '.' :: d :: _ => Text.isIdentStart d
  | _ => false

theorem pathGoesOn_tail (h : isIdentTail c = true) : pathGoesOn (c :: t) = pathGoesOn t := by
  unfold pathGoesOn
  rw [List.dropWhile_cons_of_pos h]

theorem pathGoesOn_dot : pathGoesOn ('.' :: t) = t.head?.any Text.isIdentStart := by
  unfold pathGoesOn
  rw [List.dropWhile_cons_of_neg (by decide)]
  cases t <;> rfl

theorem pathGoesOn_other (h : isIdentTail c = false) (hdot : c ≠ '.') :
    pathGoesOn (c :: t) = false := by
  unfold pathGoesOn
  rw [List.dropWhile_cons_of_neg (by simp [h])]
  split
  · rename_i heq
    exact absurd (List.cons.inj heq).1 hdot
  · rfl

theorem startsDottedPath_cons :
    startsDottedPath (c :: t) = (Text.isIdentStart c && pathGoesOn t) := rfl

theorem any_head?_rest (hq : r.quote = none) (hr : r.comments = .text) :
    (r.rest t).head?.any Text.isIdentStart = t.head?.any Text.isIdentStart := by
  cases t with
  | nil => rw [rest_nil, hr, if_neg (by decide)]
  | cons c t =>
    by_cases hc : ¬(c = '\'' ∨ c = '"') ∧ c ≠ '/'
    · rw [(rest_plain hq hr hc).1]
      rfl
    · have hstart : Text.isIdentStart c = false := by
        rw [Bool.eq_false_iff]
        exact fun h => hc (isPlain_of_isIdentTail (isIdentTail_of_isIdentStart h)).kept
      rw [List.head?_cons, Option.any_some, hstart]
      cases hhead : (r.rest (c :: t)).head? with
      | none => rfl
      | some d =>
        rcases head?_rest_of_not_plain hq hr hc d hhead with rfl | rfl | rfl <;> decide

theorem pathGoesOn_rest (hq : r.quote = none) (hr : r.comments = .text) :
    pathGoesOn (r.rest t) = pathGoesOn t := by
  induction t generalizing r with
  | nil => rw [rest_nil, hr, if_neg (by decide)]
  | cons c t ih =>
    by_cases hc : ¬(c = '\'' ∨ c = '"') ∧ c ≠ '/'
    · obtain ⟨hrest, hq', hr'⟩ := rest_plain (t := t) hq hr hc
      rw [hrest]
      by_cases htail : isIdentTail c = true
      · rw [pathGoesOn_tail htail, pathGoesOn_tail htail, ih hq' hr']
      · by_cases hdot : c = '.'
        · subst hdot
          rw [pathGoesOn_dot, pathGoesOn_dot, any_head?_rest hq' hr']
        · rw [Bool.not_eq_true] at htail
          rw [pathGoesOn_other htail hdot, pathGoesOn_other htail hdot]
    · have htail : isIdentTail c = false := by
        rw [Bool.eq_false_iff]
        exact fun h => hc (isPlain_of_isIdentTail h).kept
      have hdot : c ≠ '.' := by
        rintro rfl
        exact hc (by decide)
      rw [pathGoesOn_other htail hdot]
      have hhead := head?_rest_of_not_plain (t := t) hq hr hc
      cases hrest : r.rest (c :: t) with
      | nil => rfl
      | cons d w =>
        rw [hrest] at hhead
        rcases hhead d rfl with rfl | rfl | rfl <;> exact pathGoesOn_other (by decide) (by decide)

variable {prev last : Option Char}

/-- Where the text is looked at, what is left of it starts as it does. -/
theorem found_rest_iff (hq : r.quote = none) (hr : r.comments = .text) :
    Found prev (r.rest t) ↔ Found prev t := by
  have hcoll : ∀ c ∈ "@collection.".toList, IsPlain c := by
    intro c hc
    refine ⟨?_, ?_, ?_, ?_, ?_⟩ <;> rintro rfl <;> exact absurd hc (by decide)
  have hpath : startsDottedPath (r.rest t) = startsDottedPath t := by
    cases t with
    | nil => rw [rest_nil, hr, if_neg (by decide)]
    | cons c t =>
      by_cases hc : ¬(c = '\'' ∨ c = '"') ∧ c ≠ '/'
      · obtain ⟨hrest, hq', hr'⟩ := rest_plain (t := t) hq hr hc
        rw [hrest, startsDottedPath_cons, startsDottedPath_cons, pathGoesOn_rest hq' hr']
      · have hstart : Text.isIdentStart c = false := by
          rw [Bool.eq_false_iff]
          exact fun h => hc (isPlain_of_isIdentTail (isIdentTail_of_isIdentStart h)).kept
        rw [startsDottedPath_cons, hstart, Bool.false_and]
        have hhead := head?_rest_of_not_plain (t := t) hq hr hc
        cases hrest : r.rest (c :: t) with
        | nil => rfl
        | cons d w =>
          rw [hrest] at hhead
          rcases hhead d rfl with rfl | rfl | rfl <;> rfl
  unfold Found
  rw [prefix_rest_iff hcoll hq hr, hpath]

/-- Nothing starts with another character. -/
theorem not_found (h : c ≠ '@' ∧ Text.isIdentStart c = false) : ¬Found prev (c :: t) := by
  rintro (⟨w, hw⟩ | ⟨hpath, -⟩)
  · exact h.1 (List.cons.inj hw).1.symm
  · rw [startsDottedPath_cons, h.2] at hpath
    cases hpath

theorem not_found_nil : ¬Found prev [] := by
  rintro (⟨w, hw⟩ | ⟨hpath, -⟩)
  · cases hw
  · cases hpath

/-- `"@collection." in expression or _DOTTED_FILTER_PATH_RE.search(expression)` -/
def Finds (prev : Option Char) (x : Text) : Prop :=
  Text.contains "@collection." x = true ∨ hasDottedPath prev x = true

theorem not_finds_nil : ¬Finds prev [] := by
  rintro (h | h)
  · exact absurd h (by decide)
  · cases h

theorem finds_cons {x : Text} : Finds prev (c :: x) ↔ Found prev (c :: x) ∨ Finds (some c) x := by
  have hcoll : Text.contains "@collection." (c :: x) = true ↔
      "@collection.".toList <+: c :: x ∨ Text.contains "@collection." x = true := by
    rw [Text.contains, Bool.or_eq_true, Option.isSome_iff_exists]
    refine or_congr ⟨?_, ?_⟩ Iff.rfl
    · rintro ⟨w, hw⟩
      exact ⟨w, (Text.afterPrefix?_eq_some.1 hw).symm⟩
    · rintro ⟨w, hw⟩
      exact ⟨w, Text.afterPrefix?_eq_some.2 hw.symm⟩
  have hpath : hasDottedPath prev (c :: x) = true ↔
      (startsDottedPath (c :: x) = true ∧ ∀ d ∈ prev, continues d = false) ∨
        hasDottedPath (some c) x = true := by
    rw [hasDottedPath, Bool.or_eq_true, Bool.and_eq_true, and_comm, Bool.not_eq_true']
    refine or_congr (and_congr Iff.rfl ?_) Iff.rfl
    cases prev with
    | none => exact iff_of_true rfl (by rintro _ ⟨⟩)
    | some d => simp [continues]
  unfold Finds Found
  rw [hcoll, hpath]
  tauto

theorem seenFrom_nil : ¬SeenFrom r last [] := by
  rintro ⟨u, v, h, -, hfound⟩
  obtain ⟨rfl, rfl⟩ := List.append_eq_nil_iff.1 h.symm
  exact not_found_nil hfound

theorem seenFrom_cons :
    SeenFrom r last (c :: t) ↔
      (r.Visible ∧ Found last (c :: t)) ∨ SeenFrom (r.step c) (some c) t := by
  have hlast : ∀ u : Text, (c :: u).getLast?.or last = u.getLast?.or (some c) := by
    intro u
    rw [List.getLast?_cons]
    cases u.getLast? <;> rfl
  constructor
  · rintro ⟨u, v, h, hvisible, hfound⟩
    cases u with
    | nil =>
      obtain rfl : c :: t = v := h
      exact Or.inl ⟨hvisible, hfound⟩
    | cons d u =>
      obtain ⟨rfl, rfl⟩ := List.cons.inj h
      rw [hlast] at hfound
      exact Or.inr ⟨u, v, rfl, hvisible, hfound⟩
  · rintro (⟨hvisible, hfound⟩ | ⟨u, v, rfl, hvisible, hfound⟩)
    · exact ⟨[], c :: t, rfl, hvisible, hfound⟩
    · refine ⟨c :: u, v, rfl, hvisible, ?_⟩
      rw [hlast]
      exact hfound

/-- The last character that was left, where the last character of the text is `last`. -/
structure Follows (r : Reading) (prev last : Option Char) : Prop where
  valid : r.Valid
  text : r.quote = none → r.comments = .text →
    ((∀ d ∈ prev, continues d = false) ↔ ∀ d ∈ last, continues d = false)
  slash : r.comments = .slash → ∀ d ∈ last, continues d = false

theorem valid_step (h : r.Valid) : (r.step c).Valid := by
  obtain ⟨quote, escaped, comments⟩ := r
  unfold Reading.step
  dsimp only
  split
  · exact h
  · split_ifs
    · exact h
    · exact fun q hq => nomatch hq
    · exact h
  · split_ifs with hc
    · intro q hq
      obtain rfl := Option.some.inj hq
      exact hc
    · exact fun q hq => nomatch hq

/-- A quote is closed by itself. -/
theorem eq_of_step {q : Char} (hq : r.quote = some q) (h : (r.step c).quote = none) : c = q := by
  obtain ⟨quote, escaped, comments⟩ := r
  obtain rfl : quote = some q := hq
  unfold Reading.step at h
  cases escaped with
  | true => cases h
  | false =>
    dsimp only at h
    split_ifs at h with hb hc
    exact hc

theorem continues_quote (h : c = '\'' ∨ c = '"') : continues c = false := by
  rcases h with rfl | rfl <;> decide

/-- A character that is left stands for itself, or for a quote. -/
theorem follows_step (hr : r.Valid) (htext : (r.step c).comments = .text) :
    Follows (r.step c) (some (shown r.quote c)) (some c) where
  valid := valid_step hr
  text := by
    intro hquote _
    have hcontinues : continues (shown r.quote c) = continues c := by
      cases hq : r.quote with
      | none =>
        rcases shown_none with h | ⟨h, hc⟩
        · rw [h]
        · rw [h, continues_quote hc]
          decide
      | some q =>
        have hshown : shown (some q) c = ' ' := if_neg fun h => nomatch h.1
        rw [hshown, eq_of_step hq hquote, continues_quote (hr q hq)]
        decide
    simp only [Option.mem_some_iff, forall_eq', hcontinues]
  slash h := nomatch htext.symm.trans h

theorem follows_comment (hr : r.Valid) (h : r.comments = .comment) : Follows r prev last where
  valid := hr
  text _ htext := nomatch h.symm.trans htext
  slash hslash := nomatch h.symm.trans hslash

theorem eq_of_shown {quote : Option Char} {d : Char} (h : shown quote c = d) (hd : d ≠ ' ') :
    quote = none ∧ c = d := by
  unfold shown at h
  split_ifs at h with hc
  · exact ⟨hc.1, h⟩
  · exact absurd h.symm hd

/-- The search over what the passes leave is the search over the places that are looked at. -/
theorem finds_rest_iff (h : Follows r prev last) : Finds prev (r.rest t) ↔ SeenFrom r last t := by
  induction t generalizing r prev last with
  | nil =>
    rw [rest_nil]
    refine iff_of_false ?_ seenFrom_nil
    split_ifs
    · rw [finds_cons]
      exact not_or.2 ⟨not_found (by decide), not_finds_nil⟩
    · exact not_finds_nil
  | cons c t ih =>
    rw [seenFrom_cons]
    -- A character that is left : found there, or further on.
    have hleft : ∀ {prev' : Option Char}, shown r.quote c ≠ '/' → r.comments ≠ .comment →
        (r.quote = none → ((∀ d ∈ prev', continues d = false) ↔ ∀ d ∈ last, continues d = false)) →
        (Finds prev' (shown r.quote c :: (r.step c).rest t) ↔
          (r.Visible ∧ Found last (c :: t)) ∨ SeenFrom (r.step c) (some c) t) := by
      intro prev' hs hcomments hprev
      have htext : (r.step c).comments = .text := by
        rw [comments_step]
        cases hk : r.comments with
        | text => exact if_neg hs
        | slash => exact if_neg hs
        | comment => exact absurd hk hcomments
      rw [finds_cons, ih (follows_step h.valid htext)]
      refine or_congr ?_ Iff.rfl
      cases hq : r.quote with
      | none =>
        have hvisible : r.Visible := ⟨hq, hcomments⟩
        rw [and_iff_right hvisible]
        let r₀ : Reading := ⟨none, r.escaped, .text⟩
        have hstep : r₀.step c = r.step c := by
          obtain ⟨quote, escaped, comments⟩ := r
          obtain rfl : quote = none := hq
          have hk : r₀.comments.step (shown none c) = comments.step (shown none c) := by
            rw [← comments_step (r := ⟨none, escaped, comments⟩), htext]
            exact if_neg hs
          unfold Reading.step
          dsimp only
          rw [hk]
        have hrest : r₀.rest (c :: t) = shown none c :: (r.step c).rest t := by
          rw [← hstep]
          rw [hq] at hs
          exact rest_text rfl hs
        rw [← hrest, found_rest_iff rfl rfl]
        unfold Found
        rw [hprev hq]
      | some q =>
        refine iff_of_false ?_ fun hv => nomatch hq.symm.trans hv.1.1
        have hshown : shown (some q) c = ' ' := if_neg fun h => nomatch h.1
        rw [hshown]
        exact not_found (by decide)
    cases hk : r.comments with
    | text =>
      by_cases hs : shown r.quote c = '/'
      · obtain ⟨-, rfl⟩ := eq_of_shown hs (by decide)
        have hslash : (r.step '/').comments = .slash := by
          rw [comments_step, hk, CommentState.step, if_pos hs]
        have hnext : Follows (r.step '/') prev (some '/') :=
          { valid := valid_step h.valid
            text := fun _ htext => nomatch hslash.symm.trans htext
            slash := fun _ d hd => by
              obtain rfl := Option.some.inj hd
              decide }
        rw [rest_text_slash hk hs, ih hnext]
        exact (or_iff_right fun hv => not_found (by decide) hv.2).symm
      · rw [rest_text hk hs]
        exact hleft hs (by rw [hk]; decide) fun hq => h.text hq hk
    | slash =>
      by_cases hs : shown r.quote c = '/'
      · obtain ⟨-, rfl⟩ := eq_of_shown hs (by decide)
        have hcomment : (r.step '/').comments = .comment := by
          rw [comments_step, hk, CommentState.step, if_pos hs]
        rw [rest_slash_slash hk hs, ih (follows_comment (valid_step h.valid) hcomment)]
        exact (or_iff_right fun hv => not_found (by decide) hv.2).symm
      · rw [rest_slash hk hs, finds_cons, or_iff_right (not_found (by decide))]
        refine hleft hs (by rw [hk]; decide) fun _ => iff_of_true ?_ (h.slash hk)
        intro d hd
        obtain rfl := Option.some.inj hd
        decide
    | comment =>
      by_cases hs : shown r.quote c = '\n'
      · obtain ⟨-, rfl⟩ := eq_of_shown hs (by decide)
        have htext : (r.step '\n').comments = .text := by
          rw [comments_step, hk, CommentState.step, if_pos hs]
        have hnext := follows_step h.valid htext
        rw [hs] at hnext
        rw [rest_comment_end hk hs, finds_cons, or_iff_right (not_found (by decide)), ih hnext]
        exact (or_iff_right fun hv => hv.1.2 hk).symm
      · have hcomment : (r.step c).comments = .comment := by
          rw [comments_step, hk, CommentState.step, if_neg hs]
        rw [rest_comment hk hs, ih (follows_comment (valid_step h.valid) hcomment)]
        exact (or_iff_right fun hv => hv.1.2 hk).symm

/-- The index is loaded exactly if what the search looks for stands outside the quotes and
comments, as the two passes read them. -/
theorem needs_iff_seen {s : Text} : filterNeedsRelationIndex s = true ↔ Seen s := by
  have hstart : Follows {} none none :=
    { valid := fun q hq => nomatch hq
      text := fun _ _ => Iff.rfl
      slash := fun h => nomatch h }
  rw [Seen, ← finds_rest_iff hstart, Finds, ← Bool.or_eq_true]
  rfl

end IndexDetection

end PPBase
