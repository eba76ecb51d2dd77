import PPBase.RangeServing

/-!
# The SQL console

`splitStatements` reads a script token by token and splits it at the semicolons between them; what
is not its own regular expressions' concern, such as a closing quote that never comes, ends with the
script. `split_ok_iff` : it gives a list of statements exactly if no token begins with a digit
outside ASCII (`ForeignDigit`), for which the expression of a number finds no match, and each token
takes a character, so that it ends. `foreign_digit_raises` : a superscript two.
-/

namespace PPBase

namespace SqlConsole

open RangeServing (decimal?)

/-- What Python knows of characters beyond ASCII. -/
structure CharClasses where
  isalpha : Char → Bool
  isalnum : Char → Bool
  upper : Text → Text

/-- How the splitter fails. -/
inductive SplitError
  | attributeError
  | outOfFuel
  deriving DecidableEq

/-! ## Tokens -/

/-- `_skip_quoted`, after the opening quote : what is left after the closing one. -/
def skipQuoted (quote : Char) (backslashEscapes : Bool) : Text → Text
  | [] => []
  | [_] => []
  | c :: d :: s =>
    if backslashEscapes && c = '\\' then skipQuoted quote backslashEscapes s
    else if c = quote then
      if d = quote then skipQuoted quote backslashEscapes s else d :: s
    else skipQuoted quote backslashEscapes (d :: s)

/-- What is left after a comment of some depth. -/
def skipComment : ℕ → Text → Text
  | 0, s => s
  | _ + 1, [] => []
  | depth + 1, '/' :: '*' :: s => skipComment (depth + 2) s
  | depth + 1, '*' :: '/' :: s => skipComment depth s
  | depth + 1, _ :: s => skipComment (depth + 1) s

/-- The name of a dollar tag, after its first `$`. -/
def dollarTag? (s : Text) : Option Text :=
  let tag := s.takeWhile Text.isIdentChar
  if (s.drop tag.length).head? = some '$' ∧ tag.head?.all Text.isIdentStart then some tag
  else none

/-- What is left after a dollar-quoted text, after its first `$`. -/
def skipDollar (tag s : Text) : Text :=
  ((Text.partition? ('$' :: tag ++ ['$']) (s.drop (tag.length + 1))).map Prod.snd).getD []

structure Token where
  rest : Text
  word : Option Text := none
  hasContent : Bool := true
  separates : Bool := false
  deriving DecidableEq

/-- `[0-9A-Za-z_.]` -/
def isNumberChar (c : Char) : Bool := Text.isIdentChar c || c == '.'

variable (T : CharClasses)

/-- `\w` -/
def isWord (c : Char) : Bool := T.isalnum c || c == '_'

/-- The quote before `rest` opens a string with escapes. -/
def escapeString (sql rest : Text) : Bool :=
  let i := sql.length - rest.length
  let prev := if 0 < i then sql[i - 1]? else none
  let beforePrev := if 1 < i then sql[i - 2]? else none
  -- The empty string, before the script, is in `"eE"` too.
  prev.all (fun c => c = 'e' || c = 'E') && !(beforePrev.any (isWord T))

/-- One turn of the loop of `split_statements`, at a character. -/
def token (sql : Text) (ch : Char) (s : Text) : Except SplitError Token :=
  if ch = '-' ∧ s.head? = some '-' then
    .ok { rest := (s.dropWhile (· ≠ '\n')).drop 1, hasContent := false }
  else if ch = '/' ∧ s.head? = some '*' then
    .ok { rest := skipComment 1 (s.drop 1), hasContent := false }
  else if ch = '\'' then .ok { rest := skipQuoted '\'' (escapeString T sql (ch :: s)) s }
  else if ch = '"' then .ok { rest := skipQuoted '"' false s }
  else if ch = '$' ∧ (dollarTag? s).isSome then
    .ok { rest := skipDollar ((dollarTag? s).getD []) s }
  else if ch = ';' then .ok { rest := s, hasContent := false, separates := true }
  else if RangeServing.isdigit [ch] then
    if ch.isDigit then .ok { rest := s.dropWhile isNumberChar } else .error .attributeError
  else if (T.isalpha ch || ch == '_') && isWord T ch && (decimal? ch).isNone then
    .ok { rest := s.dropWhile fun c => isWord T c || c == '$'
          word := some (T.upper (ch :: s.takeWhile fun c => isWord T c || c == '$')) }
  else
    .ok { rest := s
          word := if ch = '(' ∨ ch = ')' then some [ch] else none
          hasContent := !Text.isSpace ch }

/-! ## Splitting -/

/-- The variables of `split_statements`, with what is left of the script at `start`. -/
structure Splitting where
  statements : List (Text × List Text) := []
  words : List Text := []
  hasContent : Bool := false
  start : Text

/-- `flush` -/
def Splitting.flush (st : Splitting) (rest : Text) : Splitting :=
  let text := Text.strip (st.start.take (st.start.length - rest.length))
  { st with
    statements := if st.hasContent && text ≠ [] then st.statements ++ [(text, st.words)]
      else st.statements
    words := []
    hasContent := false }

def Splitting.add (st : Splitting) (t : Token) : Splitting :=
  { st with words := st.words ++ t.word.toList, hasContent := st.hasContent || t.hasContent }

/-- The loop of `split_statements`. -/
def splitFrom (sql : Text) : ℕ → Text → Splitting → Except SplitError Splitting
  | _, [], st => .ok (st.flush [])
  | 0, _ :: _, _ => .error .outOfFuel
  | fuel + 1, ch :: s, st => do
    let t ← token T sql ch s
    if t.separates then splitFrom sql fuel t.rest { st.flush (ch :: s) with start := t.rest }
    else splitFrom sql fuel t.rest (st.add t)

/-- `split_statements` -/
def splitStatements (sql : Text) : Except SplitError (List (Text × List Text)) :=
  (splitFrom T sql sql.length sql { start := sql }).map Splitting.statements

/-! ## Progress -/

theorem length_skipQuoted_le (quote : Char) (escapes : Bool) (s : Text) :
    (skipQuoted quote escapes s).length ≤ s.length := by
  fun_induction skipQuoted quote escapes s <;> grind

theorem length_skipComment_le (depth : ℕ) (s : Text) :
    (skipComment depth s).length ≤ s.length := by
  induction depth, s using skipComment.induct <;> grind [skipComment]

theorem length_afterPrefix?_le {p s r : Text} (h : Text.afterPrefix? p s = some r) :
    r.length ≤ s.length := by
  induction p generalizing s with
  | nil => rw [← Option.some.inj h]
  | cons c p ih =>
    cases s with
    | nil => cases h
    | cons d s =>
      rw [Text.afterPrefix?] at h
      split_ifs at h
      exact (ih h).trans (Nat.le_succ _)

theorem length_partition?_le {p s a b : Text} (h : Text.partition? p s = some (a, b)) :
    b.length ≤ s.length := by
  induction s generalizing a b with
  | nil =>
    obtain ⟨r, hr, heq⟩ := Option.map_eq_some_iff.1 h
    obtain ⟨-, rfl⟩ := Prod.mk.inj heq
    exact length_afterPrefix?_le hr
  | cons c s ih =>
    rw [Text.partition?] at h
    split at h
    · rename_i r hr
      obtain ⟨-, rfl⟩ := Prod.mk.inj (Option.some.inj h)
      exact length_afterPrefix?_le hr
    · obtain ⟨q, hq, heq⟩ := Option.map_eq_some_iff.1 h
      obtain ⟨-, rfl⟩ := Prod.mk.inj heq
      exact (ih hq).trans (Nat.le_succ _)

theorem length_skipDollar_le (tag s : Text) : (skipDollar tag s).length ≤ s.length := by
  unfold skipDollar
  cases h : Text.partition? ('$' :: tag ++ ['$']) (s.drop (tag.length + 1)) with
  | none => exact Nat.zero_le _
  | some p =>
    have hle := length_partition?_le h
    rw [List.length_drop] at hle
    exact hle.trans (Nat.sub_le _ _)

variable {T}

/-- A token takes its first character. -/
theorem length_token_le {sql : Text} {ch : Char} {s : Text} {t : Token}
    (h : token T sql ch s = .ok t) : t.rest.length ≤ s.length := by
  have hdrop : ∀ (p : Char → Bool), (s.dropWhile p).length ≤ s.length := fun p =>
    (List.dropWhile_suffix p).length_le
  have hle : ∀ n, (s.drop n).length ≤ s.length := fun n => (List.drop_suffix n s).length_le
  unfold token at h
  split_ifs at h <;> obtain rfl := Except.ok.inj h
  · exact ((List.drop_suffix _ _).length_le).trans (hdrop _)
  · exact (length_skipComment_le _ _).trans (hle _)
  · exact length_skipQuoted_le _ _ _
  · exact length_skipQuoted_le _ _ _
  · exact length_skipDollar_le _ _
  · exact le_rfl
  · exact hdrop _
  · exact hdrop _
  · exact le_rfl
  · exact le_rfl

/-! ## When the splitter fails -/

/-- A digit, but none of `0-9`. -/
def ForeignDigit (c : Char) : Prop := RangeServing.isdigit [c] = true ∧ c.isDigit = false

/-- The splitter fails at such a digit, and nowhere else. -/
theorem token_cases (T : CharClasses) (sql : Text) (ch : Char) (s : Text) :
    (ForeignDigit ch ∧ token T sql ch s = .error .attributeError) ∨
    (¬ForeignDigit ch ∧ ∃ t, token T sql ch s = .ok t) := by
  have hforeign : ∀ c ∈ ['-', '/', '\'', '"', '$', ';'], ¬ForeignDigit c := by
    unfold ForeignDigit
    decide
  by_cases hc : ch ∈ ['-', '/', '\'', '"', '$', ';']
  · refine .inr ⟨hforeign ch hc, ?_⟩
    have hdigit : RangeServing.isdigit [ch] = false := by
      revert ch
      decide
    unfold token
    simp only [hdigit, Bool.false_eq_true, if_false]
    split_ifs <;> exact ⟨_, rfl⟩
  · simp only [List.mem_cons, List.not_mem_nil, or_false, not_or] at hc
    obtain ⟨hminus, hslash, hquote, hdouble, hdollar, hsemicolon⟩ := hc
    unfold token ForeignDigit
    simp only [hminus, hslash, hquote, hdouble, hdollar, hsemicolon, false_and, if_false]
    cases RangeServing.isdigit [ch] <;> cases ch.isDigit
    · simp only [Bool.false_eq_true, if_false]
      exact .inr ⟨by simp, by split_ifs <;> exact ⟨_, rfl⟩⟩
    · simp only [Bool.false_eq_true, if_false]
      exact .inr ⟨by simp, by split_ifs <;> exact ⟨_, rfl⟩⟩
    · exact .inl ⟨⟨rfl, rfl⟩, rfl⟩
    · exact .inr ⟨by simp, _, rfl⟩

variable (T) in
/-- One token, from what is left to what is left after it. -/
def Follows (sql a b : Text) : Prop :=
  ∃ ch s t, a = ch :: s ∧ token T sql ch s = .ok t ∧ b = t.rest

variable (T) in
/-- What is left of the script where a token begins. -/
def TokenStart (sql rest : Text) : Prop := Relation.ReflTransGen (Follows T sql) sql rest

/-- The loop from where a token begins, with fuel for what is left. -/
theorem splitFrom_cases {sql rest : Text} {fuel : ℕ} (hfuel : rest.length ≤ fuel)
    (st : Splitting) :
    ((∃ out, splitFrom T sql fuel rest st = .ok out) ∧
      ∀ ch s, Relation.ReflTransGen (Follows T sql) rest (ch :: s) → ¬ForeignDigit ch) ∨
    (splitFrom T sql fuel rest st = .error .attributeError ∧
      ∃ ch s, Relation.ReflTransGen (Follows T sql) rest (ch :: s) ∧ ForeignDigit ch) := by
  induction fuel generalizing rest st with
  | zero =>
    obtain rfl := List.length_eq_zero_iff.1 (Nat.le_zero.1 hfuel)
    refine .inl ⟨⟨_, rfl⟩, fun ch s h => ?_⟩
    rcases Relation.ReflTransGen.cases_head h with h | ⟨_, ⟨_, _, _, h, -⟩, -⟩ <;> cases h
  | succ fuel ih =>
    cases rest with
    | nil =>
      refine .inl ⟨⟨_, rfl⟩, fun ch s h => ?_⟩
      rcases Relation.ReflTransGen.cases_head h with h | ⟨_, ⟨_, _, _, h, -⟩, -⟩ <;> cases h
    | cons ch s =>
      rcases token_cases T sql ch s with ⟨hforeign, htoken⟩ | ⟨hforeign, t, htoken⟩
      · refine .inr ⟨?_, ch, s, .refl, hforeign⟩
        rw [splitFrom, htoken]
        rfl
      · have hle : t.rest.length ≤ fuel :=
          (length_token_le htoken).trans (Nat.le_of_succ_le_succ hfuel)
        obtain ⟨st', hst'⟩ : ∃ st', splitFrom T sql (fuel + 1) (ch :: s) st =
            splitFrom T sql fuel t.rest st' := by
          rw [splitFrom, htoken]
          by_cases hsep : t.separates = true
          · exact ⟨_, if_pos hsep⟩
          · exact ⟨_, if_neg hsep⟩
        have hstep : Follows T sql (ch :: s) t.rest := ⟨ch, s, t, rfl, htoken, rfl⟩
        rw [hst']
        refine (ih hle st').imp (fun h => ⟨h.1, fun d r hd => ?_⟩) fun h => ⟨h.1, ?_⟩
        · rcases Relation.ReflTransGen.cases_head hd with
            heq | ⟨b, ⟨c', s', t', heq, ht', rfl⟩, hb⟩
          · obtain ⟨rfl, -⟩ := List.cons.inj heq
            exact hforeign
          · obtain ⟨rfl, rfl⟩ := List.cons.inj heq
            rw [htoken] at ht'
            obtain rfl := Except.ok.inj ht'
            exact h.2 d r hb
        · obtain ⟨d, r, hd, hdigit⟩ := h.2
          exact ⟨d, r, .head hstep hd, hdigit⟩

/-- The splitter ends, and gives a list exactly if no token begins with a digit outside ASCII. -/
theorem split_ok_iff (T : CharClasses) (sql : Text) :
    splitStatements T sql ≠ .error .outOfFuel ∧
    ((∃ out, splitStatements T sql = .ok out) ↔
      ∀ ch s, TokenStart T sql (ch :: s) → ¬ForeignDigit ch) := by
  unfold splitStatements TokenStart
  rcases splitFrom_cases (T := T) le_rfl { start := sql } with
    ⟨⟨out, hout⟩, hnone⟩ | ⟨herror, ch, s, hstart, hdigit⟩
  · rw [hout]
    exact ⟨nofun, iff_of_true ⟨_, rfl⟩ hnone⟩
  · rw [herror]
    exact ⟨nofun, iff_of_false nofun fun hnone => hnone ch s hstart hdigit⟩

/-- The classes of ASCII. -/
def CharClasses.ascii : CharClasses := ⟨Char.isAlpha, Char.isAlphanum, List.map Char.toUpper⟩

/-- A superscript two. -/
theorem foreign_digit_raises :
    splitStatements CharClasses.ascii ['S', 'E', 'L', 'E', 'C', 'T', ' ', '²'] =
      .error .attributeError := by
  decide

end SqlConsole

end PPBase
