import PPBase.Matcher
import PPBase.PgLexer

/-!
# Index statements

A `CREATE INDEX` statement is taken apart by two regular expressions, one for the name of the
index and one for its table (`indexStatementParts`), and put together with another table or
another name.

Keywords may be in either case, of ASCII. The letters and digits outside ASCII are a parameter. The
four characters outside ASCII that Python's `re.IGNORECASE` takes for an `i`, an `s` or a `k` are none
here.

`parts_managed` : a statement with its names between quotes comes apart into its names, as long
as they have no quotes themselves.
-/

namespace PPBase

/-! Over the characters of a text a property is decided one by one. -/

section

variable (p : Char → Prop) [DecidablePred p]

instance decidableForallChar (s : List Char) : Decidable (∀ c ∈ s, p c) :=
  List.decidableBAll p s

instance decidableForallHead (o : Option Char) : Decidable (∀ c ∈ o, p c) :=
  Option.decidableForallMem o

instance decidableExistsHead (o : Option Char) : Decidable (∃ c ∈ o, p c) :=
  Option.decidableExistsMem o

end

namespace IndexSql

open Matcher

/-- `\s` -/
def isSpace (c : Char) : Bool :=
  (9 ≤ c.toNat && c.toNat ≤ 13) || (28 ≤ c.toNat && c.toNat ≤ 32) || c.toNat = 0x85 ||
    c.toNat = 0xa0 || c.toNat = 0x1680 || (0x2000 ≤ c.toNat && c.toNat ≤ 0x200a) ||
    c.toNat = 0x2028 || c.toNat = 0x2029 || c.toNat = 0x202f || c.toNat = 0x205f ||
    c.toNat = 0x3000

variable (isAlnum : Char → Bool)

/-- `\w` -/
def isWord (c : Char) : Bool := Text.isIdentChar c || (128 ≤ c.toNat && isAlnum c)

def keyword (w : Text) : Matcher Char Text := literal Char.toLower w

/-- `\s+` -/
def spaces : Matcher Char Text := many1 isSpace

/-- `(?:[^"]|"")+` -/
def quotedBody : Matcher Char Text
  | [] => []
  | '"' :: '"' :: s =>
    (quotedBody s ++ [(([] : Text), s)]).map fun q => ('"' :: '"' :: q.1, q.2)
  | '"' :: _ => []
  | c :: s => (quotedBody s ++ [(([] : Text), s)]).map fun q => (c :: q.1, q.2)

/-- An identifier as it stands in a statement. -/
inductive Ident
  | quoted (raw : Text)
  | backtick (raw : Text)
  | plain (raw : Text)
  deriving DecidableEq

namespace Ident

def text : Ident → Text
  | quoted raw => '"' :: raw ++ ['"']
  | backtick raw => '`' :: raw ++ ['`']
  | plain raw => raw

/-- `raw.replace('""', '"')` -/
def undouble : Text → Text
  | '"' :: '"' :: s => '"' :: undouble s
  | c :: s => c :: undouble s
  | [] => []

/-- `_parsed_identifier` -/
def value : Ident → Text
  | quoted raw => undouble raw
  | backtick raw => raw
  | plain raw => raw.map Char.toLower

end Ident

def quotedIdent : Matcher Char Ident :=
  (literal id ['"']).bind fun _ => quotedBody.bind fun raw =>
    (literal id ['"']).bind fun _ => .pure (.quoted raw)

def backtickIdent : Matcher Char Ident :=
  (literal id ['`']).bind fun _ => (many1 (· ≠ '`')).bind fun raw =>
    (literal id ['`']).bind fun _ => .pure (.backtick raw)

/-- `[a-zA-Z_][a-zA-Z0-9_$]*` -/
def plainIdent : Matcher Char Ident :=
  (many1 fun c => Text.isIdentChar c || c == '$').bind fun raw =>
    fun s => if (raw.head?.any fun c => Text.isIdentStart c) then [(.plain raw, s)] else []

/-- `\b` after a word -/
def wordEnd : Matcher Char Unit := lookahead fun s => !(s.head?.any (isWord isAlnum))

/-- `(?=\s+ON\b)` -/
def onFollows : Matcher Char Unit := lookahead fun s =>
  !((seq [spaces, keyword "ON"]).bind (fun _ => wordEnd isAlnum) s).isEmpty

/-- `_INDEX_NAME_RE` before the name. -/
def nameHead : Matcher Char Text :=
  seq [many isSpace, keyword "CREATE", spaces, opt (seq [keyword "UNIQUE", spaces]),
    keyword "INDEX", spaces, opt (seq [keyword "CONCURRENTLY", spaces]),
    opt (seq [keyword "IF", spaces, keyword "NOT", spaces, keyword "EXISTS", spaces])]

/-- `_INDEX_NAME_RE` -/
def indexName : Matcher Char (Text × Ident) :=
  nameHead.bind fun head => (quotedIdent.orElse (backtickIdent.orElse plainIdent)).bind fun name =>
    (onFollows isAlnum).bind fun _ => .pure (head, name)

/-- `(?=\s*(?:USING\b|\())` -/
def keysFollow : Matcher Char Unit := lookahead fun s =>
  !((many isSpace).bind (fun _ => ((keyword "USING").bind fun _ => wordEnd isAlnum).orElse
    ((literal id ['(']).bind fun _ => .pure ())) s).isEmpty

/-- The table of an index statement, with its schema. -/
structure Target where
  schema : Option (Ident × Text)
  table : Ident

def Target.text (t : Target) : Text :=
  (t.schema.elim [] fun p => p.1.text ++ p.2) ++ t.table.text

/-- `_INDEX_TARGET_RE` with what stands before the target. -/
def indexTarget : Matcher Char (Text × Target) :=
  (seq [spaces, keyword "ON", spaces, opt (seq [keyword "ONLY", spaces])]).bind fun head =>
    (((quotedIdent.orElse plainIdent).bind fun schema =>
        (seq [many isSpace, literal id ['.'], many isSpace]).bind fun dot =>
          .pure (some (schema, dot))).orElse (.pure none)).bind fun schema =>
      (quotedIdent.orElse plainIdent).bind fun table =>
        (keysFollow isAlnum).bind fun _ => .pure (head, ⟨schema, table⟩)

/-- A statement that was taken apart. -/
structure Parts where
  head : Text
  name : Ident
  middle : Text
  target : Target
  tail : Text

/-- `re.search(r"\bCONCURRENTLY\b", s)` after a character that is `before`. -/
def hasConcurrently (before : Bool) : Text → Bool
  | [] => false
  | c :: s =>
    (!before && !((keyword "CONCURRENTLY").bind (fun _ => wordEnd isAlnum) (c :: s)).isEmpty) ||
      hasConcurrently (isWord isAlnum c) s

/-- `_index_statement_parts` -/
def indexStatementParts (statement : Text) : Option Parts :=
  match (indexName isAlnum statement).head? with
  | none => none
  | some ((head, name), rest) =>
    if hasConcurrently isAlnum false (head ++ name.text) then none
    else
      (indexTarget isAlnum rest).head?.map fun q => ⟨head, name, q.1.1, q.1.2, q.2⟩

/-- `_quote_identifier` -/
def quoteIdentifier (name : Text) : Text := '"' :: Pg.escape name ++ ['"']

/-- `_rewrite_index_target` -/
def rewriteIndexTarget (statement target : Text) : Option Text :=
  (indexStatementParts isAlnum statement).map fun p =>
    p.head ++ p.name.text ++ p.middle ++ target ++ p.tail

/-- `_normalize_index_statement_target` -/
def normalizeIndexStatementTarget (statement table : Text) : Option Text := do
  let p ← indexStatementParts isAlnum statement
  guard (∀ q ∈ p.target.schema, q.1.value = ("public" : Text))
  guard (p.target.table.value = table)
  rewriteIndexTarget isAlnum statement (("\"public\"." : Text) ++ quoteIdentifier table)

/-- `_rewrite_index_name` -/
def rewriteIndexName (statement name : Text) : Option Text := do
  let p ← indexStatementParts isAlnum statement
  let new ← match p.name with
    | .backtick _ => none
    | .quoted _ | .plain _ => some (quoteIdentifier name)
  return p.head ++ new ++ p.middle ++ p.target.text ++ p.tail

/-! ## Statements with quoted names -/

theorem quotedBody_cons {c : Char} (hc : c ≠ '"') (s : Text) :
    quotedBody (c :: s) = (quotedBody s ++ [(([] : Text), s)]).map fun q => (c :: q.1, q.2) := by
  rw [quotedBody]
  · exact fun _ h => absurd h hc
  · exact hc

variable {r : Text}

theorem quotedBody_quote (hr : Pg.Unquoted r) : quotedBody ('"' :: r) = [] := by
  cases r with
  | nil => rfl
  | cons c r =>
    have hc : c ≠ '"' := fun h => hr (by rw [h]; rfl)
    rw [quotedBody]
    exact fun t h => hc (List.cons.inj h).1

theorem first_quotedBody {n : Text} (hn : n ≠ []) (hq : '"' ∉ n) (hr : Pg.Unquoted r) :
    First quotedBody (n ++ '"' :: r) n ('"' :: r) := by
  induction n with
  | nil => exact absurd rfl hn
  | cons c n ih =>
    obtain ⟨hc, hq⟩ := List.ne_and_not_mem_of_not_mem_cons hq
    unfold First
    rw [List.cons_append, quotedBody_cons (Ne.symm hc), List.head?_map, List.head?_append]
    by_cases hnil : n = []
    · rw [hnil, List.nil_append, quotedBody_quote hr]
      rfl
    · have hrest : (quotedBody (n ++ '"' :: r)).head? = _ := ih hnil hq
      rw [hrest]
      rfl

theorem first_quotedIdent {n : Text} (hn : n ≠ []) (hq : '"' ∉ n) (hr : Pg.Unquoted r) :
    First quotedIdent ('"' :: (n ++ '"' :: r)) (.quoted n) r :=
  (First.literal id ['"'] _).bind <| (first_quotedBody hn hq hr).bind <|
    (First.literal id ['"'] r).bind (.pure _ r)

theorem first_spaces (hr : ∀ c ∈ r.head?, isSpace c = false) : First spaces (' ' :: r) [' '] r :=
  First.many1 (u := [' ']) (by decide) (by decide) hr

/-- A keyword and a blank, before something that is no blank. -/
theorem first_keyword {w : Text} {ms : List (Matcher Char Text)} {x s : Text}
    (hr : ∀ c ∈ r.head?, isSpace c = false) (h : First (seq ms) r x s) :
    First (seq (keyword w :: spaces :: ms)) (w ++ ' ' :: r) (w ++ ' ' :: x) s :=
  (First.literal _ w _).seq_cons ((first_spaces hr).seq_cons h)

theorem head_append {w : Text} (hw : ∃ c ∈ w.head?, isSpace c = false) :
    ∀ c ∈ (w ++ r).head?, isSpace c = false := by
  obtain ⟨c, hc, hspace⟩ := hw
  intro d hd
  rw [List.head?_append, Option.mem_def.1 hc] at hd
  rwa [← Option.some.inj hd]

theorem keyword_eq_nil {w v : Text} (s : Text)
    (h : ∃ c ∈ w.head?, ∃ d ∈ v.head?, c.toLower ≠ d.toLower) : keyword w (v ++ s) = [] := by
  obtain ⟨c, hc, d, hd, hne⟩ := h
  cases w with
  | nil => cases hc
  | cons a w =>
    cases v with
    | nil => cases hd
    | cons b v =>
      obtain rfl : a = c := Option.some.inj hc
      obtain rfl : b = d := Option.some.inj hd
      exact literal_eq_nil hne

/-- `CREATE INDEX IF NOT EXISTS`, up to the name. -/
def managedHead (unique : Bool) : Text :=
  if unique then "CREATE UNIQUE INDEX IF NOT EXISTS " else "CREATE INDEX IF NOT EXISTS "

def ifNotExists (r : Text) : Text :=
  ("IF" : Text) ++ ' ' :: (("NOT" : Text) ++ ' ' :: (("EXISTS" : Text) ++ ' ' :: r))

def indexIfNotExists (r : Text) : Text := ("INDEX" : Text) ++ ' ' :: ifNotExists r

theorem managedHead_append (unique : Bool) (r : Text) :
    managedHead unique ++ r = ("CREATE" : Text) ++ ' ' ::
      (if unique then ("UNIQUE" : Text) ++ ' ' :: indexIfNotExists r else indexIfNotExists r) := by
  have hplain : ("CREATE INDEX IF NOT EXISTS " : Text) = ("CREATE" : Text) ++ ' ' ::
      indexIfNotExists [] := by decide
  have hunique : ("CREATE UNIQUE INDEX IF NOT EXISTS " : Text) = ("CREATE" : Text) ++ ' ' ::
      (("UNIQUE" : Text) ++ ' ' :: indexIfNotExists []) := by decide
  cases unique
  · rw [managedHead, if_neg Bool.false_ne_true, if_neg Bool.false_ne_true, hplain]
    simp only [indexIfNotExists, ifNotExists, List.append_assoc, List.cons_append, List.nil_append]
  · rw [managedHead, if_pos rfl, if_pos rfl, hunique]
    simp only [indexIfNotExists, ifNotExists, List.append_assoc, List.cons_append, List.nil_append]

theorem first_nameHead (unique : Bool) (r : Text) :
    First nameHead (managedHead unique ++ '"' :: r) (managedHead unique) ('"' :: r) := by
  have hquote : ∀ c ∈ ('"' :: r).head?, isSpace c = false := by
    rintro c ⟨⟩
    decide
  have hif : First (seq [keyword "IF", spaces, keyword "NOT", spaces, keyword "EXISTS", spaces])
      (ifNotExists ('"' :: r)) (ifNotExists []) ('"' :: r) :=
    first_keyword (head_append (by decide)) <| first_keyword (head_append (by decide)) <|
      first_keyword hquote (.seq_nil _)
  have hconc : keyword "CONCURRENTLY" (ifNotExists ('"' :: r)) = [] :=
    keyword_eq_nil _ (by decide)
  have hunique : keyword "UNIQUE" (indexIfNotExists ('"' :: r)) = [] :=
    keyword_eq_nil _ (by decide)
  have hindex : First (seq [keyword "INDEX", spaces, opt (seq [keyword "CONCURRENTLY", spaces]),
      opt (seq [keyword "IF", spaces, keyword "NOT", spaces, keyword "EXISTS", spaces])])
      (indexIfNotExists ('"' :: r)) (indexIfNotExists []) ('"' :: r) :=
    first_keyword (head_append (by decide)) <| (First.opt_skip (seq_eq_nil hconc)).seq_cons <|
      (First.opt hif).seq_cons (.seq_nil _)
  have hblank : ∀ s : Text, First (.many isSpace) (("CREATE" : Text) ++ s) []
      (("CREATE" : Text) ++ s) := fun s =>
    First.many (u := []) (by decide) (head_append (w := "CREATE") (by decide))
  rw [managedHead_append, ← List.append_nil (managedHead unique), managedHead_append]
  refine (hblank _).seq_cons ?_
  cases unique
  · exact first_keyword (head_append (by decide)) <|
      (First.opt_skip (seq_eq_nil hunique)).seq_cons hindex
  · exact first_keyword (head_append (by decide)) <|
      (First.opt (first_keyword (head_append (by decide)) (.seq_nil _))).seq_cons hindex

/-- The table of a statement with its keys. -/
def managedTable (schema table keys : Text) : Text :=
  '"' :: (schema ++ '"' :: '.' :: '"' :: (table ++ '"' :: ' ' :: keys))

/-- What follows the name of a statement. -/
def managedTarget (schema table keys : Text) : Text :=
  ' ' :: (("ON" : Text) ++ ' ' :: managedTable schema table keys)

/-- The keys of a statement begin with `USING` or a parenthesis. -/
def Keys (keys : Text) : Prop := ∃ r, keys = '(' :: r ∨ keys = ("USING" : Text) ++ ' ' :: r

section Parts

variable {name schema table keys : Text}

theorem unquoted_cons {c : Char} (hc : c ≠ '"') (r : Text) : Pg.Unquoted (c :: r) :=
  fun h => hc (Option.some.inj h)

theorem first_wordEnd (r : Text) : First (wordEnd isAlnum) (' ' :: r) () (' ' :: r) :=
  First.lookahead rfl

theorem first_indexName (unique : Bool) (hn : name ≠ []) (hq : '"' ∉ name) :
    First (indexName isAlnum)
      (managedHead unique ++ '"' :: (name ++ '"' :: managedTarget schema table keys))
      (managedHead unique, .quoted name) (managedTarget schema table keys) := by
  refine (first_nameHead unique _).bind <| (First.orElse_left
    (first_quotedIdent hn hq (unquoted_cons (by decide) _))).bind <|
    (First.lookahead ?_).bind (.pure _ _)
  have hon : First ((seq [spaces, keyword "ON"]).bind fun _ => wordEnd isAlnum)
      (managedTarget schema table keys) () (' ' :: managedTable schema table keys) :=
    ((first_spaces (head_append (by decide))).seq_cons
      ((First.literal _ _ _).seq_cons (.seq_nil _))).bind (first_wordEnd isAlnum _)
  exact congrArg (!·) hon.isEmpty

theorem first_keysFollow (h : Keys keys) :
    First (keysFollow isAlnum) (' ' :: keys) () (' ' :: keys) := by
  refine First.lookahead ?_
  have hblank : ∀ s : Text, (∀ c ∈ s.head?, isSpace c = false) →
      First (.many isSpace) (' ' :: s) [' '] s := fun s hs =>
    First.many (u := [' ']) (by decide) hs
  obtain ⟨r, rfl | rfl⟩ := h
  · have hparen : First ((many isSpace).bind fun _ =>
        ((keyword "USING").bind fun _ => wordEnd isAlnum).orElse
          ((literal id ['(']).bind fun _ => .pure ())) (' ' :: '(' :: r) () r :=
      (hblank _ (head_append (w := ['(']) (by decide))).bind <|
        First.orElse_right (bind_eq_nil (keyword_eq_nil (v := ['(']) r (by decide))) <|
          (First.literal id ['('] r).bind (.pure _ r)
    exact congrArg (!·) hparen.isEmpty
  · have husing : First ((many isSpace).bind fun _ =>
        ((keyword "USING").bind fun _ => wordEnd isAlnum).orElse
          ((literal id ['(']).bind fun _ => .pure ())) (' ' :: (("USING" : Text) ++ ' ' :: r)) ()
        (' ' :: r) :=
      (hblank _ (head_append (by decide))).bind <|
        First.orElse_left <| (First.literal _ _ _).bind (first_wordEnd isAlnum r)
    exact congrArg (!·) husing.isEmpty

theorem first_indexTarget (hs : schema ≠ []) (hsq : '"' ∉ schema) (ht : table ≠ [])
    (htq : '"' ∉ table) (hk : Keys keys) :
    First (indexTarget isAlnum) (managedTarget schema table keys)
      (' ' :: (("ON" : Text) ++ [' ']), ⟨some (.quoted schema, ['.']), .quoted table⟩)
      (' ' :: keys) := by
  have hquote : ∀ s : Text, ∀ c ∈ ('"' :: s).head?, isSpace c = false := by
    rintro s c ⟨⟩
    decide
  have honly : ∀ s : Text, keyword "ONLY" ('"' :: s) = [] := fun s =>
    keyword_eq_nil (v := ['"']) s (by decide)
  have hhead : ∀ s : Text, First (seq [spaces, keyword "ON", spaces,
      opt (seq [keyword "ONLY", spaces])]) (' ' :: (("ON" : Text) ++ ' ' :: '"' :: s))
      (' ' :: (("ON" : Text) ++ [' '])) ('"' :: s) := fun s =>
    (first_spaces (head_append (by decide))).seq_cons <| first_keyword (hquote s) <|
      (First.opt_skip (seq_eq_nil (honly s))).seq_cons (.seq_nil _)
  have hdot : ∀ s : Text, First (seq [many isSpace, literal id ['.'], many isSpace])
      ('.' :: '"' :: s) ['.'] ('"' :: s) := fun s =>
    (First.many (u := []) (by decide) (head_append (w := ['.']) (by decide))).seq_cons <|
      (First.literal id ['.'] _).seq_cons <|
      (First.many (u := []) (by decide) (hquote s)).seq_cons (.seq_nil _)
  have hschema : First ((quotedIdent.orElse plainIdent).bind fun schema =>
      (seq [many isSpace, literal id ['.'], many isSpace]).bind fun dot =>
        .pure (some (schema, dot))) (managedTable schema table keys)
      (some (.quoted schema, ['.'])) ('"' :: (table ++ '"' :: ' ' :: keys)) :=
    (First.orElse_left (first_quotedIdent hs hsq (unquoted_cons (by decide) _))).bind <|
      (hdot _).bind (.pure _ _)
  have htable : First (quotedIdent.orElse plainIdent) ('"' :: (table ++ '"' :: ' ' :: keys))
      (.quoted table) (' ' :: keys) :=
    First.orElse_left (first_quotedIdent ht htq (unquoted_cons (by decide) _))
  exact (hhead _).bind <| (First.orElse_left hschema).bind <| htable.bind <|
    (first_keysFollow isAlnum hk).bind (.pure _ _)

/-- The parts of a statement with quoted names. -/
theorem parts_managed (unique : Bool) (hn : name ≠ []) (hq : '"' ∉ name) (hs : schema ≠ [])
    (hsq : '"' ∉ schema) (ht : table ≠ []) (htq : '"' ∉ table) (hk : Keys keys) {p : Parts}
    (h : indexStatementParts isAlnum (managedHead unique ++
      '"' :: (name ++ '"' :: managedTarget schema table keys)) = some p) :
    p = ⟨managedHead unique, .quoted name, ' ' :: (("ON" : Text) ++ [' ']),
      ⟨some (.quoted schema, ['.']), .quoted table⟩, ' ' :: keys⟩ := by
  unfold indexStatementParts at h
  have hname : (indexName isAlnum (managedHead unique ++
      '"' :: (name ++ '"' :: managedTarget schema table keys))).head? = some _ :=
    first_indexName isAlnum unique hn hq
  have htarget : (indexTarget isAlnum (managedTarget schema table keys)).head? = some _ :=
    first_indexTarget isAlnum hs hsq ht htq hk
  rw [hname] at h
  dsimp only at h
  split_ifs at h
  rw [htarget] at h
  exact (Option.some.inj h).symm

end Parts

/-! ## Putting a statement together again -/

/-- The text of an index statement with quoted names. -/
def managedText (unique : Bool) (name schema table keys : Text) : Text :=
  managedHead unique ++ '"' :: (name ++ '"' :: managedTarget schema table keys)

section Rewriting

variable {name schema table keys : Text}

theorem quoteIdentifier_of_notMem {n : Text} (h : '"' ∉ n) :
    quoteIdentifier n = '"' :: (n ++ ['"']) := by
  rw [quoteIdentifier, Pg.escape_of_notMem h]
  rfl

/-- A statement with another target. -/
theorem rewriteIndexTarget_managed (unique : Bool) (hn : name ≠ []) (hq : '"' ∉ name)
    (hs : schema ≠ []) (hsq : '"' ∉ schema) (ht : table ≠ []) (htq : '"' ∉ table) (hk : Keys keys)
    {schema' table' t : Text} (htq' : '"' ∉ table')
    (h : rewriteIndexTarget isAlnum (managedText unique name schema table keys)
      ('"' :: (schema' ++ '"' :: '.' :: quoteIdentifier table')) = some t) :
    t = managedText unique name schema' table' keys := by
  obtain ⟨p, hp, rfl⟩ := Option.map_eq_some_iff.1 h
  obtain rfl := parts_managed isAlnum unique hn hq hs hsq ht htq hk hp
  rw [quoteIdentifier_of_notMem htq']
  simp [managedText, managedTarget, managedTable, Ident.text]

/-- The target of a statement on the right table is written as it was. -/
theorem normalize_managed (unique : Bool) (hn : name ≠ []) (hq : '"' ∉ name) (ht : table ≠ [])
    (htq : '"' ∉ table) (hk : Keys keys) {t : Text}
    (h : normalizeIndexStatementTarget isAlnum (managedText unique name "public" table keys) table =
      some t) : t = managedText unique name "public" table keys := by
  obtain ⟨p, -, h⟩ := Option.bind_eq_some_iff.1 h
  obtain ⟨_, -, h⟩ := Option.bind_eq_some_iff.1 h
  obtain ⟨_, -, h⟩ := Option.bind_eq_some_iff.1 h
  have htarget : ("\"public\"." : Text) ++ quoteIdentifier table =
      '"' :: (("public" : Text) ++ '"' :: '.' :: quoteIdentifier table) := by
    have hpublic : ("\"public\"." : Text) = '"' :: (("public" : Text) ++ ['"', '.']) := by decide
    rw [hpublic, List.cons_append, List.append_assoc]
    rfl
  rw [htarget] at h
  exact rewriteIndexTarget_managed isAlnum unique hn hq (by decide) (by decide) ht htq hk htq h

/-- A statement with another name. -/
theorem rewriteIndexName_managed (unique : Bool) (hn : name ≠ []) (hq : '"' ∉ name)
    (hs : schema ≠ []) (hsq : '"' ∉ schema) (ht : table ≠ []) (htq : '"' ∉ table) (hk : Keys keys)
    {name' t : Text} (hq' : '"' ∉ name')
    (h : rewriteIndexName isAlnum (managedText unique name schema table keys) name' = some t) :
    t = managedText unique name' schema table keys := by
  obtain ⟨p, hp, h⟩ := Option.bind_eq_some_iff.1 h
  obtain rfl := parts_managed isAlnum unique hn hq hs hsq ht htq hk hp
  obtain ⟨new, hnew, h⟩ := Option.bind_eq_some_iff.1 h
  obtain rfl := Option.some.inj hnew
  rw [← Option.some.inj h, quoteIdentifier_of_notMem hq']
  simp [managedText, managedTarget, managedTable, Ident.text, Target.text]

end Rewriting

end IndexSql

end PPBase
