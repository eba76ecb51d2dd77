import PPBase.Ddl

/-!
# The tokens of a statement

`Statement.tokens` are the tokens a statement is meant to have : those of its texts, and for each
name one quoted identifier. A text that issues a statement is `Intact` if PostgreSQL reads these
tokens in it.

In a `Framed` statement the texts do not run into the names between them. It is intact exactly if
all its names are read back (`Framed.intact_iff`), and then its tokens without the names depend
on its texts alone (`blank_tokens`).

What SQLAlchemy does to a statement on its way is not modelled.
-/

namespace PPBase

namespace Ddl

open Pg SchemaManager IndexSql

def Piece.tokens : Piece → Option (List Pg.Token)
  | .raw s => Pg.lex s
  | .ident n | .quoted n => some [.ident n]

/-- The tokens a statement is meant to have. -/
def Statement.tokens : Statement → Option (List Pg.Token)
  | [] => some []
  | p :: s => p.tokens.bind fun ts => (tokens s).map (ts ++ ·)

/-- PostgreSQL reads each name of the statement as one quoted identifier, equal to it, and its
texts as they are read alone. -/
def Intact (i : Issued) : Prop := Pg.lex i.text = i.statement.tokens

instance (i : Issued) : Decidable (Intact i) := inferInstanceAs (Decidable (_ = _))

/-- The name in a piece. -/
def Piece.name? : Piece → Option Text
  | .raw _ => none
  | .ident n | .quoted n => some n

/-- A name that can stand where it is put. -/
def Piece.Sound : Piece → Prop
  | .raw _ => True
  | .ident n => Plain n
  | .quoted n => Storable n

/-! ## Names between texts -/

theorem Statement.text_cons (p : Piece) (s : Statement) :
    Statement.text (p :: s) = p.text ++ Statement.text s := rfl

variable {p : Piece} {n : Text}

/-- A name is read back from its place exactly if it can stand there. -/
theorem lex_name_iff {r : Text} {ts : List Pg.Token} (hp : p.name? = some n) (hr : Unquoted r) :
    Pg.lex (p.text ++ r) = some (.ident n :: ts) ↔ p.Sound ∧ Pg.lex r = some ts := by
  cases p with
  | raw s => cases hp
  | ident m =>
    obtain rfl : m = n := Option.some.inj hp
    have htext : (Piece.ident m).text ++ r = '"' :: m ++ '"' :: r := by simp [Piece.text]
    rw [htext]
    exact lex_quoted_iff hr
  | quoted m =>
    obtain rfl : m = n := Option.some.inj hp
    have htext : (Piece.quoted m).text ++ r = '"' :: escape m ++ '"' :: r := by
      simp [Piece.text, quoteIdentifier]
    rw [htext]
    exact lex_escaped_iff hr

theorem lex_name {r : Text} (hp : p.name? = some n) (hs : p.Sound) (hr : Unquoted r) :
    Pg.lex (p.text ++ r) = (Pg.lex r).map ([.ident n] ++ ·) := by
  cases p with
  | raw s => cases hp
  | ident m =>
    obtain rfl : m = n := Option.some.inj hp
    have hplain : Plain m := hs
    have htext : (Piece.ident m).text ++ r = '"' :: escape m ++ '"' :: r := by
      simp [Piece.text, escape_of_notMem hplain.quote]
    rw [htext]
    exact lex_ident hplain.ne_nil hplain.zero hr
  | quoted m =>
    obtain rfl : m = n := Option.some.inj hp
    have htext : (Piece.quoted m).text ++ r = '"' :: escape m ++ '"' :: r := by
      simp [Piece.text, quoteIdentifier]
    rw [htext]
    exact lex_ident hs.1 hs.2 hr

theorem Piece.tokens_of_name (hp : p.name? = some n) : p.tokens = some [.ident n] := by
  cases p with
  | raw s => cases hp
  | ident m => rw [← Option.some.inj hp]; rfl
  | quoted m => rw [← Option.some.inj hp]; rfl

theorem Piece.exists_text_of_name (hp : p.name? = some n) : ∃ t, p.text = '"' :: t := by
  cases p with
  | raw s => cases hp
  | ident m => exact ⟨_, rfl⟩
  | quoted m => exact ⟨_, rfl⟩

/-- A quote completes what is pending and opens an identifier. -/
def settled (st : Pg.State) : Bool :=
  Pg.step st '"' = (Pg.finish st).map fun ts => (ts, .identBody false [])

/-- A quote after the text opens an identifier. -/
def isClosed (s : Text) : Bool := (Pg.lexer.run .start s).all fun p => settled p.2

theorem lex_closed {a : Text} (ha : isClosed a = true) (x : Text) :
    Pg.lex (a ++ '"' :: x) = (Pg.lex a).bind fun ts => (Pg.lex ('"' :: x)).map (ts ++ ·) := by
  have hopen : Pg.lexer.step .start '"' = some ([], .identBody false []) := rfl
  have hquoted : Pg.lex ('"' :: x) = Pg.lexer.scanFrom (.identBody false []) x :=
    Pg.lexer.scanFrom_silent hopen x
  rw [hquoted]
  change Pg.lexer.scanFrom .start _ = (Pg.lexer.scanFrom .start a).bind _
  cases hrun : Pg.lexer.run .start a with
  | none =>
    rw [Scanner.scanFrom, Scanner.scanFrom, Pg.lexer.run_append, hrun]
    rfl
  | some p =>
    obtain ⟨us, st⟩ := p
    have hsettled : Pg.step st '"' = (Pg.finish st).map fun ts => (ts, .identBody false []) := by
      rw [isClosed, hrun] at ha
      exact of_decide_eq_true ha
    have hscan : Pg.lexer.scanFrom .start a = (Pg.finish st).map (us ++ ·) := by
      rw [Scanner.scanFrom, hrun]
      rfl
    rw [Pg.lexer.scanFrom_append hrun, hscan]
    cases hfinish : Pg.finish st with
    | none =>
      rw [hfinish] at hsettled
      rw [scanFrom_eq_none hsettled]
      rfl
    | some vs =>
      rw [hfinish] at hsettled
      have hstep : Pg.lexer.step st '"' = some (vs, .identBody false []) := hsettled
      rw [Pg.lexer.scanFrom_cons hstep, Option.map_map, Option.map_some, Option.bind_some]
      simp [Function.comp_def]

/-- Every name stands between a text that is closed and something that is no quote. -/
inductive Framed : Statement → Prop
  | nil : Framed []
  | raw (a : Text) : Framed [.raw a]
  | name {a : Text} {p : Piece} {n : Text} {s : Statement} (ha : isClosed a = true)
      (hp : p.name? = some n) (hs : Unquoted s.text) (h : Framed s) : Framed (.raw a :: p :: s)

namespace Framed

variable {s : Statement}

theorem text_raw (a : Text) : Statement.text [.raw a] = a := List.append_nil a

theorem tokens_raw (a : Text) : Statement.tokens [.raw a] = Pg.lex a := by
  change (Pg.lex a).bind (fun ts => (some []).map (ts ++ ·)) = _
  cases Pg.lex a <;> simp

theorem tokens_name {a n : Text} {p : Piece} (hp : p.name? = some n) :
    Statement.tokens (.raw a :: p :: s) =
      (Pg.lex a).bind fun ts => (s.tokens.map ([.ident n] ++ ·)).map (ts ++ ·) := by
  rw [Statement.tokens, Statement.tokens, Piece.tokens_of_name hp, Piece.tokens, Option.bind_some]

theorem lex_text_name {a n : Text} {p : Piece} (ha : isClosed a = true)
    (hp : p.name? = some n) : Pg.lex (Statement.text (.raw a :: p :: s)) =
      (Pg.lex a).bind fun ts => (Pg.lex (p.text ++ s.text)).map (ts ++ ·) := by
  obtain ⟨t, ht⟩ := Piece.exists_text_of_name hp
  rw [Statement.text_cons, Statement.text_cons, Piece.text, ht, List.cons_append, lex_closed ha]

/-- A framed statement whose names can stand where they are is intact. -/
theorem intact (h : Framed s) (hs : ∀ p ∈ s, p.Sound) : Intact (own s) := by
  change Pg.lex s.text = s.tokens
  induction h with
  | nil => rfl
  | raw a => rw [text_raw, tokens_raw]
  | @name a p n s ha hp hr _ ih =>
    have hs' := List.forall_mem_cons.1 (List.forall_mem_cons.1 hs).2
    rw [lex_text_name ha hp, lex_name hp hs'.1 hr, ih hs'.2, tokens_name hp]

/-- An intact statement has only names that can stand where they are. -/
theorem sound (h : Framed s) (ht : s.tokens.isSome) (hi : Intact (own s)) :
    ∀ p ∈ s, p.Sound := by
  have hlex : Pg.lex s.text = s.tokens := hi
  clear hi
  induction h with
  | nil => exact fun p hp => absurd hp List.not_mem_nil
  | raw a => exact List.forall_mem_cons.2 ⟨trivial, fun p hp => absurd hp List.not_mem_nil⟩
  | @name a p n s ha hp hr _ ih =>
    obtain ⟨ts, hts⟩ := Option.isSome_iff_exists.1 ht
    rw [hts, lex_text_name ha hp] at hlex
    rw [tokens_name hp] at hts
    obtain ⟨us, hus, hts⟩ := Option.bind_eq_some_iff.1 hts
    obtain ⟨vs, hvs, rfl⟩ := Option.map_eq_some_iff.1 hts
    obtain ⟨xs, hxs, rfl⟩ := Option.map_eq_some_iff.1 hvs
    rw [hus, Option.bind_some] at hlex
    obtain ⟨ys, hys, heq⟩ := Option.map_eq_some_iff.1 hlex
    rw [List.append_cancel_left heq, List.singleton_append] at hys
    obtain ⟨hname, hrest⟩ := (lex_name_iff hp hr).1 hys
    have htail := ih (Option.isSome_iff_exists.2 ⟨xs, hxs⟩) (hrest.trans hxs.symm)
    exact List.forall_mem_cons.2 ⟨trivial, List.forall_mem_cons.2 ⟨hname, htail⟩⟩

end Framed

theorem isSome_tokens {s : Statement} (h : ∀ p ∈ s, p.tokens.isSome) : s.tokens.isSome := by
  induction s with
  | nil => rfl
  | cons p s ih =>
    obtain ⟨hp, hs⟩ := List.forall_mem_cons.1 h
    obtain ⟨ts, hts⟩ := Option.isSome_iff_exists.1 hp
    obtain ⟨us, hus⟩ := Option.isSome_iff_exists.1 (ih hs)
    rw [Statement.tokens, hts, Option.bind_some, hus]
    rfl

/-! ## Statements of one shape -/

/-- The texts of a statement, with a gap for each name. -/
def Statement.shape (s : Statement) : List (Option Text) :=
  s.map fun
    | .raw t => some t
    | .ident _ | .quoted _ => none

def blank : Pg.Token → Pg.Token
  | .ident _ => .ident []
  | t => t

/-- The tokens of a text, whatever its identifiers are. -/
def tokenStructure (t : Text) : Option (List Pg.Token) := (Pg.lex t).map (·.map blank)

/-- What is left of a statement's tokens without its names depends on its shape. -/
theorem blank_tokens {s s' : Statement} (h : s.shape = s'.shape) :
    s.tokens.map (·.map blank) = s'.tokens.map (·.map blank) := by
  induction s generalizing s' with
  | nil =>
    cases s' with
    | nil => rfl
    | cons p s' => cases h
  | cons p s ih =>
    cases s' with
    | nil => cases h
    | cons p' s' =>
      have hrest := ih (List.cons.inj h).2
      have hpiece : p.tokens.map (·.map blank) = p'.tokens.map (·.map blank) := by
        have hp := (List.cons.inj h).1
        cases p <;> cases p' <;> cases hp <;> rfl
      have happend : ∀ (q : Piece) (r : Statement), (Statement.tokens (q :: r)).map (·.map blank) =
          (q.tokens.map (·.map blank)).bind fun ts =>
            (r.tokens.map (·.map blank)).map (ts ++ ·) := by
        intro q r
        rw [Statement.tokens]
        cases q.tokens <;> cases r.tokens <;> simp
      rw [happend, happend, hpiece, hrest]

/-- Intact statements of one shape have the same token structure. -/
theorem Intact.structure_eq {i i' : Issued} (h : Intact i) (h' : Intact i')
    (hs : i.statement.shape = i'.statement.shape) :
    tokenStructure i.text = tokenStructure i'.text := by
  unfold tokenStructure
  rw [h, h']
  exact blank_tokens hs

/-! ## The columns of a table -/

/-- The definitions of columns. -/
def columnTypes : List Text :=
  ["VARCHAR(15) PRIMARY KEY", "TIMESTAMPTZ NOT NULL DEFAULT NOW()",
    "VARCHAR(255) NOT NULL DEFAULT ''", "BOOLEAN NOT NULL DEFAULT FALSE",
    "TEXT NOT NULL DEFAULT ''", "VARCHAR(50) NOT NULL DEFAULT ''", "INTEGER NOT NULL DEFAULT 0",
    "DOUBLE PRECISION NOT NULL DEFAULT 0", "TIMESTAMPTZ NULL",
    "TEXT[] NOT NULL DEFAULT '\x7b\x7d'", "VARCHAR(15)[] NOT NULL DEFAULT '\x7b\x7d'",
    "VARCHAR(15) NOT NULL DEFAULT ''", "JSONB NOT NULL DEFAULT 'null'::jsonb",
    "JSONB NOT NULL DEFAULT '\x7b\"lon\":0,\"lat\":0\x7d'::jsonb"]

theorem colType_mem {f : FieldDefinition} {d : Text} (h : f.colType = some d) :
    d ∈ columnTypes := by
  unfold FieldDefinition.colType at h
  unfold columnTypes
  cases hty : f.type <;> simp only [hty] at h
  case number =>
    split_ifs at h <;> obtain rfl := Option.some.inj h <;>
      simp only [List.mem_cons, true_or, or_true]
  case select | file | relation =>
    obtain ⟨many, -, rfl⟩ := Option.map_eq_some_iff.1 h
    cases many <;> simp only [List.mem_cons, Bool.false_eq_true, ↓reduceIte, true_or, or_true]
  all_goals
    obtain rfl := Option.some.inj h
    simp only [List.mem_cons, true_or, or_true]

theorem systemColumns_mem {type : Text} {c : Text × Text} (h : c ∈ systemColumns type) :
    c.2 ∈ columnTypes ∧ Plain c.1 := by
  have hall : ∀ c ∈ baseColumns ++ authSystemColumns, c.2 ∈ columnTypes ∧
      (c.1 ≠ [] ∧ '"' ∉ c.1 ∧ '\x00' ∉ c.1) := by decide
  have hc : c ∈ baseColumns ++ authSystemColumns := by
    unfold systemColumns at h
    split_ifs at h
    · exact h
    · exact List.mem_append_left _ (by simpa using h)
  obtain ⟨hd, hne, hq, hz⟩ := hall c hc
  exact ⟨hd, hne, hq, hz⟩

/-- The text between two columns of a table. -/
def between (d : Text) : Text := ' ' :: d ++ (",\n    " : Text)

theorem columnTypes_closed : ∀ d ∈ columnTypes, isClosed (between d) = true := by decide +kernel

theorem columnTypes_lex : ∀ d ∈ columnTypes, (Pg.lex (between d)).isSome ∧
    (Pg.lex (' ' :: d ++ ("\n)" : Text))).isSome ∧ (Pg.lex (' ' :: d)).isSome := by decide +kernel

end Ddl

end PPBase
