import Mathlib.Data.List.Forall2
import PPBase.Text

/-!
# URLs and query strings

`urlsplit`, `urlunsplit`, `parse_qsl` and `urlencode` of `urllib.parse`. Percent-decoding and the
checks of a host are parameters. A query that is appended to a URL changes nothing in its other
parts (`urlsplit_query`), and two queries are `QueryAlike` if they differ only in the values
of some keys.
-/

namespace PPBase

namespace Url

/-- What the functions use of the rest of the library. -/
structure Codec where
  /-- `unquote` -/
  unquote : Text → Text
  /-- The checks of `urlsplit` on the host part : brackets and normal forms. -/
  netlocOk : Text → Bool

/-- `_WHATWG_C0_CONTROL_OR_SPACE` -/
def isC0ControlOrSpace (c : Char) : Bool := c.toNat ≤ 0x20

/-- The characters removed from a URL, `_UNSAFE_URL_BYTES_TO_REMOVE`. -/
def isRemoved (c : Char) : Bool := c = '\t' || c = '\r' || c = '\n'

def removeUnsafe (s : Text) : Text := s.filter fun c => !isRemoved c

def clean (url : Text) : Text := removeUnsafe (url.dropWhile isC0ControlOrSpace)

/-- `scheme_chars` -/
def isSchemeChar (c : Char) : Bool := c.isAlphanum || c = '+' || c = '-' || c = '.'

/-- `s.split(sep, 1)`, the second part empty without a separator. -/
def splitOnce (sep : Char) (s : Text) : Text × Text :=
  (s.takeWhile (· ≠ sep), (s.dropWhile (· ≠ sep)).drop 1)

/-- The scheme and the rest. -/
def splitScheme (url : Text) : Text × Text :=
  let (scheme, rest) := splitOnce ':' url
  if ':' ∈ url ∧ (scheme.head?.any Char.isAlpha) = true ∧ scheme.all isSchemeChar = true then
    (Text.lower scheme, rest)
  else ([], url)

/-- The characters of a host part. -/
def isNetlocChar (c : Char) : Bool := c ≠ '/' && c ≠ '?' && c ≠ '#'

/-- `_splitnetloc` -/
def splitNetloc : Text → Text × Text
  | '/' :: '/' :: url => (url.takeWhile isNetlocChar, url.dropWhile isNetlocChar)
  | url => ([], url)

structure SplitResult where
  scheme : Text
  netloc : Text
  path : Text
  query : Text
  fragment : Text
  deriving DecidableEq

/-- `urlsplit`. None if it raises. -/
def urlsplit (K : Codec) (url : Text) : Option SplitResult :=
  let (scheme, url) := splitScheme (clean url)
  let (netloc, url) := splitNetloc url
  let (url, fragment) := splitOnce '#' url
  let (path, query) := splitOnce '?' url
  if K.netlocOk netloc then some ⟨scheme, netloc, path, query, fragment⟩ else none

/-- The schemes of `uses_netloc`. -/
def usesNetloc : List Text :=
  [[], "ftp".toList, "http".toList, "gopher".toList, "nntp".toList, "telnet".toList,
    "imap".toList, "wais".toList, "file".toList, "mms".toList, "https".toList, "shttp".toList,
    "snews".toList, "prospero".toList, "rtsp".toList, "rtsps".toList, "rtspu".toList,
    "rsync".toList, "svn".toList, "svn+ssh".toList, "sftp".toList, "nfs".toList, "git".toList,
    "git+ssh".toList, "ws".toList, "wss".toList, "itms-services".toList]

/-- `urlunsplit`, without a fragment. -/
def urlunsplit (scheme netloc path query : Text) : Text :=
  let url :=
    if netloc ≠ [] ∨ (scheme ≠ [] ∧ scheme ∈ usesNetloc ∧ path.take 2 ≠ ['/', '/']) then
      '/' :: '/' :: netloc ++ (if path ≠ [] ∧ path.head? ≠ some '/' then '/' :: path else path)
    else path
  let url := if scheme ≠ [] then scheme ++ ':' :: url else url
  if query ≠ [] then url ++ '?' :: query else url

/-- A name or value of a query, with its plus signs as spaces. -/
def decode (K : Codec) (s : Text) : Text := K.unquote (s.map fun c => if c = '+' then ' ' else c)

/-- One field of a query. -/
def field (K : Codec) (piece : Text) : Option (Text × Text) :=
  if piece = [] then none
  else some (decode K (splitOnce '=' piece).1, decode K (splitOnce '=' piece).2)

/-- `parse_qsl` with blank values. -/
def parseQsl (K : Codec) (qs : Text) : List (Text × Text) := (Text.split '&' qs).filterMap (field K)

/-- The characters that `quote` leaves alone. -/
def isAlwaysSafe (c : Char) : Bool := c.isAlphanum || c = '_' || c = '.' || c = '-' || c = '~'

def hexDigit (n : ℕ) : Char := Char.ofNat (if n < 10 then 0x30 + n else 0x37 + n)

/-- `quote_plus` -/
def quotePlus (s : Text) : Text :=
  s.flatMap fun c =>
    if c = ' ' then ['+']
    else if isAlwaysSafe c then [c]
    else (String.utf8EncodeChar c).flatMap fun b =>
      ['%', hexDigit (b.toNat / 16), hexDigit (b.toNat % 16)]

/-- `urlencode` -/
def urlencode (fields : List (Text × Text)) : Text :=
  Text.join '&' (fields.map fun e => quotePlus e.1 ++ '=' :: quotePlus e.2)

/-! ## The parts of a URL with a query -/

theorem dropWhile_append_stop {α : Type*} {p : α → Bool} {c : α} (hc : p c = false) (v : List α) :
    ∀ r : List α, (r ++ c :: v).dropWhile p = r.dropWhile p ++ c :: v
  | [] => by simp [hc]
  | a :: r => by
    by_cases ha : p a
    · simp [ha, dropWhile_append_stop hc v r]
    · simp [ha]

variable {sep c : Char} {s : Text}

theorem splitOnce_of_notMem (h : sep ∉ s) : splitOnce sep s = (s, []) := by
  have hall : ∀ c ∈ s, decide (c ≠ sep) = true := by
    rintro c hc
    exact decide_eq_true fun hsep => h (hsep ▸ hc)
  unfold splitOnce
  rw [List.takeWhile_eq_self_iff.2 hall, List.dropWhile_eq_nil_iff.2 hall, List.drop_nil]

theorem splitOnce_append {a : Text} (h : sep ∉ a) (b : Text) :
    splitOnce sep (a ++ sep :: b) = (a, b) := by
  have hself := splitOnce_of_notMem h
  have hall : a.dropWhile (fun c => decide (c ≠ sep)) = [] := by
    rw [List.dropWhile_eq_nil_iff]
    rintro c hc
    exact decide_eq_true fun hsep => h (hsep ▸ hc)
  unfold splitOnce at hself ⊢
  rw [takeWhile_append_stop (p := fun c => decide (c ≠ sep)) (by simp),
    dropWhile_append_stop (p := fun c => decide (c ≠ sep)) (by simp), hall, (Prod.mk.inj hself).1]
  rfl

theorem removeUnsafe_append (a b : Text) : removeUnsafe (a ++ b) = removeUnsafe a ++ removeUnsafe b :=
  List.filter_append ..

theorem clean_append (a b : Text) : clean (a ++ '?' :: b) = clean a ++ '?' :: removeUnsafe b := by
  unfold clean
  rw [dropWhile_append_stop (by decide), removeUnsafe_append]
  rfl

/-- A query has no part in the scheme. -/
theorem splitScheme_append (a b : Text) :
    splitScheme (a ++ '?' :: b) = ((splitScheme a).1, (splitScheme a).2 ++ '?' :: b) := by
  unfold splitScheme
  by_cases hcolon : ':' ∈ a
  · obtain ⟨u, v, rfl, hu⟩ := List.eq_append_cons_of_mem hcolon
    rw [splitOnce_append hu, List.append_assoc, List.cons_append, splitOnce_append hu]
    dsimp only
    have hmem : ':' ∈ u ++ ':' :: (v ++ '?' :: b) := List.mem_append_right _ List.mem_cons_self
    simp only [hcolon, hmem, true_and]
    split_ifs <;> simp
  · have hnot : ¬((splitOnce ':' (a ++ '?' :: b)).1.all isSchemeChar = true) := by
      rw [List.all_eq_true]
      intro hall
      refine absurd (hall '?' ?_) (by decide)
      unfold splitOnce
      have hpos : ∀ c ∈ a, decide (c ≠ ':') = true := by
        intro c hc
        exact decide_eq_true fun h => hcolon (h ▸ hc)
      rw [List.takeWhile_append_of_pos hpos]
      exact List.mem_append_right _ List.mem_cons_self
    dsimp only
    rw [if_neg fun h => hnot h.2.2, if_neg fun h => hcolon h.1]

/-- Nor in the host. -/
theorem splitNetloc_append (a b : Text) :
    splitNetloc (a ++ '?' :: b) = ((splitNetloc a).1, (splitNetloc a).2 ++ '?' :: b) := by
  rcases a with _ | ⟨c, _ | ⟨d, a⟩⟩
  · rfl
  · unfold splitNetloc
    split
    · rename_i h
      cases h
    · split
      · rename_i h
        cases h
      · rfl
  · by_cases hslash : c = '/' ∧ d = '/'
    · obtain ⟨rfl, rfl⟩ := hslash
      show ((a ++ '?' :: b).takeWhile isNetlocChar, (a ++ '?' :: b).dropWhile isNetlocChar) =
        (a.takeWhile isNetlocChar, a.dropWhile isNetlocChar ++ '?' :: b)
      rw [takeWhile_append_stop (by decide), dropWhile_append_stop (by decide)]
    · have hnone : ∀ r : Text, splitNetloc (c :: d :: r) = ([], c :: d :: r) := by
        intro r
        unfold splitNetloc
        split
        · rename_i h
          cases h
          exact absurd ⟨rfl, rfl⟩ hslash
        · rfl
      rw [hnone, List.cons_append, List.cons_append, hnone]

theorem mem_clean (h : c ∈ clean s) : c ∈ s :=
  (List.dropWhile_sublist _).mem (List.mem_filter.1 h).1

theorem mem_splitOnce (h : c ∈ (splitOnce sep s).2) : c ∈ s :=
  (List.dropWhile_sublist _).mem (List.mem_of_mem_drop h)

theorem mem_splitScheme (h : c ∈ (splitScheme s).2) : c ∈ s := by
  unfold splitScheme at h
  dsimp only at h
  split_ifs at h
  · exact mem_splitOnce h
  · exact h

theorem mem_splitNetloc (h : c ∈ (splitNetloc s).2) : c ∈ s := by
  unfold splitNetloc at h
  split at h
  · exact List.mem_cons_of_mem _ (List.mem_cons_of_mem _ ((List.dropWhile_sublist _).mem h))
  · exact h

/-- Without a query and a fragment what follows the host is the path. -/
theorem urlsplit_path (K : Codec) {a : Text} (hq : '?' ∉ a) (hf : '#' ∉ a) :
    urlsplit K a = if K.netlocOk (splitNetloc (splitScheme (clean a)).2).1 then
      some ⟨(splitScheme (clean a)).1, (splitNetloc (splitScheme (clean a)).2).1,
        (splitNetloc (splitScheme (clean a)).2).2, [], []⟩ else none := by
  have hmem : ∀ c, c ∉ a → c ∉ (splitNetloc (splitScheme (clean a)).2).2 := by
    intro c hc h
    exact hc (mem_clean (mem_splitScheme (mem_splitNetloc h)))
  unfold urlsplit
  dsimp only
  rw [splitOnce_of_notMem (hmem _ hf)]
  dsimp only
  rw [splitOnce_of_notMem (hmem _ hq)]

/-- A URL with a query is split like the one without, and at the query. -/
theorem urlsplit_query (K : Codec) {a q f : Text} (ha : '?' ∉ a) (haf : '#' ∉ a) (hq : '#' ∉ q)
    (hf : f = [] ∨ ∃ g, f = '#' :: g) : urlsplit K (a ++ '?' :: (q ++ f)) =
      (urlsplit K a).map fun r =>
        { r with query := removeUnsafe q, fragment := removeUnsafe (f.drop 1) } := by
  have hmem : ∀ c, c ∉ a → c ∉ (splitNetloc (splitScheme (clean a)).2).2 := by
    intro c hc h
    exact hc (mem_clean (mem_splitScheme (mem_splitNetloc h)))
  have hq' : '#' ∉ removeUnsafe q := fun h => hq (List.mem_filter.1 h).1
  have hsplit : splitOnce '#' ((splitNetloc (splitScheme (clean a)).2).2 ++
      '?' :: (removeUnsafe q ++ removeUnsafe f)) =
        ((splitNetloc (splitScheme (clean a)).2).2 ++ '?' :: removeUnsafe q,
          removeUnsafe (f.drop 1)) := by
    have hnot : '#' ∉ (splitNetloc (splitScheme (clean a)).2).2 ++ '?' :: removeUnsafe q := by
      rw [List.mem_append, List.mem_cons, not_or, not_or]
      exact ⟨hmem _ haf, by decide, hq'⟩
    rcases hf with rfl | ⟨g, rfl⟩
    · rw [show removeUnsafe [] = [] from rfl, List.append_nil, splitOnce_of_notMem hnot]
      rfl
    · rw [show removeUnsafe ('#' :: g) = '#' :: removeUnsafe g from rfl, ← List.cons_append,
        ← List.append_assoc, splitOnce_append hnot]
      rfl
  rw [urlsplit_path K ha haf]
  unfold urlsplit
  rw [clean_append, splitScheme_append]
  dsimp only
  rw [splitNetloc_append, removeUnsafe_append]
  dsimp only
  rw [hsplit]
  dsimp only
  rw [splitOnce_append (hmem _ ha)]
  split_ifs <;> rfl

/-! ## Queries that differ in some values -/

/-- The same piece, or another value under a key of `keys`. -/
inductive PieceAlike (keys : Text → Prop) : Text → Text → Prop
  | same (p : Text) : PieceAlike keys p p
  | value {k : Text} (hk : keys k) (heq : '=' ∉ k) (v v' : Text) :
      PieceAlike keys (k ++ '=' :: v) (k ++ '=' :: v')

/-- Two queries that differ only in the values of `keys`. -/
def QueryAlike (keys : Text → Prop) (q q' : Text) : Prop :=
  List.Forall₂ (PieceAlike keys) (Text.split '&' q) (Text.split '&' q')

theorem split_eq_cons (sep : Char) : ∀ s : Text, ∃ p ps, Text.split sep s = p :: ps
  | [] => ⟨_, _, rfl⟩
  | c :: s => by
    obtain ⟨p, ps, hs⟩ := split_eq_cons sep s
    unfold Text.split
    rw [hs]
    split_ifs
    · exact ⟨_, _, rfl⟩
    · exact ⟨_, _, rfl⟩

theorem split_cons_ne {p : Text} {ps : List Text} (hc : c ≠ sep) (hs : Text.split sep s = p :: ps) :
    Text.split sep (c :: s) = (c :: p) :: ps := by
  unfold Text.split
  rw [if_neg hc, hs]

theorem split_removeUnsafe : ∀ q : Text,
    Text.split '&' (removeUnsafe q) = (Text.split '&' q).map removeUnsafe
  | [] => rfl
  | c :: q => by
    have ih := split_removeUnsafe q
    obtain ⟨p, ps, hp⟩ := split_eq_cons '&' q
    rw [hp, List.map_cons] at ih
    by_cases hsep : c = '&'
    · subst hsep
      show [] :: Text.split '&' (removeUnsafe q) = List.map removeUnsafe ([] :: Text.split '&' q)
      rw [ih, hp]
      rfl
    · rw [split_cons_ne hsep hp, List.map_cons]
      unfold removeUnsafe at ih ⊢
      by_cases hr : isRemoved c = true
      · rw [List.filter_cons_of_neg (by simp [hr]), List.filter_cons_of_neg (by simp [hr]), ih]
      · rw [List.filter_cons_of_pos (by simp [hr]), List.filter_cons_of_pos (by simp [hr]),
          split_cons_ne hsep ih]

/-- Queries stay alike when the unsafe characters are removed. -/
theorem queryAlike_removeUnsafe {keys : Text → Prop} {q q' : Text}
    (h : QueryAlike (fun k => keys (removeUnsafe k)) q q') :
    QueryAlike keys (removeUnsafe q) (removeUnsafe q') := by
  unfold QueryAlike at h ⊢
  rw [split_removeUnsafe, split_removeUnsafe, List.forall₂_map_left_iff, List.forall₂_map_right_iff]
  refine h.imp ?_
  intro p p' hp
  cases hp with
  | same p => exact .same _
  | value hk heq v v' =>
    rw [removeUnsafe_append, removeUnsafe_append]
    exact .value hk (fun h => heq (List.mem_filter.1 h).1) _ _

/-- What does not look at the values of `keys` sees the same fields in both queries. -/
theorem map_parseQsl {K : Codec} {keys : Text → Prop} {α : Type*} {f : Text × Text → α}
    (hf : ∀ k v v', keys k → f (decode K k, v) = f (decode K k, v')) {q q' : Text}
    (h : QueryAlike keys q q') : (parseQsl K q).map f = (parseQsl K q').map f := by
  have hpiece : ∀ p p', PieceAlike keys p p' → (field K p).map f = (field K p').map f := by
    intro p p' hp
    cases hp with
    | same p => rfl
    | value hk heq v v' =>
      unfold field
      rw [if_neg (List.append_ne_nil_of_right_ne_nil _ (List.cons_ne_nil _ _)),
        if_neg (List.append_ne_nil_of_right_ne_nil _ (List.cons_ne_nil _ _)),
        splitOnce_append heq, splitOnce_append heq, Option.map_some, Option.map_some]
      exact congrArg some (hf _ _ _ hk)
  have hlist : ∀ ps ps', List.Forall₂ (PieceAlike keys) ps ps' →
      (ps.filterMap (field K)).map f = (ps'.filterMap (field K)).map f := by
    intro ps ps' hps
    rw [List.map_filterMap, List.map_filterMap]
    induction hps with
    | nil => rfl
    | cons hp _ ih => rw [List.filterMap_cons, List.filterMap_cons, hpiece _ _ hp, ih]
  exact hlist _ _ h

end Url

end PPBase
