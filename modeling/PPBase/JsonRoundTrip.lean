import PPBase.Json

/-!
# Reading a JSON text back

What `write` writes is what `loads` reads: strings through their escapes (`scanString_quote`),
integers through their digits (`scanNumber_intText`), entries between brackets one by one
(`scanBracket_join`), and so every value whose numbers and members the hooks read as what they are
(`scanOnce_write`, `loads_write`).
-/

namespace PPBase

namespace Json

variable {ε φ : Type}

/-! ## Strings -/

variable {n : ℕ} {c : Char} {t : Text}

theorem hexValue?_digitChar (h : n < 16) : hexValue? n.digitChar = some n := by
  revert n; decide

theorem ofNat_toNat (h : c.toNat < 0xD800) : CodePoint.ofNat c.toNat = .scalar c := by
  rw [CodePoint.ofNat, dif_neg (by omega), Char.ofNat_toNat]

theorem scanUnits_escapeChar (c : Char) (t : Text) :
    scanUnits (escapeChar c ++ t) = (scanUnits t).map fun r => (.scalar c :: r.1, r.2) := by
  unfold escapeChar
  split_ifs with h1 h2 h3 h4 h5 h6 h7 h8
  · subst h1; rfl
  · subst h2; rfl
  · subst h3; rfl
  · subst h4; rfl
  · subst h5; rfl
  · subst h6; rfl
  · subst h7; rfl
  · have hhex : hex4? '0' '0' (c.toNat / 16).digitChar (c.toNat % 16).digitChar = some c.toNat := by
      have h0 : hexValue? '0' = some 0 := by decide
      rw [hex4?, h0, hexValue?_digitChar (by omega), hexValue?_digitChar (by omega)]
      simp only [Option.some.injEq]
      omega
    show scanUnits ('\\' :: 'u' :: '0' :: '0' :: _ :: _ :: t) = _
    rw [scanUnits.eq_def]
    simp only [if_neg (show '\\' ≠ '"' by decide), ↓reduceIte, hhex,
      ofNat_toNat (show c.toNat < 0xD800 by omega)]
  · show scanUnits (c :: t) = _
    rw [scanUnits.eq_def]
    simp only [if_neg h1, if_neg h2, if_neg h8]

theorem scanUnits_escape (s t : Text) :
    scanUnits (s.flatMap escapeChar ++ '"' :: t) = some (PyText.ofText s, t) := by
  induction s with
  | nil =>
    rw [List.flatMap_nil, List.nil_append, scanUnits.eq_def]
    rfl
  | cons c s ih =>
    rw [List.flatMap_cons, List.append_assoc, scanUnits_escapeChar, ih]
    rfl

/-- A string is read back from its quotes. -/
theorem scanString_quote (s t : Text) :
    (scanString (s.flatMap escapeChar ++ '"' :: t) : Except (DecodeError ε) _) =
      .ok (PyText.ofText s, t) := by
  rw [scanString, scanUnits_escape]
  simp only [PyText.joinPairs_ofText]

/-- What may follow a value in a text. -/
def Ends (t : Text) : Prop := ∀ c ∈ t.head?, c = ',' ∨ c = ']' ∨ c = '\x7d'

/-! ## Numbers -/

/-- Digits without a leading zero. -/
def Numeral (t : Text) : Prop :=
  ∃ c s, t = c :: s ∧ c.isDigit = true ∧ (∀ d ∈ s, d.isDigit = true) ∧ (c = '0' → s = [])

theorem digitChar_eq_zero (h : n < 10) (h0 : n.digitChar = '0') : n = 0 := by
  revert n; decide

theorem toDigits_head (n : ℕ) :
    ∃ c s, Nat.toDigits 10 n = c :: s ∧ (c = '0' → n = 0) ∧ (n = 0 → s = []) := by
  induction n using Nat.strongRecOn with
  | ind n ih =>
    rw [Nat.toDigits_eq_if (by decide)]
    split_ifs with h
    · refine ⟨_, _, rfl, fun hc => ?_, fun _ => rfl⟩
      exact digitChar_eq_zero h hc
    · obtain ⟨c, s, hs, hc, hn⟩ := ih (n / 10) (by omega)
      exact ⟨c, s ++ _, by rw [hs, List.cons_append], fun h0 => by have := hc h0; omega,
        fun h0 => by omega⟩

theorem numeral_toDigits (n : ℕ) : Numeral (Nat.toDigits 10 n) := by
  obtain ⟨c, s, hs, hc, hn⟩ := toDigits_head n
  have hdigit : ∀ d ∈ c :: s, d.isDigit = true := fun d hd =>
    Nat.isDigit_of_mem_toDigits (by decide) (by decide) (hs ▸ hd)
  exact ⟨c, s, hs, hdigit c List.mem_cons_self, fun d hd => hdigit d (List.mem_cons_of_mem _ hd),
    fun h0 => hn (hc h0)⟩

theorem takeWhile_digits {s : Text} (hs : ∀ d ∈ s, d.isDigit = true) (ht : Ends t) :
    (s ++ t).takeWhile Char.isDigit = s ∧ (s ++ t).dropWhile Char.isDigit = t := by
  have hnil : t.takeWhile Char.isDigit = [] ∧ t.dropWhile Char.isDigit = t := by
    cases t with
    | nil => exact ⟨rfl, rfl⟩
    | cons c t =>
      have hc : c.isDigit = false := by rcases ht c rfl with rfl | rfl | rfl <;> decide
      rw [List.takeWhile_cons, List.dropWhile_cons, hc]
      exact ⟨rfl, rfl⟩
  rw [List.takeWhile_append_of_pos hs, List.dropWhile_append_of_pos hs, hnil.1, hnil.2,
    List.append_nil]
  exact ⟨rfl, rfl⟩

theorem unsigned_numeral {s : Text} (hs : Numeral s) (ht : Ends t) :
    scanInt.unsigned (s ++ t) = some (s, t) := by
  obtain ⟨c, s, rfl, hc, hs, hzero⟩ := hs
  rw [List.cons_append, scanInt.unsigned]
  by_cases h0 : c = '0'
  · rw [if_pos h0, hzero h0, h0]
    rfl
  · rw [if_neg h0, if_pos hc, (takeWhile_digits hs ht).1, (takeWhile_digits hs ht).2]

theorem not_dash (hc : c.isDigit = true) : c ≠ '-' := by
  rintro rfl
  cases hc

theorem scanInt_intText (i : ℤ) (ht : Ends t) : scanInt (intText i ++ t) = some (intText i, t) := by
  cases i with
  | ofNat n =>
    have hn := numeral_toDigits n
    rw [intText, ← unsigned_numeral hn ht]
    obtain ⟨c, s, hs, hc, -, -⟩ := hn
    rw [hs, List.cons_append]
    exact scanInt.eq_3 _ (List.cons_ne_nil _ _) fun _ h => not_dash hc (List.cons.inj h).1
  | negSucc n =>
    rw [intText, List.cons_append, scanInt, unsigned_numeral (numeral_toDigits (n + 1)) ht]
    rfl

theorem scanFraction_ends (ht : Ends t) : scanFraction t = ([], t) := by
  unfold scanFraction
  split
  · rename_i t
    rcases ht '.' rfl with h | h | h <;> cases h
  · rfl

theorem scanExponent_ends (ht : Ends t) : scanExponent t = ([], t) := by
  cases t with
  | nil => rfl
  | cons c t =>
    rw [scanExponent, if_neg]
    rcases ht c rfl with rfl | rfl | rfl <;> simp

variable (H : Hooks ε φ)

/-- An integer is read by the hook for integers. -/
theorem scanNumber_intText (i : ℤ) (ht : Ends t) :
    scanNumber H (intText i ++ t) = hooked (fun n => (.int n, t)) (H.parseInt (intText i)) := by
  rw [scanNumber, scanInt_intText i ht]
  simp only [scanFraction_ends ht, scanExponent_ends ht, and_self, ↓reduceIte]

theorem intText_head (i : ℤ) :
    ∃ c s, intText i = c :: s ∧ (c.isDigit = true ∨ c = '-' ∧ ∀ d ∈ s.head?, d.isDigit = true) := by
  cases i with
  | ofNat n =>
    obtain ⟨c, s, hs, hc, -, -⟩ := numeral_toDigits n
    exact ⟨c, s, hs, .inl hc⟩
  | negSucc n =>
    obtain ⟨c, s, hs, hc, -, -⟩ := numeral_toDigits (n + 1)
    refine ⟨'-', c :: s, by rw [intText, hs], .inr ⟨rfl, fun d hd => ?_⟩⟩
    cases hd
    exact hc

theorem afterPrefix?_ne {p : Char} {ps : Text} (h : p ≠ c) :
    Text.afterPrefix? (p :: ps) (c :: t) = none := by
  rw [Text.afterPrefix?, if_neg h]

/-- A number is no word and no constant. -/
theorem scanScalar_intText (i : ℤ) (ht : Ends t) :
    scanScalar H (intText i ++ t) = hooked (fun n => (.int n, t)) (H.parseInt (intText i)) := by
  have hword : ∀ (p : Char) (ps : Text), (p.isDigit = false ∧ p ≠ '-') →
      Text.afterPrefix? (p :: ps) (intText i ++ t) = none := by
    intro p ps hp
    obtain ⟨c, s, hs, hc⟩ := intText_head i
    rw [hs]
    refine afterPrefix?_ne fun h => ?_
    rcases hc with hc | ⟨hc, -⟩
    · rw [← h, hp.1] at hc
      cases hc
    · exact hp.2 (h.trans hc)
  have hneg : Text.afterPrefix? ('-' :: 'I' :: "nfinity".toList) (intText i ++ t) = none := by
    obtain ⟨c, s, hs, hc⟩ := intText_head i
    rw [hs]
    rcases hc with hc | ⟨rfl, hc⟩
    · exact afterPrefix?_ne (not_dash hc).symm
    · rw [List.cons_append, Text.afterPrefix?, if_pos rfl]
      cases s with
      | nil =>
        cases t with
        | nil => rfl
        | cons d t =>
          refine afterPrefix?_ne fun h => ?_
          rcases ht d rfl with rfl | rfl | rfl <;> cases h
      | cons d s =>
        refine afterPrefix?_ne fun h => ?_
        have := hc d rfl
        rw [← h] at this
        cases this
  rw [scanScalar, show ("null" : Text) = 'n' :: "ull".toList from rfl,
    show ("true" : Text) = 't' :: "rue".toList from rfl,
    show ("false" : Text) = 'f' :: "alse".toList from rfl,
    show ("NaN" : Text) = 'N' :: "aN".toList from rfl,
    show ("Infinity" : Text) = 'I' :: "nfinity".toList from rfl,
    show ("-Infinity" : Text) = '-' :: 'I' :: "nfinity".toList from rfl]
  simp only [hword _ _ ⟨rfl, (by decide : 'n' ≠ '-')⟩, hword _ _ ⟨rfl, (by decide : 't' ≠ '-')⟩,
    hword _ _ ⟨rfl, (by decide : 'f' ≠ '-')⟩, hword _ _ ⟨rfl, (by decide : 'N' ≠ '-')⟩,
    hword _ _ ⟨rfl, (by decide : 'I' ≠ '-')⟩, hneg, List.findSome?_cons, List.findSome?_nil,
    Option.map_none, scanNumber_intText H i ht]

/-! ## Values -/

/-- A value of texts as the reader gives it. -/
def raw : Json Text Empty → Json PyText φ := map PyText.ofText Empty.elim

theorem raw_arr (xs : List (Json Text Empty)) :
    (raw (.arr xs) : Json PyText φ) = .arr (xs.map raw) := by
  rw [raw, map, mapItems_eq]

theorem raw_obj (ms : List (Text × Json Text Empty)) :
    (raw (.obj ms) : Json PyText φ) = .obj (ms.map fun m => (PyText.ofText m.1, raw m.2)) := by
  rw [raw, map, mapMembers_eq]

/-- The hooks read a number or the members of an object as what they are. -/
def Faithful : Json Text Empty → Prop
  | .int i => H.parseInt (intText i) = .ok i
  | .obj ms =>
    H.objectPairs (ms.map fun m => (PyText.ofText m.1, raw m.2)) =
      .ok (ms.map fun m => (PyText.ofText m.1, raw m.2))
  | _ => True

theorem skip_cons (h : isSpace c = false) : skip (c :: t) = c :: t := by
  rw [skip, List.dropWhile_cons_of_neg (by rw [h]; exact Bool.false_ne_true)]

theorem not_space (h : c.isDigit = true ∨ c = '-') : isSpace c = false ∧ c ≠ ']' := by
  rcases h with h | rfl
  · refine ⟨?_, fun h' => by subst h'; cases h⟩
    by_contra hs
    simp only [isSpace, Bool.or_eq_true, decide_eq_true_eq, Bool.not_eq_false] at hs
    rcases hs with ((rfl | rfl) | rfl) | rfl <;> cases h
  · decide

theorem write_head (v : Json Text Empty) :
    ∃ c s, write v = c :: s ∧ isSpace c = false ∧ c ≠ ']' := by
  cases v with
  | null => exact ⟨_, _, rfl, by decide, by decide⟩
  | bool b => cases b <;> exact ⟨_, _, rfl, by decide, by decide⟩
  | int i =>
    obtain ⟨c, s, hs, hc⟩ := intText_head i
    exact ⟨c, s, hs, not_space (hc.imp id And.left)⟩
  | float x => exact x.elim
  | str s => exact ⟨_, _, rfl, by decide, by decide⟩
  | arr xs => exact ⟨_, _, rfl, by decide, by decide⟩
  | obj ms => exact ⟨_, _, rfl, by decide, by decide⟩

theorem join_cons (p q : Text) (ps : List Text) :
    Text.join ',' (p :: q :: ps) = p ++ ',' :: Text.join ',' (q :: ps) := by
  rw [Text.join]
  exact List.cons_ne_nil _ _

theorem length_le_join {p : Text} : ∀ {ps : List Text}, p ∈ ps →
    p.length ≤ (Text.join ',' ps).length
  | [q], h => by rw [List.mem_singleton.1 h]; exact le_rfl
  | q :: r :: ps, h => by
    rw [join_cons, List.length_append, List.length_cons]
    rcases List.mem_cons.1 h with rfl | h
    · omega
    · have := length_le_join h
      omega

theorem length_join (ps : List Text) : ps.length ≤ (Text.join ',' ps).length + 1 := by
  induction ps with
  | nil => exact Nat.zero_le _
  | cons q ps ih =>
    cases ps with
    | nil => rw [List.length_singleton]; omega
    | cons r ps =>
      rw [join_cons, List.length_append]
      simp only [List.length_cons] at ih ⊢
      omega

theorem ends_cons {c : Char} {t : Text} (h : c = ',' ∨ c = ']' ∨ c = '}') : Ends (c :: t) := by
  intro d hd
  cases hd
  exact h

section Entries

variable {α β : Type} {close : Char} (entry : Text → Except (DecodeError ε) (α × Text))
  (text : β → Text) (value : β → α)

/-- Entries that are read back one by one are read back together. -/
theorem scanEntries_join (hclose : close = ']' ∨ close = '}') :
    ∀ {bs : List β} {n : ℕ} {t : Text}, bs ≠ [] → bs.length ≤ n →
      (∀ b ∈ bs, (∃ c s, text b = c :: s ∧ isSpace c = false) ∧
        ∀ t, Ends t → entry (text b ++ t) = .ok (value b, t)) →
      scanEntries close entry n (Text.join ',' (bs.map text) ++ close :: t) =
        .ok (bs.map value, t)
  | b :: bs, n + 1, t, _, hn, hb => by
    have hspace : isSpace close = false := by rcases hclose with rfl | rfl <;> decide
    have hcomma : ',' ≠ close := by rcases hclose with rfl | rfl <;> decide
    have hread := (hb b List.mem_cons_self).2
    rw [scanEntries]
    cases bs with
    | nil =>
      rw [List.map_singleton, Text.join, hread _ (ends_cons (.inr hclose))]
      simp only [skip_cons hspace, ↓reduceIte, List.map_singleton]
    | cons b' bs =>
      have ih := scanEntries_join hclose (n := n) (t := t) (List.cons_ne_nil b' bs)
        (by rw [List.length_cons] at hn; omega) fun d hd => hb d (List.mem_cons_of_mem _ hd)
      obtain ⟨c, s, hs, hc⟩ := (hb b' (List.mem_cons_of_mem _ List.mem_cons_self)).1
      have hskip : skip (Text.join ',' ((b' :: bs).map text) ++ close :: t) =
          Text.join ',' ((b' :: bs).map text) ++ close :: t := by
        cases bs with
        | nil => rw [List.map_singleton, Text.join, hs]; exact skip_cons hc
        | cons d bs => rw [List.map_cons, List.map_cons, join_cons, hs]; exact skip_cons hc
      rw [show Text.join ',' ((b :: b' :: bs).map text) ++ close :: t =
          text b ++ ',' :: (Text.join ',' ((b' :: bs).map text) ++ close :: t) by
        rw [List.map_cons, List.map_cons, join_cons, List.append_assoc, List.cons_append],
        hread _ (ends_cons (.inl rfl))]
      simp only [skip_cons (show isSpace ',' = false by decide), if_neg hcomma, ↓reduceIte, hskip,
        ih]
      rfl

/-- Entries between brackets are read back, if the first is not taken for the closing one. -/
theorem scanBracket_join (hclose : close = ']' ∨ close = '\x7d') {bs : List β} {n : ℕ} {t : Text}
    (hn : bs.length ≤ n)
    (hb : ∀ b ∈ bs, (∃ c s, text b = c :: s ∧ isSpace c = false ∧ c ≠ close) ∧
      ∀ t, Ends t → entry (text b ++ t) = .ok (value b, t)) :
    scanBracket close entry n (Text.join ',' (bs.map text) ++ close :: t) =
      .ok (bs.map value, t) := by
  rw [scanBracket]
  cases bs with
  | nil =>
    have hspace : isSpace close = false := by rcases hclose with rfl | rfl <;> decide
    rw [List.map_nil, Text.join, List.nil_append, skip_cons hspace]
    exact if_pos rfl
  | cons b bs =>
    have hall := scanEntries_join entry text value hclose (t :=
      t) (List.cons_ne_nil b bs) hn fun b hb' =>
      ⟨let ⟨c, s, hs, hc, _⟩ := (hb b hb').1; ⟨c, s, hs, hc⟩, (hb b hb').2⟩
    obtain ⟨c, s, hs, hc, hne⟩ := (hb b List.mem_cons_self).1
    obtain ⟨r, hr⟩ : ∃ r, Text.join ',' ((b :: bs).map text) = c :: r := by
      cases bs with
      | nil => exact ⟨s, by rw [List.map_singleton, Text.join, hs]⟩
      | cons d bs => exact ⟨_, by rw [List.map_cons, List.map_cons, join_cons, hs]; rfl⟩
    rw [hr, List.cons_append] at hall ⊢
    rw [skip_cons hc]
    exact (if_neg hne).trans hall

end Entries

theorem scanMember_write {value : Text → Except (DecodeError ε) (Json PyText φ × Text)} (k : Text)
    (v : Json Text Empty) (hv : value (write v ++ t) = .ok (raw v, t)) :
    scanMember value (quote k ++ ':' :: write v ++ t) = .ok ((PyText.ofText k, raw v), t) := by
  obtain ⟨c, s, hs, hc, -⟩ := write_head v
  have hskip : skip (write v ++ t) = write v ++ t := by
    rw [hs]
    exact skip_cons hc
  rw [quote, List.cons_append, List.append_assoc, List.cons_append, List.append_assoc, scanMember,
    List.singleton_append, List.cons_append, scanString_quote]
  simp only [skip_cons (show isSpace ':' = false by decide), hskip, hv]

theorem scanOnce_scalar {n : ℕ} {c : Char} {t : Text} (h : c ≠ '"' ∧ c ≠ '\x7b' ∧ c ≠ '[') :
    scanOnce H (n + 1) (c :: t) = scanScalar H (c :: t) := by
  rw [scanOnce, if_neg h.1, if_neg h.2.1, if_neg h.2.2]

theorem succ_of_write {v : Json Text Empty} (hn : (write v).length ≤ n) : ∃ m, n = m + 1 := by
  obtain ⟨c, s, hs, -⟩ := write_head v
  rw [hs, List.length_cons] at hn
  exact ⟨n - 1, by omega⟩

/-- A value is read back from its text, whatever ends it. -/
theorem scanOnce_write {v : Json Text Empty} (hv : All (Faithful H) v) (hn : (write v).length ≤ n)
    (ht : Ends t) : scanOnce H n (write v ++ t) = .ok (raw v, t) := by
  induction v generalizing n t with
  | null =>
    obtain ⟨m, rfl⟩ := succ_of_write hn
    rfl
  | bool b =>
    obtain ⟨m, rfl⟩ := succ_of_write hn
    cases b <;> rfl
  | int i =>
    obtain ⟨m, rfl⟩ := succ_of_write hn
    obtain ⟨c, s, hs, hc⟩ := intText_head i
    have hne : c ≠ '"' ∧ c ≠ '\x7b' ∧ c ≠ '[' := by
      refine ⟨?_, ?_, ?_⟩ <;> (rintro rfl; rcases hc with hc | ⟨hc, -⟩ <;> cases hc)
    have hint : H.parseInt (intText i) = .ok i := hv
    rw [write, show intText i ++ t = c :: (s ++ t) by rw [hs, List.cons_append],
      scanOnce_scalar H hne, ← List.cons_append, ← hs, scanScalar_intText H i ht, hint]
    rfl
  | float x => exact x.elim
  | str s =>
    obtain ⟨m, rfl⟩ := succ_of_write hn
    rw [write, quote, List.cons_append, List.cons_append, List.append_assoc, scanOnce, if_pos rfl,
      List.singleton_append, scanString_quote]
    rfl
  | arr xs ih =>
    obtain ⟨m, rfl⟩ := succ_of_write hn
    obtain ⟨-, hxs⟩ := all_arr.1 hv
    rw [write, writeItems_eq] at hn ⊢
    rw [List.length_append, List.length_cons, List.length_singleton] at hn
    have hlen := length_join (xs.map write)
    rw [List.length_map] at hlen
    have hread := scanBracket_join (scanOnce H m) write raw (t :=
      t) (.inl rfl) (by omega : xs.length ≤ m) fun x hx =>
        ⟨write_head x, fun t ht => ih x hx (hxs x hx)
          (by have := length_le_join (List.mem_map_of_mem (f := write) hx); omega) ht⟩
    rw [List.append_assoc, List.cons_append, scanOnce, if_neg (by decide), if_neg (by decide),
      if_pos rfl, scanArray, List.singleton_append, hread]
    rw [raw_arr]
  | obj ms ih =>
    obtain ⟨m, rfl⟩ := succ_of_write hn
    obtain ⟨hpairs, hms⟩ := all_obj.1 hv
    rw [write, writeMembers_eq] at hn ⊢
    rw [List.length_append, List.length_cons, List.length_singleton] at hn
    have hlen := length_join (ms.map fun m => quote m.1 ++ ':' :: write m.2)
    rw [List.length_map] at hlen
    have hread := scanBracket_join (scanMember (scanOnce H m))
      (fun m => quote m.1 ++ ':' :: write m.2) (fun m => (PyText.ofText m.1, raw m.2)) (t := t)
      (.inr rfl)
      (by omega : ms.length ≤ m) fun x hx =>
        ⟨⟨_, _, rfl, by decide, by decide⟩, fun t ht => scanMember_write x.1 x.2
          (ih x hx (hms x hx) (by
            have := length_le_join <| List.mem_map_of_mem
              (f := fun m : Text × Json Text Empty => quote m.1 ++ ':' :: write m.2) hx
            rw [List.length_append, List.length_cons] at this
            omega) ht)⟩
    rw [List.append_assoc, List.cons_append, scanOnce, if_neg (by decide), if_pos rfl,
      scanObject, List.singleton_append, hread]
    show hooked _ (H.objectPairs _) = _
    rw [hpairs, raw_obj]
    rfl

/-- A value is read back from its text. -/
theorem loads_write {v : Json Text Empty} (hv : All (Faithful H) v) :
    loads H (write v) = .ok (raw v) := by
  obtain ⟨c, s, hs, hc, -⟩ := write_head v
  have hread := scanOnce_write H hv (t := []) le_rfl fun c hc => by cases hc
  rw [List.append_nil] at hread
  rw [loads, hs, skip_cons hc, ← hs, hread]
  rfl

end Json

end PPBase
