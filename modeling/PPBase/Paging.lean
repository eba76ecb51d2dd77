import Mathlib.Data.List.Count
import Mathlib.Data.List.Perm.Basic
import Mathlib.Order.MinMax

/-!
# Pages of an ordered listing

A `RowOrder` is a total preorder : rows that are not equal may be tied. An ordering of rows is a
permutation of them that it sorts (`IsOrdering`), so that tied rows may come in any order. A page is
a slice of an ordering, and every page may be cut from another one.

The first `b` rows of all orderings are the same if and only if no two different rows are tied
across `b` (`take_perm_iff`), and the pages together are the rows, for every choice of the
orderings, if and only if no two different rows are tied across the end of a page
(`pages_perm_iff`).
-/

namespace PPBase

/-- A total preorder. -/
structure RowOrder (α : Type*) where
  le : α → α → Bool
  total : ∀ a b, le a b = true ∨ le b a = true
  trans : ∀ a b c, le a b = true → le b c = true → le a c = true

namespace RowOrder

/-! ## Orders -/

/-- All rows are tied. -/
def tied (α : Type*) : RowOrder α where
  le _ _ := true
  total _ _ := .inl rfl
  trans _ _ _ _ _ := rfl

/-- Rows by a value of theirs. -/
def comap {α β : Type*} (f : α → β) (o : RowOrder β) : RowOrder α where
  le a b := o.le (f a) (f b)
  total a b := o.total (f a) (f b)
  trans a b c := o.trans (f a) (f b) (f c)

/-- The other way round. -/
def desc {α : Type*} (o : RowOrder α) : RowOrder α where
  le a b := o.le b a
  total a b := o.total b a
  trans a b c hab hbc := o.trans c b a hbc hab

/-- Rows by a first order, and the rows that it ties by a second one. -/
def lex {α : Type*} (o o' : RowOrder α) : RowOrder α where
  le a b := o.le a b && (!o.le b a || o'.le a b)
  total a b := by
    have h := o.total a b
    have h' := o'.total a b
    cases hab : o.le a b <;> cases hba : o.le b a <;> simp_all
  trans a b c hab hbc := by
    simp only [Bool.and_eq_true, Bool.or_eq_true, Bool.not_eq_true'] at hab hbc ⊢
    refine ⟨o.trans a b c hab.1 hbc.1, ?_⟩
    rcases hab.2 with h | h
    · refine .inl (Bool.eq_false_iff.2 fun hca => ?_)
      rw [o.trans b c a hbc.1 hca] at h
      exact nomatch h
    rcases hbc.2 with h' | h'
    · refine .inl (Bool.eq_false_iff.2 fun hca => ?_)
      rw [o.trans c a b hca hab.1] at h'
      exact nomatch h'
    · exact .inr (o'.trans a b c h h')

/-- A linear order. -/
def linear (α : Type*) [LinearOrder α] : RowOrder α where
  le a b := decide (a ≤ b)
  total a b := by simpa using le_total a b
  trans a b c hab hbc := decide_eq_true ((of_decide_eq_true hab).trans (of_decide_eq_true hbc))

/-! ## Orderings -/

variable {α : Type*} (o : RowOrder α)

/-- The rows, sorted. -/
def IsOrdering (rows l : List α) : Prop := l.Perm rows ∧ l.Pairwise fun a b => o.le a b = true

/-- The number of rows that come before `a` in every ordering. -/
def before (rows : List α) (a : α) : ℕ := rows.countP fun r => !o.le a r

/-- The number of rows that come before `a` in some ordering, and of `a`. -/
def upTo (rows : List α) (a : α) : ℕ := rows.countP fun r => o.le r a

/-- Different rows are tied across `b` : one of them may be among the first `b`, and the other
not. -/
def TiedAcross (rows : List α) (b : ℕ) : Prop :=
  ∃ x ∈ rows, ∃ y ∈ rows, x ≠ y ∧ o.le x y = true ∧ o.le y x = true ∧
    o.before rows x < b ∧ b < o.upTo rows x

/-- Page `k`, counted from zero. -/
def page (p k : ℕ) (l : List α) : List α := (l.drop (k * p)).take p

/-- The first `n` pages, each of its own ordering. -/
def pages (p n : ℕ) (order : ℕ → List α) : List α :=
  (List.range n).flatMap fun k => page p k (order k)

variable {o} {rows l l' : List α} {a : α} {b : ℕ}

theorem lt_total {a b : α} (h : o.le a b = false) : o.le b a = true :=
  (o.total a b).resolve_left (by rw [h]; exact Bool.false_ne_true)

theorem IsOrdering.take_le_drop (h : o.IsOrdering rows l) (b : ℕ) :
    ∀ u ∈ l.take b, ∀ v ∈ l.drop b, o.le u v = true := by
  have hsorted := h.2
  rw [← List.take_append_drop b l, List.pairwise_append] at hsorted
  exact hsorted.2.2

theorem IsOrdering.countP_eq (h : o.IsOrdering rows l) (p : α → Bool) (b : ℕ) :
    rows.countP p = (l.take b).countP p + (l.drop b).countP p := by
  rw [← List.countP_append, List.take_append_drop, h.1.countP_eq]

variable [DecidableEq α]

/-- How often a row is among the first `b` ones does not depend on the ordering, unless it is tied
with another one across `b`. -/
theorem IsOrdering.count_take (h : o.IsOrdering rows l) (hb : b ≤ rows.length)
    (hties : ∀ y ∈ rows, o.le a y = true → o.le y a = true →
      o.before rows a < b → b < o.upTo rows a → y = a) :
    (l.take b).count a = if o.upTo rows a ≤ b then rows.count a
      else if b ≤ o.before rows a then 0 else b - o.before rows a := by
  have hle := h.take_le_drop b
  have hlen : (l.take b).length = b := by
    rw [List.length_take, h.1.length_eq, min_eq_left hb]
  have hbefore := h.countP_eq (fun r => !o.le a r) b
  have hupTo := h.countP_eq (fun r => o.le r a) b
  have hcount := h.countP_eq (· == a) b
  change o.before rows a = _ at hbefore
  change o.upTo rows a = _ at hupTo
  change rows.count a = (l.take b).count a + (l.drop b).count a at hcount
  have hself : o.le a a = true := (o.total a a).elim id id
  split_ifs with hin hout
  · -- the rows up to `a` are all among the first ones
    have hnot : a ∉ l.drop b := by
      intro ha
      have hall : (l.take b).countP (fun r => o.le r a) = (l.take b).length :=
        List.countP_eq_length.2 fun u hu => hle u hu a ha
      have hpos : 0 < (l.drop b).countP fun r => o.le r a :=
        List.countP_pos_iff.2 ⟨a, ha, hself⟩
      omega
    rw [hcount, List.count_eq_zero_of_not_mem hnot, Nat.add_zero]
  · -- the first ones all come before `a`
    refine List.count_eq_zero_of_not_mem fun ha => ?_
    have hzero : (l.drop b).countP (fun r => !o.le a r) = 0 := by
      refine List.countP_eq_zero.2 fun v hv => ?_
      rw [hle a ha v hv]
      exact Bool.false_ne_true
    have hlt : (l.take b).countP (fun r => !o.le a r) < (l.take b).length := by
      refine lt_of_le_of_ne List.countP_le_length fun heq => ?_
      have := List.countP_eq_length.1 heq a ha
      rw [hself] at this
      exact nomatch this
    omega
  · -- the first ones come before `a`, or are `a`
    rw [not_le] at hin hout
    have htake : ∀ u ∈ l.take b, o.le u a = true := by
      intro u hu
      by_contra hlt
      rw [Bool.not_eq_true] at hlt
      have hzero : (l.drop b).countP (fun r => o.le r a) = 0 := by
        refine List.countP_eq_zero.2 fun v hv hva => ?_
        rw [o.trans u v a (hle u hu v hv) hva] at hlt
        exact Bool.false_ne_true hlt.symm
      have := List.countP_le_length (p := fun r => o.le r a) (l := l.take b)
      omega
    have hdrop : (l.drop b).countP (fun r => !o.le a r) = 0 := by
      refine List.countP_eq_zero.2 fun v hv hlt => ?_
      rw [Bool.not_eq_true'] at hlt
      have hall : (l.take b).countP (fun r => !o.le a r) = (l.take b).length := by
        refine List.countP_eq_length.2 fun u hu => ?_
        rw [Bool.not_eq_true']
        by_contra hau
        rw [Bool.not_eq_false] at hau
        rw [o.trans a u v hau (hle u hu v hv)] at hlt
        exact Bool.false_ne_true hlt.symm
      omega
    have hsplit : (l.take b).length =
        (l.take b).countP (fun r => !o.le a r) + (l.take b).count a := by
      rw [List.length_eq_countP_add_countP (fun r => !o.le a r), List.count]
      congr 1
      refine List.countP_congr fun u hu => ?_
      have hmem : u ∈ rows := h.1.subset (List.mem_of_mem_take hu)
      simp only [Bool.not_eq_true, Bool.not_eq_false', beq_iff_eq, decide_eq_true_eq]
      constructor
      · intro hau
        exact hties u hmem (by simpa using hau) (htake u hu) hout hin
      · rintro rfl
        simpa using hself
    omega

theorem IsOrdering.take_perm (h : o.IsOrdering rows l) (h' : o.IsOrdering rows l')
    (hties : ¬o.TiedAcross rows b) : (l.take b).Perm (l'.take b) := by
  by_cases hb : b ≤ rows.length
  · refine List.perm_iff_count.2 fun a => ?_
    by_cases ha : a ∈ rows
    · have hfree : ∀ y ∈ rows, o.le a y = true → o.le y a = true → o.before rows a < b →
          b < o.upTo rows a → y = a := fun y hy hay hya hlow hhigh =>
        by_contra fun hne => hties ⟨a, ha, y, hy, Ne.symm hne, hay, hya, hlow, hhigh⟩
      rw [h.count_take hb hfree, h'.count_take hb hfree]
    · rw [List.count_eq_zero_of_not_mem fun hm => ha (h.1.subset (List.mem_of_mem_take hm)),
        List.count_eq_zero_of_not_mem fun hm => ha (h'.1.subset (List.mem_of_mem_take hm))]
  · have hlen := h.1.length_eq
    have hlen' := h'.1.length_eq
    rw [List.take_of_length_le (by omega), List.take_of_length_le (by omega)]
    exact h.1.trans h'.1.symm

/-! ## Tied rows -/

omit [DecidableEq α] in
/-- Sorting gives an ordering. -/
theorem isOrdering_mergeSort (rows : List α) : o.IsOrdering rows (rows.mergeSort o.le) :=
  ⟨List.mergeSort_perm rows o.le, List.pairwise_mergeSort o.trans
    (fun a b => by simpa using o.total a b) rows⟩

omit [DecidableEq α] in
variable (o) in
/-- The rows that come before `x`, those that are tied with it, and the rows after it. -/
theorem split_perm (rows : List α) (x : α) :
    ((rows.filter fun r => !o.le x r) ++ ((rows.filter fun r => o.le r x && o.le x r) ++
      rows.filter fun r => !o.le r x)).Perm rows := by
  refine .trans (.append_left _ ?_) (List.filter_append_perm (fun r => !o.le x r) rows)
  have h := List.filter_append_perm (fun r => o.le r x) (rows.filter fun r => o.le x r)
  simp only [List.filter_filter] at h
  have hupper : ∀ r ∈ rows, (!o.le r x && o.le x r) = !o.le r x := by
    intro r _
    cases hrx : o.le r x with
    | true => rfl
    | false => rw [lt_total hrx]; rfl
  rw [List.filter_congr hupper] at h
  simpa only [Bool.not_not] using h

omit [DecidableEq α] in
variable (o) in
theorem upTo_eq (rows : List α) (x : α) :
    o.upTo rows x = o.before rows x + (rows.filter fun r => o.le r x && o.le x r).length := by
  have h := (o.split_perm rows x).countP_eq fun r => o.le r x
  have hlower : (rows.filter fun r => !o.le x r).countP (fun r => o.le r x) =
      (rows.filter fun r => !o.le x r).length :=
    List.countP_eq_length.2 fun r hr => lt_total (by simpa using (List.mem_filter.1 hr).2)
  have htied : (rows.filter fun r => o.le r x && o.le x r).countP (fun r => o.le r x) =
      (rows.filter fun r => o.le r x && o.le x r).length :=
    List.countP_eq_length.2 fun r hr => by
      have := (List.mem_filter.1 hr).2
      simp only [Bool.and_eq_true] at this
      exact this.1
  have hupper : (rows.filter fun r => !o.le r x).countP (fun r => o.le r x) = 0 :=
    List.countP_eq_zero.2 fun r hr => by simpa using (List.mem_filter.1 hr).2
  rw [List.countP_append, List.countP_append, hlower, htied, hupper] at h
  rw [upTo, ← h, before, List.countP_eq_length_filter]
  rfl

omit [DecidableEq α] in
/-- The rows tied with `x` may come in any order. -/
theorem isOrdering_append {x : α} {tied : List α}
    (h : tied.Perm (rows.filter fun r => o.le r x && o.le x r)) :
    o.IsOrdering rows ((rows.filter fun r => !o.le x r).mergeSort o.le ++
      (tied ++ (rows.filter fun r => !o.le r x).mergeSort o.le)) := by
  have hlower := o.isOrdering_mergeSort (rows.filter fun r => !o.le x r)
  have hupper := o.isOrdering_mergeSort (rows.filter fun r => !o.le r x)
  have hbefore : ∀ r ∈ (rows.filter fun r => !o.le x r).mergeSort o.le, o.le r x = true :=
    fun r hr => lt_total (by simpa using (List.mem_filter.1 (hlower.1.subset hr)).2)
  have hafter : ∀ r ∈ (rows.filter fun r => !o.le r x).mergeSort o.le, o.le x r = true :=
    fun r hr => lt_total (by simpa using (List.mem_filter.1 (hupper.1.subset hr)).2)
  have hsame : ∀ r ∈ tied, o.le r x = true ∧ o.le x r = true := fun r hr => by
    simpa using (List.mem_filter.1 (h.subset hr)).2
  refine ⟨(hlower.1.append (h.append hupper.1)).trans (o.split_perm rows x), ?_⟩
  refine List.pairwise_append.2 ⟨hlower.2, List.pairwise_append.2 ⟨?_, hupper.2, ?_⟩, ?_⟩
  · exact List.pairwise_of_forall_mem_list fun r hr r' hr' =>
      o.trans _ _ _ (hsame r hr).1 (hsame r' hr').2
  · exact fun r hr r' hr' => o.trans _ _ _ (hsame r hr).1 (hafter r' hr')
  · intro r hr r' hr'
    refine o.trans _ _ _ (hbefore r hr) ?_
    rcases List.mem_append.1 hr' with hr' | hr'
    · exact (hsame r' hr').2
    · exact hafter r' hr'

/-- Rows tied across `b` change places. -/
theorem TiedAcross.exists_orderings (h : o.TiedAcross rows b) :
    ∃ l l', o.IsOrdering rows l ∧ o.IsOrdering rows l' ∧ ¬(l.take b).Perm (l'.take b) := by
  obtain ⟨x, hx, y, hy, hne, hxy, hyx, hlow, hhigh⟩ := h
  have hself : o.le x x = true := (o.total x x).elim id id
  have hupTo := o.upTo_eq rows x
  have hlength : ((rows.filter fun r => !o.le x r).mergeSort o.le).length = o.before rows x := by
    rw [List.length_mergeSort, before, List.countP_eq_length_filter]
  obtain ⟨g, hg⟩ : ∃ g, (x :: y :: g).Perm (rows.filter fun r => o.le r x && o.le x r) := by
    have hx' : x ∈ rows.filter fun r => o.le r x && o.le x r :=
      List.mem_filter.2 ⟨hx, by simp [hself]⟩
    have hy' : y ∈ (rows.filter fun r => o.le r x && o.le x r).erase x :=
      (List.mem_erase_of_ne hne.symm).2 (List.mem_filter.2 ⟨hy, by simp [hxy, hyx]⟩)
    exact ⟨_, ((List.perm_cons_erase hx').trans ((List.perm_cons_erase hy').cons x)).symm⟩
  have hlengthG := hg.length_eq
  simp only [List.length_cons] at hlengthG
  have harrange : ∀ u v, (u :: v :: g).Perm (rows.filter fun r => o.le r x && o.le x r) →
      ∃ l, o.IsOrdering rows l ∧ l.take b = (rows.filter fun r => !o.le x r).mergeSort o.le ++
        (g.take (b - o.before rows x - 1) ++ [u]) := by
    intro u v huv
    have hmiddle : (g.take (b - o.before rows x - 1) ++
        u :: v :: g.drop (b - o.before rows x - 1)).Perm (u :: v :: g) := by
      refine List.perm_middle.trans (.cons u (List.perm_middle.trans (.cons v ?_)))
      rw [List.take_append_drop]
    refine ⟨_, isOrdering_append (hmiddle.trans huv), ?_⟩
    have hb : b = ((rows.filter fun r => !o.le x r).mergeSort o.le ++
        (g.take (b - o.before rows x - 1) ++ [u])).length := by
      rw [List.length_append, List.length_append, hlength, List.length_take, List.length_singleton]
      omega
    have hassoc : ∀ lower upper : List α, lower ++ (g.take (b - o.before rows x - 1) ++
        u :: v :: g.drop (b - o.before rows x - 1) ++ upper) =
        lower ++ (g.take (b - o.before rows x - 1) ++ [u]) ++
          v :: (g.drop (b - o.before rows x - 1) ++ upper) := by
      intro lower upper
      simp
    rw [hassoc]
    exact List.take_left' hb.symm
  obtain ⟨l, hl, htake⟩ := harrange x y hg
  obtain ⟨l', hl', htake'⟩ := harrange y x ((List.Perm.swap x y g).trans hg)
  refine ⟨l, l', hl, hl', fun hperm => hne ?_⟩
  rw [htake, htake', List.perm_append_left_iff, List.perm_append_left_iff] at hperm
  exact List.singleton_perm_singleton.1 hperm

/-- The first rows of all orderings are the same if and only if no rows are tied across the place. -/
theorem take_perm_iff : (∀ l l', o.IsOrdering rows l → o.IsOrdering rows l' →
    (l.take b).Perm (l'.take b)) ↔ ¬o.TiedAcross rows b := by
  constructor
  · intro h hties
    obtain ⟨l, l', hl, hl', hnot⟩ := hties.exists_orderings
    exact hnot (h l l' hl hl')
  · exact fun h l l' hl hl' => hl.take_perm hl' h

/-! ## Pages -/

omit [DecidableEq α] in
theorem take_append_page (p k : ℕ) (l : List α) :
    l.take (k * p) ++ page p k l = l.take ((k + 1) * p) := by
  rw [Nat.succ_mul, List.take_add, page]

omit [DecidableEq α] in
theorem pages_succ (p n : ℕ) (order : ℕ → List α) :
    pages p (n + 1) order = pages p n order ++ page p n (order n) := by
  simp [pages, List.range_succ]

/-- The first pages are the first rows, if no rows are tied across their ends. -/
theorem pages_perm_take {p : ℕ} {order : ℕ → List α} (horder : ∀ k, o.IsOrdering rows (order k))
    (hties : ∀ k, ¬o.TiedAcross rows (k * p)) (n : ℕ) :
    (pages p n order).Perm ((order 0).take (n * p)) := by
  induction n with
  | zero => simp [pages]
  | succ n ih =>
    rw [pages_succ]
    have hfirst := (ih.append_right (page p n (order n))).trans
      (((horder 0).take_perm (horder n) (hties n)).append_right _)
    rw [take_append_page] at hfirst
    exact hfirst.trans ((horder n).take_perm (horder 0) (hties (n + 1)))

omit [DecidableEq α] in
theorem pages_const (p n : ℕ) (l : List α) : pages p n (fun _ => l) = l.take (n * p) := by
  induction n with
  | zero => simp [pages]
  | succ n ih => rw [pages_succ, ih, take_append_page]

omit [DecidableEq α] in
/-- The pages of two listings, of which the second takes over at page `k`. -/
theorem pages_switch (p k : ℕ) (l l' : List α) (m : ℕ) :
    ∃ t, (pages p (k + m) fun j => if j < k then l else l') = l.take (k * p) ++ t ∧
      l'.take (k * p) ++ t = l'.take ((k + m) * p) := by
  induction m with
  | zero =>
    refine ⟨[], ?_, by simp⟩
    rw [List.append_nil, ← pages_const, pages, pages]
    refine List.flatMap_congr fun j hj => ?_
    rw [if_pos (by simpa using hj)]
  | succ m ih =>
    obtain ⟨t, hpages, hrest⟩ := ih
    refine ⟨t ++ page p (k + m) l', ?_, ?_⟩
    · rw [← Nat.add_assoc, pages_succ, hpages, if_neg (by omega), List.append_assoc]
    · rw [← List.append_assoc, hrest, take_append_page, Nat.add_assoc]

/-- The pages of any orderings are the rows if and only if no rows are tied across the end of a
page. -/
theorem pages_perm_iff {p n : ℕ} (hn : rows.length ≤ n * p) :
    (∀ order : ℕ → List α, (∀ k, o.IsOrdering rows (order k)) → (pages p n order).Perm rows) ↔
      ∀ k, ¬o.TiedAcross rows (k * p) := by
  constructor
  · intro h k hties
    obtain ⟨l, l', hl, hl', hnot⟩ := hties.exists_orderings
    have hk : k ≤ n := by
      obtain ⟨x, -, y, -, -, -, -, -, hhigh⟩ := hties
      have hle : o.upTo rows x ≤ rows.length := List.countP_le_length
      by_contra hlt
      have := Nat.mul_le_mul_right p (Nat.le_of_not_le hlt)
      omega
    obtain ⟨m, rfl⟩ := Nat.exists_eq_add_of_le hk
    obtain ⟨t, hpages, hrest⟩ := pages_switch p k l l' m
    have hperm := h (fun j => if j < k then l else l') fun j => by
      split_ifs
      · exact hl
      · exact hl'
    rw [hpages] at hperm
    rw [List.take_of_length_le (hl'.1.length_eq.trans_le hn)] at hrest
    have hall : (l'.take (k * p) ++ t).Perm rows := by
      rw [hrest]
      exact hl'.1
    exact hnot ((List.perm_append_right_iff t).1 (hperm.trans hall.symm))
  · intro h order horder
    refine (pages_perm_take horder h n).trans ?_
    rw [List.take_of_length_le ((horder 0).1.length_eq.trans_le hn)]
    exact (horder 0).1

end RowOrder

end PPBase
