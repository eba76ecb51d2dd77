import Mathlib.Data.List.Nodup
import Mathlib.Data.List.Perm.Basic

/-!
# Altering the columns of a table

A table is the list of its columns; their order does not matter, so results are stated up
to permutation. `Alter` is one command of an `ALTER TABLE`, `Alter.exec` runs a sequence of
them and stops at the first error. A column remembers the column of the starting table
whose values it holds, if any (`Column.data`).

A migration drops columns, adds new ones and moves the rest one after the other
(`Move`). `exec_migration_iff` says when it goes through and `exec_migration_perm` what it
leaves : a move takes a name that is neither kept by a column outside the moves, nor of an
added column, nor still held by a column moved later.
-/

namespace PPBase

universe u v

/-- A column with its definition. `data` is the starting column whose values it holds; a
column added since holds defaults. -/
structure Column (ν : Type u) (δ : Type v) where
  name : ν
  spec : δ
  data : Option ν
  deriving DecidableEq

namespace Column

variable {ν : Type u} {δ : Type v}

/-- A column that is added. -/
def fresh (n : ν) (d : δ) : Column ν δ := ⟨n, d, none⟩

/-- A column of the starting table. -/
def initial (n : ν) (d : δ) : Column ν δ := ⟨n, d, some n⟩

/-- The names of a table's columns. -/
def names (t : List (Column ν δ)) : List ν := t.map Column.name

@[simp] theorem names_nil : names ([] : List (Column ν δ)) = [] := rfl

@[simp] theorem names_cons (c : Column ν δ) (t : List (Column ν δ)) :
    names (c :: t) = c.name :: names t := rfl

@[simp] theorem names_append (t u : List (Column ν δ)) : names (t ++ u) = names t ++ names u :=
  List.map_append

theorem mem_names {t : List (Column ν δ)} {n : ν} : n ∈ names t ↔ ∃ c ∈ t, c.name = n :=
  List.mem_map

theorem names_perm {t u : List (Column ν δ)} (h : t.Perm u) : (names t).Perm (names u) :=
  h.map _

end Column

open Column

/-- A command of `ALTER TABLE`. `drop` is `DROP COLUMN IF EXISTS`. -/
inductive Alter (ν : Type u) (δ : Type v)
  | add (n : ν) (d : δ)
  | drop (n : ν)
  | rename (n n' : ν)
  deriving DecidableEq

namespace Alter

variable {ν : Type u} {δ : Type v} [DecidableEq ν]

/-- One command. Adding or renaming to a name that is taken and renaming a column that
does not exist are errors. -/
def run (t : List (Column ν δ)) : Alter ν δ → Option (List (Column ν δ))
  | add n d => if n ∈ names t then none else some (t ++ [fresh n d])
  | drop n => some (t.filter (·.name ≠ n))
  | rename n n' =>
    if n ∈ names t ∧ n' ∉ names t then
      some (t.map fun c => if c.name = n then { c with name := n' } else c)
    else none

/-- Commands one after the other. -/
def exec (as : List (Alter ν δ)) (t : List (Column ν δ)) : Option (List (Column ν δ)) :=
  as.foldlM run t

@[simp] theorem exec_nil (t : List (Column ν δ)) : exec [] t = some t := rfl

theorem exec_cons (a : Alter ν δ) (as : List (Alter ν δ)) (t : List (Column ν δ)) :
    exec (a :: as) t = (run t a).bind (exec as) := rfl

theorem exec_append (as bs : List (Alter ν δ)) (t : List (Column ν δ)) :
    exec (as ++ bs) t = (exec as t).bind (exec bs) := by
  simp only [exec, List.foldlM_append]
  rfl

/-! ## Drops and additions -/

theorem exec_drops (ns : List ν) (t : List (Column ν δ)) :
    exec (ns.map drop) t = some (t.filter fun c => c.name ∉ ns) := by
  induction ns generalizing t with
  | nil => simp
  | cons n ns ih =>
    rw [List.map_cons, exec_cons, run, Option.bind_some, ih, List.filter_filter]
    congr 1
    refine List.filter_congr fun c _ => ?_
    simp [Bool.and_comm]

variable {t t' : List (Column ν δ)}

/-- Dropping some of a table's columns leaves the others. -/
theorem exec_drops_perm {gone keep : List (Column ν δ)} {ns : List ν} (h : t.Perm (gone ++ keep))
    (hgone : ∀ n ∈ names gone, n ∈ ns) (hkeep : ∀ n ∈ names keep, n ∉ ns) :
    ∃ u, exec (ns.map drop) t = some u ∧ u.Perm keep ∧ u.Sublist t := by
  refine ⟨_, exec_drops ns t, (h.filter _).trans (List.Perm.of_eq ?_), List.filter_sublist⟩
  rw [List.filter_append, List.filter_eq_nil_iff.2, List.nil_append, List.filter_eq_self.2]
  · exact fun c hc => by simpa using hkeep _ (mem_names.2 ⟨c, hc, rfl⟩)
  · exact fun c hc => by simpa using hgone _ (mem_names.2 ⟨c, hc, rfl⟩)

/-- Additions go through when the names are new and distinct. -/
theorem exec_adds (cs : List (Column ν δ)) (t : List (Column ν δ)) :
    exec (cs.map fun c => add c.name c.spec) t =
      if (∀ c ∈ cs, c.name ∉ names t) ∧ (names cs).Nodup then
        some (t ++ cs.map fun c => fresh c.name c.spec)
      else none := by
  induction cs generalizing t with
  | nil => simp
  | cons c cs ih =>
    rw [List.map_cons, exec_cons, run]
    by_cases hc : c.name ∈ names t
    · simp [hc]
    · have hiff : ((∀ c' ∈ cs, c'.name ∉ names (t ++ [fresh c.name c.spec])) ∧ (names cs).Nodup) ↔
          (∀ c' ∈ c :: cs, c'.name ∉ names t) ∧ (names (c :: cs)).Nodup := by
        simp only [names_append, names_cons, names_nil, List.mem_append, List.mem_singleton,
          List.nodup_cons, List.forall_mem_cons, mem_names, fresh]
        refine ⟨fun h => ⟨⟨by simpa [mem_names] using hc, fun c' hc' => ?_⟩, ?_, h.2⟩,
          fun h => ⟨fun c' hc' => ?_, h.2.2⟩⟩
        · exact fun hm => h.1 c' hc' (.inl hm)
        · rintro ⟨c', hc', he⟩
          exact h.1 c' hc' (.inr he)
        · rintro (hm | he)
          · exact h.1.2 c' hc' hm
          · exact h.2.1 ⟨c', hc', he⟩
      rw [if_neg hc, Option.bind_some, ih]
      simp only [hiff]
      simp

/-! ## The order of columns, and their names -/

/-- A command does the same to a table with its columns in another order. -/
theorem run_perm {u : List (Column ν δ)} {a : Alter ν δ} (h : t.Perm u) (hr : run t a = some t') :
    ∃ u', run u a = some u' ∧ t'.Perm u' := by
  have hmem : ∀ n, n ∈ names t ↔ n ∈ names u := fun n => (names_perm h).mem_iff
  cases a with
  | add n d =>
    simp only [run, hmem] at hr ⊢
    split_ifs at hr ⊢ with hn
    exact ⟨_, rfl, Option.some.inj hr ▸ h.append_right _⟩
  | drop n => exact ⟨_, rfl, Option.some.inj hr ▸ h.filter _⟩
  | rename n n' =>
    simp only [run, hmem] at hr ⊢
    split_ifs at hr ⊢ with hn
    exact ⟨_, rfl, Option.some.inj hr ▸ h.map _⟩

theorem exec_perm {as : List (Alter ν δ)} {u : List (Column ν δ)} (h : t.Perm u)
    (he : exec as t = some t') : ∃ u', exec as u = some u' ∧ t'.Perm u' := by
  induction as generalizing t u with
  | nil => exact ⟨u, rfl, Option.some.inj he ▸ h⟩
  | cons a as ih =>
    rw [exec_cons] at he ⊢
    obtain ⟨t₁, ht₁, he⟩ := Option.bind_eq_some_iff.1 he
    obtain ⟨u₁, hu₁, hp⟩ := run_perm h ht₁
    rw [hu₁]
    exact ih hp he

/-- No command gives two columns one name. -/
theorem nodup_run {a : Alter ν δ} (hn : (names t).Nodup) (hr : run t a = some t') :
    (names t').Nodup := by
  cases a with
  | add n d =>
    simp only [run] at hr
    split_ifs at hr with hmem
    obtain rfl := Option.some.inj hr
    rw [names_append, List.nodup_append']
    refine ⟨hn, List.nodup_singleton _, fun m hm hm' => ?_⟩
    rw [List.mem_singleton.1 hm'] at hm
    exact hmem hm
  | drop n =>
    obtain rfl := Option.some.inj hr
    exact hn.sublist (List.filter_sublist.map _)
  | rename n n' =>
    simp only [run] at hr
    split_ifs at hr with hmem
    obtain rfl := Option.some.inj hr
    have hnames : names (t.map fun c => if c.name = n then { c with name := n' } else c) =
        (names t).map fun m => if m = n then n' else m := by
      rw [names, names, List.map_map, List.map_map]
      refine List.map_congr_left fun c _ => ?_
      simp only [Function.comp_apply]
      split_ifs <;> rfl
    rw [hnames, List.nodup_map_iff_inj_on hn]
    intro x hx y hy he
    split_ifs at he with h₁ h₂ h₂
    · exact h₁.trans h₂.symm
    · exact absurd (he ▸ hy) hmem.2
    · exact absurd (he ▸ hx) hmem.2
    · exact he

theorem nodup_exec {as : List (Alter ν δ)} (hn : (names t).Nodup) (he : exec as t = some t') :
    (names t').Nodup := by
  induction as generalizing t with
  | nil => exact Option.some.inj he ▸ hn
  | cons a as ih =>
    rw [exec_cons] at he
    obtain ⟨t₁, ht₁, he⟩ := Option.bind_eq_some_iff.1 he
    exact ih (nodup_run hn ht₁) he

end Alter

/-! ## Moves -/

/-- What an update does to a column that stays : it gets the name `dst` and, if its
definition changes, is dropped and added again with the new one. -/
structure Move (ν : Type u) (δ : Type v) where
  col : Column ν δ
  dst : ν
  respec : Option δ

namespace Move

variable {ν : Type u} {δ : Type v} [DecidableEq ν]

/-- The column after the move. -/
def moved (m : Move ν δ) : Column ν δ :=
  match m.respec with
  | some d => fresh m.dst d
  | none => { m.col with name := m.dst }

omit [DecidableEq ν] in
@[simp] theorem moved_name (m : Move ν δ) : m.moved.name = m.dst := by
  unfold moved
  split <;> rfl

/-- The commands of a move. -/
def alters (m : Move ν δ) : List (Alter ν δ) :=
  (if m.col.name = m.dst then [] else [.rename m.col.name m.dst]) ++
    match m.respec with
    | some d => [.drop m.dst, .add m.dst d]
    | none => []

variable {t r : List (Column ν δ)}

/-- Dropping a column that stands among others. -/
theorem filter_ne_perm {c : Column ν δ} (h : t.Perm (c :: r)) (hc : c.name ∉ names r) :
    (t.filter (·.name ≠ c.name)).Perm r := by
  have hr : r.filter (·.name ≠ c.name) = r := by
    refine List.filter_eq_self.2 fun c' hc' => ?_
    simpa using fun he => hc (mem_names.2 ⟨c', hc', he⟩)
  refine (h.filter _).trans ?_
  rw [List.filter_cons_of_neg (by simp), hr]

theorem exec_respec {c : Column ν δ} (h : t.Perm (c :: r)) (hc : c.name ∉ names r) (d : Option δ) :
    ∃ u, Alter.exec (match d with
        | some d => [.drop c.name, .add c.name d]
        | none => []) t = some u ∧
      u.Perm ((match d with
        | some d => fresh c.name d
        | none => c) :: r) := by
  cases d with
  | none => exact ⟨t, rfl, h⟩
  | some d =>
    have hp := filter_ne_perm h hc
    have hn : c.name ∉ names (t.filter (·.name ≠ c.name)) := fun hm =>
      hc ((names_perm hp).mem_iff.1 hm)
    refine ⟨t.filter (·.name ≠ c.name) ++ [fresh c.name d], ?_, ?_⟩
    · simp only [Alter.exec_cons, Alter.run, Option.bind_some, if_neg hn, Alter.exec_nil]
    · exact (List.perm_append_singleton _ _).trans (hp.cons _)

/-- A move goes through when no other column has its name. -/
theorem exec_alters (m : Move ν δ) (h : t.Perm (m.col :: r)) (hc : m.col.name ∉ names r) :
    if m.dst ∈ names r then Alter.exec m.alters t = none
    else ∃ u, Alter.exec m.alters t = some u ∧ u.Perm (m.moved :: r) := by
  have hnames := names_perm h
  by_cases hname : m.col.name = m.dst
  · rw [if_neg (hname ▸ hc)]
    obtain ⟨u, hu, hp⟩ := exec_respec h hc m.respec
    refine ⟨u, ?_, ?_⟩
    · rw [alters, if_pos hname, List.nil_append, ← hname]
      exact hu
    · unfold moved
      rw [← hname]
      cases hd : m.respec <;> simpa [hd] using hp
  · have hsrc : m.col.name ∈ names t := hnames.mem_iff.2 (by simp)
    have hdst : m.dst ∈ names t ↔ m.dst ∈ names r := by
      rw [hnames.mem_iff]
      simp [Ne.symm hname]
    by_cases hr : m.dst ∈ names r
    · rw [if_pos hr, alters, if_neg hname, Alter.exec_append, Alter.exec_cons, Alter.run,
        if_neg (by simpa [hdst] using fun _ => hr)]
      rfl
    · have hmap : (t.map fun c => if c.name = m.col.name then { c with name := m.dst } else c).Perm
          ({ m.col with name := m.dst } :: r) := by
        refine (h.map _).trans ?_
        rw [List.map_cons, if_pos rfl]
        refine List.Perm.cons _ (List.Perm.of_eq ?_)
        conv_rhs => rw [← List.map_id r]
        refine List.map_congr_left fun c hcr => if_neg fun he => ?_
        exact hc (mem_names.2 ⟨c, hcr, he⟩)
      obtain ⟨u, hu, hp⟩ := exec_respec hmap hr m.respec
      rw [if_neg hr]
      refine ⟨u, ?_, ?_⟩
      · rw [alters, if_neg hname, Alter.exec_append, Alter.exec_cons, Alter.run,
          if_pos ⟨hsrc, fun hm => hr (hdst.1 hm)⟩]
        exact hu
      · unfold moved
        cases hd : m.respec <;> simpa [hd] using hp

/-- The moves that come one after the other beside the columns `r` : none takes a name that
one of `r`, or of the columns moved later, has, and no two take the same name. -/
def Clear (r : List (Column ν δ)) (ms : List (Move ν δ)) : Prop :=
  (∀ m ∈ ms, m.dst ∉ names r) ∧
    ms.Pairwise fun m m' => m.dst ≠ m'.col.name ∧ m.dst ≠ m'.dst

omit [DecidableEq ν] in
theorem clear_cons {m : Move ν δ} {ms : List (Move ν δ)} :
    Clear r (m :: ms) ↔ m.dst ∉ names (r ++ ms.map col) ∧ Clear (m.moved :: r) ms := by
  rw [Clear, Clear, List.forall_mem_cons, List.pairwise_cons, names_append, List.mem_append, not_or]
  simp only [names_cons, moved_name, List.mem_cons, not_or]
  have hcols : m.dst ∉ names (ms.map col) ↔ ∀ m' ∈ ms, m.dst ≠ m'.col.name := by
    simp [mem_names, eq_comm]
  rw [hcols]
  constructor
  · rintro ⟨⟨h₁, h₂⟩, h₃, h₄⟩
    exact ⟨⟨h₁, fun m' hm' => (h₃ m' hm').1⟩,
      fun m' hm' => ⟨fun he => (h₃ m' hm').2 he.symm, h₂ m' hm'⟩, h₄⟩
  · rintro ⟨⟨h₁, h₂⟩, h₃, h₄⟩
    exact ⟨⟨h₁, fun m' hm' => (h₃ m' hm').2⟩,
      fun m' hm' => ⟨h₂ m' hm', fun he => (h₃ m' hm').1 he.symm⟩, h₄⟩

/-- Moves one after the other : they go through exactly when they are clear, and then every
column is where its move takes it. -/
theorem exec_moves (ms : List (Move ν δ)) (h : t.Perm (r ++ ms.map col)) (hn : (names t).Nodup) :
    (Clear r ms ∧ ∃ u, Alter.exec (ms.flatMap alters) t = some u ∧ u.Perm (r ++ ms.map moved)) ∨
      (¬Clear r ms ∧ Alter.exec (ms.flatMap alters) t = none) := by
  induction ms generalizing t r with
  | nil => exact .inl ⟨⟨by simp, .nil⟩, t, rfl, by simpa using h⟩
  | cons m ms ih =>
    have ht : t.Perm (m.col :: (r ++ ms.map col)) :=
      h.trans (by rw [List.map_cons]; exact List.perm_middle)
    have hnd := ((names_perm ht).nodup_iff.1 hn)
    rw [names_cons, List.nodup_cons] at hnd
    rw [clear_cons, List.flatMap_cons, Alter.exec_append]
    have hstep := exec_alters m ht hnd.1
    split_ifs at hstep with hdst
    · exact .inr ⟨fun hc => hc.1 hdst, by rw [hstep]; rfl⟩
    · obtain ⟨u, hu, hp⟩ := hstep
      rw [hu, Option.bind_some]
      have hu' : (names u).Nodup := by
        rw [(names_perm hp).nodup_iff, names_cons, moved_name, List.nodup_cons]
        exact ⟨hdst, hnd.2⟩
      rcases ih (r := m.moved :: r) hp hu' with ⟨hc, w, hw, hpw⟩ | ⟨hc, hw⟩
      · refine .inl ⟨⟨hdst, hc⟩, w, hw, hpw.trans ?_⟩
        rw [List.map_cons]
        exact List.perm_middle.symm
      · exact .inr ⟨fun h' => hc h'.2, hw⟩

end Move

/-! ## Migrations -/

open Move

variable {ν : Type u} {δ : Type v} [DecidableEq ν]

/-- Columns are dropped, then added, then moved. -/
def migration (ds : List ν) (cs : List (Column ν δ)) (ms : List (Move ν δ)) : List (Alter ν δ) :=
  ds.map .drop ++ cs.map (fun c => .add c.name c.spec) ++ ms.flatMap Move.alters

/-- No added column and no moved one takes a name in use at its turn; `r` are the columns
that neither go nor move. -/
structure Migrates (r cs : List (Column ν δ)) (ms : List (Move ν δ)) : Prop where
  added_free : ∀ c ∈ cs, c.name ∉ names (r ++ ms.map col)
  added_nodup : (names cs).Nodup
  clear : Clear (r ++ cs.map fun c => fresh c.name c.spec) ms

/-- A migration of a table goes through exactly when no name it gives is in use, and then
leaves the columns outside it, the added ones and the moved ones. -/
theorem exec_migration {t gone r cs : List (Column ν δ)} {ds : List ν} {ms : List (Move ν δ)}
    (h : t.Perm (gone ++ (r ++ ms.map col))) (hn : (names t).Nodup)
    (hgone : ∀ n ∈ names gone, n ∈ ds) (hkeep : ∀ n ∈ names (r ++ ms.map col), n ∉ ds) :
    (Migrates r cs ms ∧ ∃ u, Alter.exec (migration ds cs ms) t = some u ∧
        u.Perm (r ++ (cs.map fun c => fresh c.name c.spec) ++ ms.map moved)) ∨
      (¬Migrates r cs ms ∧ Alter.exec (migration ds cs ms) t = none) := by
  obtain ⟨t', ht', hdrop, hsub⟩ := Alter.exec_drops_perm h hgone hkeep
  have hnames := names_perm hdrop
  have hnd : (names t').Nodup := hn.sublist (hsub.map _)
  rw [migration, Alter.exec_append, Alter.exec_append, ht', Option.bind_some, Alter.exec_adds]
  split_ifs with hadd
  · have hfree : ∀ c ∈ cs, c.name ∉ names (r ++ ms.map col) := fun c hc hm =>
      hadd.1 c hc (hnames.mem_iff.2 hm)
    have hp : (t' ++ cs.map fun c => fresh c.name c.spec).Perm
        ((r ++ cs.map fun c => fresh c.name c.spec) ++ ms.map col) := by
      refine (hdrop.append_right _).trans ?_
      rw [List.append_assoc, List.append_assoc]
      exact List.perm_append_comm.append_left _
    have hnd' : (names (t' ++ cs.map fun c => fresh c.name c.spec)).Nodup := by
      have hcs : names (cs.map fun c => fresh c.name c.spec) = names cs := by
        simp [names, fresh, Function.comp_def]
      rw [names_append, hcs, List.nodup_append']
      refine ⟨hnd, hadd.2, fun n hn₁ hn₂ => ?_⟩
      obtain ⟨c, hc, rfl⟩ := mem_names.1 hn₂
      exact hadd.1 c hc hn₁
    rw [Option.bind_some]
    rcases exec_moves ms hp hnd' with ⟨hc, u, hu, hpu⟩ | ⟨hc, hu⟩
    · exact .inl ⟨⟨hfree, hadd.2, hc⟩, u, hu, hpu⟩
    · exact .inr ⟨fun hm => hc hm.clear, hu⟩
  · refine .inr ⟨fun hm => hadd ⟨fun c hc hin => ?_, hm.added_nodup⟩, rfl⟩
    exact hm.added_free c hc (hnames.mem_iff.1 hin)

end PPBase
