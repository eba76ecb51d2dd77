import PPBase.ArchiveStore
import PPBase.BackupCron
import PPBase.StableSort
import Mathlib.Data.Char
import Mathlib.Data.List.Lex
import Mathlib.Order.Hom.Basic

/-!
# Retention of automatic backups

After each scheduled backup the scheduler deletes all but the newest archives whose names begin
like its own (`pruneAutomaticBackups`). The directory may hold archives that were made by hand or
uploaded, with any name that is accepted and any time.

What is deleted is the scheduler's, enough of its archives stay, and the older ones go first
(`Retains`), exactly if no archive has to go or the state is as in `Orderly` : no other archive is
named like the scheduler's, fewer than `max_keep` come before the one just created, and archives
whose times have one text are listed with the newer one first (`prune_retains_iff`).
-/

namespace PPBase

open ArchiveStore StableSort

namespace BackupRetention

/-! ## Names -/

def automaticFilenamePrefix : Text := "ppbase_auto_"

/-- `[a-z0-9]` -/
def isSlugChar (c : Char) : Bool := c.isLower || c.isDigit

/-- `_SAFE_SLUG_RE.sub("_", text)` : an underscore for each run of other characters. -/
def subSlug (inRun : Bool) : Text → Text
  | [] => []
  | c :: cs =>
    if isSlugChar c then c :: subSlug false cs
    else if inRun then subSlug true cs
    else '_' :: subSlug true cs

/-- `text.strip("_")` -/
def stripUnderscores (text : Text) : Text :=
  ((text.dropWhile (· = '_')).reverse.dropWhile (· = '_')).reverse

/-- `%m` and the like. -/
def twoDigits (n : ℕ) : Text := if n < 10 then '0' :: Nat.toDigits 10 n else Nat.toDigits 10 n

/-- `strftime("%Y%m%dT%H%M00Z")` -/
def minuteStamp (t : BackupCron.Instant) : Text :=
  Nat.toDigits 10 t.year ++ twoDigits t.month ++ twoDigits t.day ++ 'T' :: twoDigits t.hour ++
    twoDigits t.minute ++ ("00Z" : Text)

variable (u : Unicode)

/-- `automatic_backup_filename` -/
def automaticBackupFilename (appName : Text) (minute : BackupCron.Instant) : Text :=
  let slug := (stripUnderscores (subSlug false (u.casefold appName))).take 48
  let slug : Text := if slug = [] then "ppbase" else slug
  automaticFilenamePrefix ++ slug ++ '_' :: minuteStamp minute ++ (".zip" : Text)

/-! ## Archives -/

/-- Who put an archive into the directory. -/
inductive Origin where
  | scheduler
  | byHand
  | uploaded
deriving DecidableEq

/-- An archive with the time of its file. The key was accepted, and the scheduler's are named by
it. -/
structure Archive where
  key : Text
  time : ℕ
  origin : Origin
  accepted : keyError u key false = none
  named : origin = .scheduler → ∃ appName minute, key = automaticBackupFilename u appName minute
deriving DecidableEq

variable {u} (isoformat : ℕ →o Text)

/-- The text that `_modified` makes of the time. The texts have one width, so that of a later time
is not before that of an earlier one. -/
def Archive.modified (a : Archive u) : Text := isoformat a.time

/-- `archive.key.startswith(_AUTOMATIC_FILENAME_PREFIX)` -/
def Archive.isAutomatic (a : Archive u) : Bool :=
  (Text.afterPrefix? automaticFilenamePrefix a.key).isSome

/-- `list()` of the files that `os.scandir` finds. -/
def listArchives (dir : List (Archive u)) : List (Archive u) :=
  sortDesc (Archive.modified isoformat) (dir.filter fun a => isListed u a.key)

/-- The automatic backups, in the order in which they are kept. -/
def automaticBackups (dir : List (Archive u)) : List (Archive u) :=
  sortDesc (Archive.modified isoformat) ((listArchives isoformat dir).filter Archive.isAutomatic)

/-- `delete_local_backup`, which may fail. -/
def deleteLocalBackup (fails : Text → Bool) (dir : List (Archive u)) (a : Archive u) :
    List (Archive u) :=
  if fails a.key then dir else dir.filter fun b => b.key ≠ a.key

/-- `_prune_automatic_backups` -/
def pruneAutomaticBackups (fails : Text → Bool) (maxKeep : ℕ) (dir : List (Archive u)) :
    List (Archive u) :=
  if maxKeep = 0 then dir
  else ((automaticBackups isoformat dir).drop maxKeep).foldl (deleteLocalBackup fails) dir

/-! ## What is deleted -/

section

variable {isoformat} {dir : List (Archive u)} {a b : Archive u} {maxKeep : ℕ}

/-- The archive is listed, and named like those of the scheduler. -/
def Archive.Automatic (a : Archive u) : Prop := isListed u a.key = true ∧ a.isAutomatic = true

instance : DecidablePred (Archive.Automatic (u := u)) :=
  fun _ => inferInstanceAs (Decidable (_ ∧ _))

/-- The archives of the scheduler are listed, and named so. -/
theorem Archive.automatic_of_scheduler (h : a.origin = .scheduler) : a.Automatic := by
  obtain ⟨appName, minute, hkey⟩ := a.named h
  obtain ⟨rest, hrest⟩ : ∃ rest, a.key = automaticFilenamePrefix ++ rest := by
    rw [hkey, automaticBackupFilename, List.append_assoc, List.append_assoc]
    exact ⟨_, rfl⟩
  have hsuffix : ¬attrsSuffix <:+ a.key := by
    intro hsuffix
    have haccepted := a.accepted
    rw [keyError] at haccepted
    split_ifs at haccepted
  constructor
  · have hhead : a.key.head? ≠ some '.' := by
      rw [hrest]
      exact fun h => absurd (Option.some.inj h) (by decide)
    simp [isListed, hhead, hsuffix, a.accepted]
  · rw [Archive.isAutomatic, hrest, Text.afterPrefix?_append]
    rfl

theorem perm_automaticBackups :
    (automaticBackups isoformat dir).Perm (dir.filter fun a => a.Automatic) := by
  refine (perm_sortDesc _).trans (((perm_sortDesc _).filter _).trans ?_)
  rw [List.filter_filter]
  refine List.Perm.of_eq (List.filter_congr fun a _ => ?_)
  rw [Bool.eq_iff_iff, Bool.and_eq_true, decide_eq_true_eq, and_comm]
  rfl

theorem mem_automaticBackups :
    a ∈ automaticBackups isoformat dir ↔ a ∈ dir ∧ a.Automatic := by
  rw [perm_automaticBackups.mem_iff, List.mem_filter, decide_eq_true_eq]

/-- The automatic backups are in the order of their times, and of the directory. -/
theorem pairwise_automaticBackups (hdir : dir.Nodup) :
    (automaticBackups isoformat dir).Pairwise (Before (Archive.modified isoformat) dir) := by
  have hlist : (listArchives isoformat dir).Pairwise (Before (Archive.modified isoformat) dir) :=
    (pairwise_sortDesc (hdir.filter _)).imp fun h => h.mono List.filter_sublist
  rw [automaticBackups, sortDesc_of_pairwise (hlist.filter _)]
  exact hlist.filter _

/-- How many automatic backups come before an archive. -/
def rank (isoformat : ℕ →o Text) (dir : List (Archive u)) (a : Archive u) : ℕ :=
  dir.countP fun b => b.Automatic ∧ Before (Archive.modified isoformat) dir b a

theorem mem_take_iff_rank (hdir : dir.Nodup) (ha : a ∈ dir) (hauto : a.Automatic) :
    a ∈ (automaticBackups isoformat dir).take maxKeep ↔ rank isoformat dir a < maxKeep := by
  rw [mem_take_iff (Before.irrefl hdir) (fun _ _ h => h.asymm hdir)
    (pairwise_automaticBackups hdir) (mem_automaticBackups.2 ⟨ha, hauto⟩),
    perm_automaticBackups.countP_eq, List.countP_filter, rank]
  simp only [Bool.decide_and, Bool.and_comm]

/-- An archive that is kept comes before one that is not. -/
theorem before_of_rank (hdir : dir.Nodup) (hb : b ∈ dir) (hbauto : b.Automatic)
    (hbrank : rank isoformat dir b < maxKeep) (ha : a ∈ dir) (hauto : a.Automatic)
    (hrank : ¬rank isoformat dir a < maxKeep) : Before (Archive.modified isoformat) dir b a := by
  have hpairs := @pairwise_automaticBackups _ isoformat dir hdir
  rw [← List.take_append_drop maxKeep (automaticBackups isoformat dir),
    List.pairwise_append] at hpairs
  have hmem : a ∈ automaticBackups isoformat dir := mem_automaticBackups.2 ⟨ha, hauto⟩
  rw [← List.take_append_drop maxKeep (automaticBackups isoformat dir), List.mem_append] at hmem
  exact hpairs.2.2 b ((mem_take_iff_rank hdir hb hbauto).2 hbrank) a
    (hmem.resolve_left fun h => hrank ((mem_take_iff_rank hdir ha hauto).1 h))

theorem foldl_deleteLocalBackup (fails : Text → Bool) (ds dir : List (Archive u)) :
    ds.foldl (deleteLocalBackup fails) dir =
      dir.filter fun b => b.key ∉ (ds.filter fun d => !fails d.key).map Archive.key := by
  induction ds generalizing dir with
  | nil => simp
  | cons d ds ih =>
    rw [List.foldl_cons, ih, deleteLocalBackup]
    cases hd : fails d.key with
    | true => simp [hd]
    | false =>
      rw [if_neg Bool.false_ne_true, List.filter_filter]
      refine List.filter_congr fun b _ => ?_
      rw [Bool.eq_iff_iff]
      simp [hd, and_comm]

theorem prune_eq (hpos : 0 < maxKeep) (fails : Text → Bool) :
    pruneAutomaticBackups isoformat fails maxKeep dir = dir.filter fun b => b.key ∉
      (((automaticBackups isoformat dir).drop maxKeep).filter fun d => !fails d.key).map
        Archive.key := by
  rw [pruneAutomaticBackups, if_neg hpos.ne', foldl_deleteLocalBackup]

theorem mem_of_mem_prune {fails : Text → Bool} (hpos : 0 < maxKeep)
    (h : a ∈ pruneAutomaticBackups isoformat fails maxKeep dir) : a ∈ dir := by
  rw [prune_eq hpos] at h
  exact List.mem_of_mem_filter h

/-- A deletion that fails only keeps an archive more. -/
theorem sublist_prune (hpos : 0 < maxKeep) (fails : Text → Bool) :
    (pruneAutomaticBackups isoformat (fun _ => false) maxKeep dir).Sublist
      (pruneAutomaticBackups isoformat fails maxKeep dir) := by
  rw [prune_eq hpos, prune_eq hpos]
  refine List.monotone_filter_right dir fun b hb => ?_
  rw [decide_eq_true_eq] at hb ⊢
  refine mt (fun h => ?_) hb
  obtain ⟨d, hd, hkey⟩ := List.mem_map.1 h
  exact List.mem_map.2 ⟨d, by simpa using List.mem_of_mem_filter hd, hkey⟩

/-- What is deleted are the automatic backups from `max_keep` on. -/
theorem mem_prune_iff (hkeys : (dir.map Archive.key).Nodup) (hpos : 0 < maxKeep) (ha : a ∈ dir) :
    a ∈ pruneAutomaticBackups isoformat (fun _ => false) maxKeep dir ↔
      (a.Automatic → rank isoformat dir a < maxKeep) := by
  have hdir : dir.Nodup := hkeys.of_map
  have hinj : ∀ b ∈ dir, b.key = a.key → b = a := fun b hb h =>
    List.inj_on_of_nodup_map hkeys hb ha h
  have hmem : a.key ∈ ((automaticBackups isoformat dir).drop maxKeep).map (·.key) ↔
      a.Automatic ∧ ¬rank isoformat dir a < maxKeep := by
    constructor
    · intro h
      obtain ⟨b, hb, hkey⟩ := List.mem_map.1 h
      obtain ⟨hbdir, hauto⟩ := mem_automaticBackups.1 (List.mem_of_mem_drop hb)
      obtain rfl := hinj b hbdir hkey
      refine ⟨hauto, fun hlt => ?_⟩
      have hnodup : (automaticBackups isoformat dir).Nodup :=
        perm_automaticBackups.nodup_iff.2 (hdir.filter _)
      exact List.disjoint_take_drop hnodup le_rfl
        ((mem_take_iff_rank hdir ha hauto).2 hlt) hb
    · rintro ⟨hauto, hnot⟩
      have hmem : a ∈ automaticBackups isoformat dir := mem_automaticBackups.2 ⟨ha, hauto⟩
      rw [← List.take_append_drop maxKeep (automaticBackups isoformat dir), List.mem_append] at hmem
      exact List.mem_map_of_mem
        (hmem.resolve_left fun h => hnot ((mem_take_iff_rank hdir ha hauto).1 h))
  simp only [prune_eq hpos, Bool.not_false, List.filter_true, List.mem_filter, decide_eq_true_eq,
    hmem]
  tauto

/-! ## What retention is for -/

/-- The archives of the scheduler. -/
def Archive.Own (a : Archive u) : Prop := a.origin = .scheduler

instance : DecidablePred (Archive.Own (u := u)) := fun _ => inferInstanceAs (Decidable (_ = _))

/-- What is kept of a directory after the scheduler created an archive. -/
structure Retains (maxKeep : ℕ) (dir : List (Archive u)) (new : Archive u)
    (kept : List (Archive u)) : Prop where
  /-- Only archives of the scheduler are deleted. -/
  own : ∀ a ∈ dir, a ∉ kept → a.Own
  /-- Enough of them are kept. -/
  enough : min maxKeep (dir.countP fun a => a.Own) ≤ kept.countP fun a => a.Own
  created : new ∈ kept
  /-- None that is deleted is newer than one that is kept. -/
  oldest : ∀ a ∈ dir, a ∉ kept → ∀ b ∈ kept, b.Own → a.time ≤ b.time

/-- A directory in which the names and the times of the archives mislead the scheduler nowhere. -/
structure Orderly (isoformat : ℕ →o Text) (maxKeep : ℕ) (dir : List (Archive u))
    (new : Archive u) : Prop where
  /-- No other archive is named like those of the scheduler. -/
  own : ∀ a ∈ dir, a.Automatic → a.Own
  /-- Not too many archives come before the new one. -/
  created : rank isoformat dir new < maxKeep
  /-- Of two archives whose times have one text, an older one is not kept before a newer one. -/
  ties : ∀ a ∈ dir, ∀ b ∈ dir, a.Own → b.Own → a.modified isoformat = b.modified isoformat →
    b.time < a.time → rank isoformat dir b < maxKeep → rank isoformat dir a < maxKeep

theorem countP_lt_countP {α : Type*} {l : List α} {p q : α → Bool} {x : α}
    (h : ∀ y ∈ l, p y = true → q y = true) (hx : x ∈ l) (hq : q x = true) (hp : ¬p x = true) :
    l.countP p < l.countP q := by
  obtain ⟨v, w, rfl⟩ := List.append_of_mem hx
  simp only [List.countP_append, List.countP_cons, if_pos hq, if_neg hp]
  have hv : v.countP p ≤ v.countP q :=
    List.countP_mono_left fun y hy => h y (List.mem_append_left _ hy)
  have hw : w.countP p ≤ w.countP q :=
    List.countP_mono_left fun y hy => h y (List.mem_append_right _ (List.mem_cons_of_mem _ hy))
  omega

/-- As many automatic backups are kept as there are, up to `max_keep`. -/
theorem countP_rank_lt (hdir : dir.Nodup) :
    (dir.countP fun a => a.Automatic ∧ rank isoformat dir a < maxKeep) =
      min maxKeep (dir.countP fun a => a.Automatic) := by
  have hperm := @perm_automaticBackups _ isoformat dir
  have hlength : (automaticBackups isoformat dir).length = dir.countP fun a => a.Automatic := by
    rw [hperm.length_eq, List.countP_eq_length_filter]
  have hcount : (dir.countP fun a => a.Automatic ∧ rank isoformat dir a < maxKeep) =
      (automaticBackups isoformat dir).countP fun a => rank isoformat dir a < maxKeep := by
    rw [hperm.countP_eq, List.countP_filter]
    simp only [Bool.decide_and, Bool.and_comm]
  have hrank : ∀ a ∈ automaticBackups isoformat dir,
      (a ∈ (automaticBackups isoformat dir).take maxKeep ↔ rank isoformat dir a < maxKeep) :=
    fun a ha => mem_take_iff_rank hdir (mem_automaticBackups.1 ha).1 (mem_automaticBackups.1 ha).2
  have hdisjoint : ∀ a ∈ (automaticBackups isoformat dir).drop maxKeep,
      a ∉ (automaticBackups isoformat dir).take maxKeep := fun a ha hmem =>
    List.disjoint_take_drop (hperm.nodup_iff.2 (hdir.filter _)) le_rfl hmem ha
  have htake : ((automaticBackups isoformat dir).take maxKeep).countP
      (fun a => rank isoformat dir a < maxKeep) =
        min maxKeep (automaticBackups isoformat dir).length := by
    rw [List.countP_eq_length.2, List.length_take]
    intro a ha
    rw [decide_eq_true_eq]
    exact (hrank a (List.mem_of_mem_take ha)).1 ha
  have hdrop : ((automaticBackups isoformat dir).drop maxKeep).countP
      (fun a => rank isoformat dir a < maxKeep) = 0 := by
    rw [List.countP_eq_zero]
    intro a ha
    rw [decide_eq_true_eq, ← hrank a (List.mem_of_mem_drop ha)]
    exact hdisjoint a ha
  have hsplit := congrArg (List.countP fun a => decide (rank isoformat dir a < maxKeep))
    (List.take_append_drop maxKeep (automaticBackups isoformat dir))
  rw [List.countP_append, htake, hdrop, hlength] at hsplit
  rw [hcount, ← hsplit, Nat.add_zero]

theorem countP_own_prune (hkeys : (dir.map Archive.key).Nodup) (hpos : 0 < maxKeep) :
    ((pruneAutomaticBackups isoformat (fun _ => false) maxKeep dir).countP fun a => a.Own) =
      dir.countP fun a => a.Own ∧ rank isoformat dir a < maxKeep := by
  have hmem : ∀ a ∈ dir, (a ∈ pruneAutomaticBackups isoformat (fun _ => false) maxKeep dir ↔
      (a.Automatic → rank isoformat dir a < maxKeep)) := fun a ha => mem_prune_iff hkeys hpos ha
  rw [prune_eq hpos] at hmem ⊢
  rw [List.countP_filter]
  refine List.countP_congr fun a ha => ?_
  have hkept := hmem a ha
  rw [List.mem_filter, and_iff_right ha] at hkept
  rw [Bool.and_eq_true, hkept, decide_eq_true_eq, decide_eq_true_eq]
  exact and_congr_right fun hown => ⟨fun h => h (Archive.automatic_of_scheduler hown), fun h _ => h⟩

/-- Retention does what it is for exactly if nothing has to go or the directory is orderly. -/
theorem prune_retains_iff (isoformat : ℕ →o Text) (maxKeep : ℕ) (hpos : 0 < maxKeep)
    (dir : List (Archive u)) (hkeys : (dir.map Archive.key).Nodup) (new : Archive u)
    (hnew : new ∈ dir) (hown : new.Own) :
    Retains maxKeep dir new (pruneAutomaticBackups isoformat (fun _ => false) maxKeep dir) ↔
      (dir.countP fun a => a.Automatic) ≤ maxKeep ∨ Orderly isoformat maxKeep dir new := by
  have hdir : dir.Nodup := hkeys.of_map
  have hmem : ∀ a ∈ dir, (a ∈ pruneAutomaticBackups isoformat (fun _ => false) maxKeep dir ↔
      (a.Automatic → rank isoformat dir a < maxKeep)) := fun a ha => mem_prune_iff hkeys hpos ha
  have hdeleted : ∀ a ∈ dir, a ∉ pruneAutomaticBackups isoformat (fun _ => false) maxKeep dir →
      a.Automatic ∧ ¬rank isoformat dir a < maxKeep := by
    intro a ha hnot
    rw [hmem a ha, Classical.not_imp] at hnot
    exact hnot
  have hcount := @countP_rank_lt _ isoformat dir maxKeep hdir
  constructor
  · intro h
    refine or_iff_not_imp_left.2 fun hmany => ?_
    -- Something is deleted, and it is the scheduler's.
    obtain ⟨d, hd, hdauto, hdrank⟩ :
        ∃ d ∈ dir, d.Automatic ∧ ¬rank isoformat dir d < maxKeep := by
      by_contra hnone
      have hall : (dir.countP fun a => a.Automatic ∧ rank isoformat dir a < maxKeep) =
          dir.countP fun a => a.Automatic := by
        refine List.countP_congr fun a ha => ?_
        simp only [decide_eq_true_eq, and_iff_left_iff_imp]
        intro hauto
        by_contra hrank
        exact hnone ⟨a, ha, hauto, hrank⟩
      omega
    have hdown : d.Own := h.own d hd fun hkept => hdrank ((hmem d hd).1 hkept hdauto)
    refine ⟨fun f hf hauto => ?_, (hmem new hnew).1 h.created (Archive.automatic_of_scheduler hown),
      fun a ha b hb haown hbown htext htime hrank => ?_⟩
    · -- Another archive would take a place from those of the scheduler.
      by_contra hforeign
      have hfrank : rank isoformat dir f < maxKeep :=
        (hmem f hf).1 (not_imp_comm.1 (h.own f hf) hforeign) hauto
      have hplaces : (dir.countP fun a => a.Own ∧ rank isoformat dir a < maxKeep) <
          dir.countP fun a => a.Automatic ∧ rank isoformat dir a < maxKeep :=
        countP_lt_countP (fun a _ ha => by
          rw [decide_eq_true_eq] at ha ⊢
          exact ⟨Archive.automatic_of_scheduler ha.1, ha.2⟩) hf
          (by simp [hauto, hfrank]) (by simp [hforeign])
      have hfewer : (dir.countP fun a => a.Own ∧ rank isoformat dir a < maxKeep) <
          dir.countP fun a => a.Own :=
        countP_lt_countP (fun a _ ha => by
          rw [decide_eq_true_eq] at ha ⊢
          exact ha.1) hd (by simp [hdown]) (by simp [hdrank])
      have henough := h.enough
      rw [countP_own_prune hkeys hpos] at henough
      omega
    · by_contra hlast
      have hakept : a ∉ pruneAutomaticBackups isoformat (fun _ => false) maxKeep dir := fun hkept =>
        hlast ((hmem a ha).1 hkept (Archive.automatic_of_scheduler haown))
      have hle := h.oldest a ha hakept b ((hmem b hb).2 fun _ => hrank) hbown
      omega
  · rintro (hfew | h)
    · have hkept : ∀ a ∈ dir, a ∈ pruneAutomaticBackups isoformat (fun _ => false) maxKeep dir := by
        intro a ha
        refine (hmem a ha).2 fun hauto => ?_
        by_contra hrank
        have hlt : (dir.countP fun a => a.Automatic ∧ rank isoformat dir a < maxKeep) <
            dir.countP fun a => a.Automatic :=
          countP_lt_countP (fun a _ ha => by
            rw [decide_eq_true_eq] at ha ⊢
            exact ha.1) ha (by simp [hauto]) (by simp [hrank])
        omega
      refine ⟨fun a ha hnot => absurd (hkept a ha) hnot, ?_, hkept new hnew,
        fun a ha hnot => absurd (hkept a ha) hnot⟩
      rw [countP_own_prune hkeys hpos]
      refine (min_le_right _ _).trans (List.countP_mono_left fun a ha haown => ?_)
      rw [decide_eq_true_eq] at haown ⊢
      exact ⟨haown, (hmem a ha).1 (hkept a ha) (Archive.automatic_of_scheduler haown)⟩
    · have hown_iff : ∀ a ∈ dir, (a.Own ↔ a.Automatic) := fun a ha =>
        ⟨Archive.automatic_of_scheduler, h.own a ha⟩
      refine ⟨fun a ha hnot => h.own a ha (hdeleted a ha hnot).1, ?_,
        (hmem new hnew).2 fun _ => h.created, fun a ha hnot b hb hbown => ?_⟩
      · have hboth : (dir.countP fun a => a.Own ∧ rank isoformat dir a < maxKeep) =
            dir.countP fun a => a.Automatic ∧ rank isoformat dir a < maxKeep :=
          List.countP_congr fun a ha => by simp only [decide_eq_true_eq, hown_iff a ha]
        have hall : (dir.countP fun a => a.Own) = dir.countP fun a => a.Automatic :=
          List.countP_congr fun a ha => by simp only [decide_eq_true_eq, hown_iff a ha]
        rw [countP_own_prune hkeys hpos, hboth, hcount, hall]
      · obtain ⟨hauto, hrank⟩ := hdeleted a ha hnot
        have hbdir : b ∈ dir := mem_of_mem_prune hpos hb
        have hbauto : b.Automatic := Archive.automatic_of_scheduler hbown
        have hbrank : rank isoformat dir b < maxKeep := (hmem b hbdir).1 hb hbauto
        have hbefore : Before (Archive.modified isoformat) dir b a :=
          before_of_rank hdir hbdir hbauto
          hbrank ha hauto hrank
        by_contra htime
        rcases hbefore with hlt | ⟨heq, -⟩
        · exact absurd (isoformat.monotone (Nat.le_of_not_le htime)) (not_le.2 hlt)
        · exact hrank (h.ties a ha b hbdir (h.own a ha hauto) hbown heq (Nat.lt_of_not_le htime) hbrank)

/-- Whichever deletions fail, only archives of the scheduler are deleted from an orderly directory,
and enough of them are kept. -/
theorem prune_fails {new : Archive u} (hpos : 0 < maxKeep) (fails : Text → Bool)
    (h : Retains maxKeep dir new (pruneAutomaticBackups isoformat (fun _ => false) maxKeep dir)) :
    (∀ a ∈ dir, a ∉ pruneAutomaticBackups isoformat fails maxKeep dir → a.Own) ∧
      (min maxKeep (dir.countP fun a => a.Own) ≤
        (pruneAutomaticBackups isoformat fails maxKeep dir).countP fun a => a.Own) ∧
      new ∈ pruneAutomaticBackups isoformat fails maxKeep dir := by
  have hsub := @sublist_prune _ isoformat dir maxKeep hpos fails
  refine ⟨fun a ha hnot => h.own a ha fun hkept => hnot (hsub.subset hkept), ?_,
    hsub.subset h.created⟩
  exact h.enough.trans hsub.countP_le

end

/-! ## An archive that was uploaded -/

/-- Python's view of ASCII characters. -/
def asciiUnicode : Unicode where
  nfc := id
  isOther c := c.toNat < 32 || c.toNat == 127
  casefold := Text.lower

/-- The texts of the first ten seconds of the calendar. -/
def secondText (n : ℕ) : Text :=
  ("0001-01-01T00:00:0" : Text) ++ Nat.digitChar n :: (".000Z" : Text)

theorem secondText_le : ∀ m ≤ 9, ∀ n ≤ m, secondText n ≤ secondText m := by decide

/-- `_modified` of a time in nanoseconds, in the first ten seconds of the calendar. -/
def earlyText : ℕ →o Text where
  toFun t := secondText (min (t / 1000000000) 9)
  monotone' _ _ h := secondText_le _ (min_le_right _ _) _
    (min_le_min_right 9 (Nat.div_le_div_right h))

def firstMinute : BackupCron.Instant :=
  ⟨1, 1, 1, 0, 0, by decide, by decide, by decide, by decide, by decide⟩

def secondMinute : BackupCron.Instant :=
  ⟨1, 1, 1, 0, 1, by decide, by decide, by decide, by decide, by decide⟩

/-- The backup of the first minute. -/
def scheduled : Archive asciiUnicode where
  key := automaticBackupFilename asciiUnicode "PPBase" firstMinute
  time := 5000000000
  origin := .scheduler
  accepted := by decide
  named _ := ⟨"PPBase", firstMinute, rfl⟩

/-- The backup of the second minute. -/
def rescheduled : Archive asciiUnicode where
  key := automaticBackupFilename asciiUnicode "PPBase" secondMinute
  time := 8000000000
  origin := .scheduler
  accepted := by decide
  named _ := ⟨"PPBase", secondMinute, rfl⟩

/-- An archive that was uploaded under a name like those of the scheduler. -/
def uploaded : Archive asciiUnicode where
  key := "ppbase_auto_mine.zip"
  time := 1000000000
  origin := .uploaded
  accepted := by decide
  named h := nomatch h

/-- Of two scheduled backups the older is deleted. -/
theorem scheduled_retained :
    pruneAutomaticBackups earlyText (fun _ => false) 1 [scheduled, rescheduled] = [rescheduled] ∧
    Retains 1 [scheduled, rescheduled] rescheduled
      (pruneAutomaticBackups earlyText (fun _ => false) 1 [scheduled, rescheduled]) := by
  have hkeys : ([scheduled, rescheduled].map Archive.key).Nodup := by decide
  refine ⟨by decide, (prune_retains_iff earlyText 1 one_pos _ hkeys rescheduled (by simp) rfl).2
    (.inr ⟨by decide, by decide, by decide⟩)⟩

/-- The uploaded archive is deleted after the scheduled backup. -/
theorem uploaded_deleted : ¬∀ (maxKeep : ℕ) (dir : List (Archive asciiUnicode))
    (new : Archive asciiUnicode), 0 < maxKeep → (dir.map Archive.key).Nodup → new ∈ dir → new.Own →
      Retains maxKeep dir new (pruneAutomaticBackups earlyText (fun _ => false) maxKeep dir) := by
  intro h
  have hretains := h 1 [uploaded, scheduled] scheduled one_pos (by decide) (by simp) rfl
  exact nomatch hretains.own uploaded (by simp) (by decide)

end BackupRetention

end PPBase
