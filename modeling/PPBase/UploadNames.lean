import PPBase.StorageNames

/-!
# The names of uploads

The name of a stored file is what is left of the stem of the upload, a random suffix and what is
left of the extension (`generateStorageFilename`). All its characters are plain, so that it is a
valid reference and not remote, and its extension is read back as what was kept of the upload's
(`keptSuffix`).
-/

namespace PPBase

namespace UploadNames

open StorageNames

variable {φ : Type}

/-! ## The names of stored files -/

/-- `_MAX_SAFE_STEM_LENGTH` -/
def maxSafeStemLength : ℕ := 180

/-- `_MAX_SAFE_EXTENSION_LENGTH` -/
def maxSafeExtensionLength : ℕ := 16

/-- `[A-Za-z0-9]` -/
def isAlphanum : CodePoint → Bool
  | .scalar c => c.isAlphanum
  | .surrogate _ => false

/-- `[A-Za-z0-9_-]` -/
def isSafeStemChar (c : CodePoint) : Bool := isAlphanum c || c = .scalar '_' || c = .scalar '-'

/-- `re.sub` of the runs of some characters. The flag tells that a run has begun. -/
def subRuns (isIn : CodePoint → Bool) (repl : PyText) : Bool → PyText → PyText
  | _, [] => []
  | inRun, c :: s =>
    if isIn c then (if inRun then [] else repl) ++ subRuns isIn repl true s
    else c :: subRuns isIn repl false s

/-- `Path(path).name` -/
def pathName (path : PyText) : PyText :=
  ((path.splitOn (.scalar '/')).filter fun part =>
    part ≠ [] && part ≠ PyText.ofText ".").getLast?.getD []

/-- `stem` and `suffix` of a name. Its last dot counts unless it is the first or the last
character. -/
def splitExtension (name : PyText) : PyText × PyText :=
  let before := name.rdropWhile (· ≠ .scalar '.')
  let after := name.rtakeWhile (· ≠ .scalar '.')
  if 1 < before.length ∧ after ≠ [] then (before.dropLast, .scalar '.' :: after) else (name, [])

/-- `Path(path).stem` -/
def pathStem (path : PyText) : PyText := (splitExtension (pathName path)).1

/-- `Path(path).suffix` -/
def pathSuffix (path : PyText) : PyText := (splitExtension (pathName path)).2

/-- `stem.strip("_")` -/
def stripUnderscores (stem : PyText) : PyText :=
  (stem.dropWhile (· = .scalar '_')).rdropWhile (· = .scalar '_')

/-- `_sanitize_stem` -/
def sanitizeStem (originalName : PyText) : PyText :=
  let stem := strip (pathStem originalName)
  if stem = [] then .ofText "file"
  else
    let stem := stem.map fun c => if c = .scalar ' ' then .scalar '_' else c
    let stem := subRuns (fun c => !isSafeStemChar c) (.ofText "_") false stem
    let stem := stripUnderscores (subRuns (· = .scalar '_') (.ofText "_") false stem)
    (if stem = [] then .ofText "file" else stem).take maxSafeStemLength

/-- What `_random_suffix()` gives. -/
structure RandomSuffix where
  text : Text
  length_eq : text.length = 10
  isAlphanum_of_mem : ∀ c ∈ text, c.isAlphanum = true

/-- The extension with its dot, `ext` in `_generate_storage_filename`. -/
def safeSuffix (originalName : PyText) : PyText :=
  let rawExtension := (pathSuffix originalName).dropWhile (· = .scalar '.')
  let safeExtension :=
    (subRuns (fun c => !isAlphanum c) [] false rawExtension).take maxSafeExtensionLength
  if safeExtension ≠ [] then .scalar '.' :: safeExtension else []

/-- `_generate_storage_filename` -/
def generateStorageFilename (random : RandomSuffix) (originalName : PyText) : PyText :=
  sanitizeStem originalName ++ .scalar '_' :: (.ofText random.text ++ safeSuffix originalName)

/-! ## What a generated name consists of -/

theorem mem_subRuns {isIn : CodePoint → Bool} {repl : PyText} {c : CodePoint} :
    ∀ {inRun : Bool} {s : PyText}, c ∈ subRuns isIn repl inRun s → c ∈ repl ∨ c ∈ s ∧ isIn c = false
  | _, [], h => absurd h List.not_mem_nil
  | inRun, d :: s, h => by
    have hrest : ∀ {b : Bool}, c ∈ subRuns isIn repl b s → c ∈ repl ∨ c ∈ d :: s ∧ isIn c = false :=
      fun hc => (mem_subRuns hc).imp_right fun hc => ⟨List.mem_cons_of_mem _ hc.1, hc.2⟩
    rw [subRuns] at h
    split_ifs at h with hd hrun
    · exact hrest h
    · rcases List.mem_append.1 h with h | h
      · exact .inl h
      · exact hrest h
    · rcases List.mem_cons.1 h with rfl | h
      · exact .inr ⟨List.mem_cons_self, Bool.eq_false_iff.2 hd⟩
      · exact hrest h

/-- Replaced by nothing, the characters are left out. -/
theorem subRuns_nil {isIn : CodePoint → Bool} :
    ∀ {inRun : Bool} {s : PyText}, subRuns isIn [] inRun s = s.filter fun c => !isIn c
  | _, [] => rfl
  | inRun, c :: s => by
    rw [subRuns, List.filter_cons]
    cases hc : isIn c <;> simp [subRuns_nil (s := s)]

variable {c : CodePoint} {s : PyText}

theorem isPlain_of_isAlphanum (h : isAlphanum c = true) : isPlain c = true ∧ c ≠ .scalar '.' := by
  cases c with
  | surrogate n => cases h
  | scalar d =>
    have hd : d.isAlphanum = true := h
    refine ⟨?_, ?_⟩
    · rw [Char.isAlphanum, Bool.or_eq_true] at hd
      rcases hd with hd | hd <;> simp [isPlain, Text.isIdentChar, Text.isIdentStart, hd]
    · rintro hdot
      cases CodePoint.scalar.inj hdot
      revert hd
      decide

theorem isPlain_of_isSafeStemChar (h : isSafeStemChar c = true) :
    isPlain c = true ∧ c ≠ .scalar '.' := by
  simp only [isSafeStemChar, Bool.or_eq_true, decide_eq_true_eq] at h
  rcases h with (h | rfl) | rfl
  · exact isPlain_of_isAlphanum h
  · decide
  · decide

theorem mem_stripUnderscores (h : c ∈ stripUnderscores s) : c ∈ s :=
  (List.dropWhile_sublist _).subset ((List.rdropWhile_prefix _ _).subset h)

theorem isSafeStemChar_of_mem_sanitizeStem {name : PyText} (h : c ∈ sanitizeStem name) :
    isSafeStemChar c = true := by
  have hfile : ∀ d ∈ PyText.ofText "file", isSafeStemChar d = true := by decide
  have hunderscore : ∀ d ∈ PyText.ofText "_", isSafeStemChar d = true := by decide
  unfold sanitizeStem at h
  dsimp only at h
  split_ifs at h with hstem hempty
  · exact hfile c h
  · exact hfile c (List.mem_of_mem_take h)
  · rcases mem_subRuns (mem_stripUnderscores (List.mem_of_mem_take h)) with h | ⟨h, -⟩
    · exact hunderscore c h
    · rcases mem_subRuns h with h | ⟨-, h⟩
      · exact hunderscore c h
      · simpa using h

theorem length_sanitizeStem_le (name : PyText) :
    (sanitizeStem name).length ≤ maxSafeStemLength := by
  unfold sanitizeStem
  dsimp only
  split_ifs with hstem
  · decide
  · exact List.length_take_le _ _
  · exact List.length_take_le _ _

theorem ofText_randomSuffix (random : RandomSuffix) :
    (PyText.ofText random.text).length = 10 ∧
      ∀ c ∈ PyText.ofText random.text, isAlphanum c = true := by
  refine ⟨by rw [PyText.ofText, List.length_map, random.length_eq], fun c hc => ?_⟩
  obtain ⟨d, hd, rfl⟩ := List.mem_map.1 hc
  exact random.isAlphanum_of_mem d hd

/-! ## Extensions -/

/-- The letters and digits of the extension, up to the limit, after a dot. -/
def keptSuffix (originalName : PyText) : PyText :=
  match ((pathSuffix originalName).filter isAlphanum).take maxSafeExtensionLength with
  | [] => []
  | kept => .scalar '.' :: kept

theorem filter_dropWhile :
    (s.dropWhile (· = .scalar '.')).filter isAlphanum = s.filter isAlphanum := by
  induction s with
  | nil => rfl
  | cons c s ih =>
    by_cases hc : c = .scalar '.'
    · subst hc
      rw [List.dropWhile_cons_of_pos (by simp), ih, List.filter_cons_of_neg (by decide)]
    · rw [List.dropWhile_cons_of_neg (by simpa using hc)]

theorem safeSuffix_eq (name : PyText) : safeSuffix name = keptSuffix name := by
  have hnot : (fun c => !!isAlphanum c) = isAlphanum := funext fun c => Bool.not_not _
  unfold safeSuffix keptSuffix
  dsimp only
  rw [subRuns_nil, hnot, filter_dropWhile]
  cases ((pathSuffix name).filter isAlphanum).take maxSafeExtensionLength with
  | nil => rfl
  | cons c s => rfl

theorem mem_keptSuffix (name : PyText) :
    keptSuffix name = [] ∨ ∃ kept : PyText, keptSuffix name = .scalar '.' :: kept ∧ kept ≠ [] ∧
      kept.length ≤ maxSafeExtensionLength ∧ ∀ c ∈ kept, isAlphanum c = true := by
  unfold keptSuffix
  cases h : ((pathSuffix name).filter isAlphanum).take maxSafeExtensionLength with
  | nil => exact .inl rfl
  | cons c s =>
    refine .inr ⟨c :: s, rfl, List.cons_ne_nil _ _, ?_, fun d hd => ?_⟩
    · rw [← h]
      exact List.length_take_le _ _
    · rw [← h] at hd
      exact (List.mem_filter.1 (List.mem_of_mem_take hd)).2

/-- A name of one part that is not a dot is its own name. -/
theorem pathName_of_isComponent (h : IsComponent s) : pathName s = s := by
  have hsplit : s.splitOn (.scalar '/') = [s] := by
    refine List.splitOnP_eq_singleton fun c hc => ?_
    exact beq_eq_false_iff_ne.2 fun hslash => h.no_slash (hslash ▸ hc)
  have hpart : (decide (s ≠ []) && decide (s ≠ PyText.ofText ".")) = true :=
    Bool.and_eq_true_iff.2 ⟨decide_eq_true h.ne_nil, decide_eq_true h.ne_dot⟩
  rw [pathName, hsplit, List.filter_singleton, hpart]
  rfl

theorem splitExtension_of_noDot (h : ∀ c ∈ s, c ≠ .scalar '.') : splitExtension s = (s, []) := by
  have hbefore : s.rdropWhile (· ≠ .scalar '.') = [] :=
    (List.rdropWhile_eq_nil_iff ..).2 fun c hc => decide_eq_true (h c hc)
  rw [splitExtension, hbefore, if_neg (by simp)]

theorem splitExtension_append {e : PyText} (hs : s ≠ []) (he : e ≠ [])
    (h : ∀ c ∈ e, c ≠ .scalar '.') :
    splitExtension (s ++ .scalar '.' :: e) = (s, .scalar '.' :: e) := by
  have hall : ∀ c ∈ e.reverse, decide (c ≠ CodePoint.scalar '.') = true := fun c hc =>
    decide_eq_true (h c (List.mem_reverse.1 hc))
  have hbefore : (s ++ .scalar '.' :: e).rdropWhile (· ≠ .scalar '.') = s ++ [.scalar '.'] := by
    rw [List.rdropWhile, List.reverse_append, List.reverse_cons, List.append_assoc,
      List.dropWhile_append_of_pos hall]
    simp
  have hafter : (s ++ .scalar '.' :: e).rtakeWhile (· ≠ .scalar '.') = e := by
    rw [List.rtakeWhile, List.reverse_append, List.reverse_cons, List.append_assoc,
      List.takeWhile_append_of_pos hall]
    simp
  have hlength : 1 < (s ++ [CodePoint.scalar '.']).length := by
    have := List.length_pos_iff.2 hs
    rw [List.length_append, List.length_singleton]
    omega
  rw [splitExtension, hbefore, hafter, if_pos ⟨hlength, he⟩, List.dropLast_concat]

/-! ## Generated names -/

theorem hasWindowsDrivePrefix_of_notMem (h : .scalar ':' ∉ s) : hasWindowsDrivePrefix s = false := by
  unfold hasWindowsDrivePrefix
  split
  · exact absurd (List.mem_cons_of_mem _ List.mem_cons_self) h
  · rfl

/-- A URL without a colon has no scheme. -/
theorem isRemote_of_notMem (K : Storage.Codec) {t : Text} (h : ':' ∉ t) :
    Storage.isRemote K t = false := by
  have hclean : ':' ∉ Url.clean t := fun hc => h (Url.mem_clean hc)
  have hscheme : Url.splitScheme (Url.clean t) = ([], Url.clean t) := by
    unfold Url.splitScheme
    dsimp only
    rw [if_neg fun hc => hclean hc.1]
  unfold Storage.isRemote Url.urlsplit
  rw [hscheme]
  dsimp only
  split
  · rfl
  · rename_i url hurl
    split_ifs at hurl with hnetloc
    obtain rfl := Option.some.inj hurl
    rfl

theorem isPlain_generateStorageFilename (random : RandomSuffix) (name : PyText) :
    ∀ c ∈ generateStorageFilename random name, isPlain c = true := by
  intro c hc
  rw [generateStorageFilename, safeSuffix_eq] at hc
  rcases List.mem_append.1 hc with hc | hc
  · exact (isPlain_of_isSafeStemChar (isSafeStemChar_of_mem_sanitizeStem hc)).1
  rcases List.mem_cons.1 hc with rfl | hc
  · decide
  rcases List.mem_append.1 hc with hc | hc
  · exact (isPlain_of_isAlphanum ((ofText_randomSuffix random).2 c hc)).1
  rcases mem_keptSuffix name with hnil | ⟨kept, hkept, -, -, hall⟩
  · rw [hnil] at hc
    cases hc
  · rw [hkept] at hc
    rcases List.mem_cons.1 hc with rfl | hc
    · decide
    · exact (isPlain_of_isAlphanum (hall c hc)).1

theorem length_generateStorageFilename_le (random : RandomSuffix) (name : PyText) :
    (generateStorageFilename random name).length ≤ 208 := by
  have hstem := length_sanitizeStem_le name
  have hsuffix : (keptSuffix name).length ≤ 17 := by
    rcases mem_keptSuffix name with hnil | ⟨kept, hkept, -, hlength, -⟩
    · rw [hnil]
      exact Nat.zero_le _
    · rw [hkept, List.length_cons]
      exact Nat.succ_le_succ hlength
  rw [generateStorageFilename, safeSuffix_eq, List.length_append, List.length_cons,
    List.length_append, (ofText_randomSuffix random).1]
  unfold maxSafeStemLength at hstem
  omega

theorem isComponent_generateStorageFilename (random : RandomSuffix) (name : PyText) :
    IsComponent (generateStorageFilename random name) :=
  isComponent_of_plain (isPlain_generateStorageFilename random name)
    (List.mem_append_right _ List.mem_cons_self) (by decide)

/-- The extension of a generated name is what was kept of the extension of the upload. -/
theorem pathSuffix_generateStorageFilename (random : RandomSuffix) (name : PyText) :
    pathSuffix (generateStorageFilename random name) = keptSuffix name := by
  have hstem : ∀ c ∈ sanitizeStem name ++ .scalar '_' :: PyText.ofText random.text,
      c ≠ .scalar '.' := by
    intro c hc
    rcases List.mem_append.1 hc with hc | hc
    · exact (isPlain_of_isSafeStemChar (isSafeStemChar_of_mem_sanitizeStem hc)).2
    rcases List.mem_cons.1 hc with rfl | hc
    · decide
    · exact (isPlain_of_isAlphanum ((ofText_randomSuffix random).2 c hc)).2
  have hname : generateStorageFilename random name =
      (sanitizeStem name ++ .scalar '_' :: PyText.ofText random.text) ++ keptSuffix name := by
    rw [generateStorageFilename, safeSuffix_eq, List.append_assoc, List.cons_append]
  rw [pathSuffix, pathName_of_isComponent (isComponent_generateStorageFilename random name), hname]
  rcases mem_keptSuffix name with hnil | ⟨kept, hkept, hne, -, hall⟩
  · rw [hnil, List.append_nil, splitExtension_of_noDot hstem]
  · have hhead : sanitizeStem name ++ .scalar '_' :: PyText.ofText random.text ≠ [] :=
      List.append_ne_nil_of_right_ne_nil _ (List.cons_ne_nil _ _)
    rw [hkept, splitExtension_append hhead hne fun c hc => (isPlain_of_isAlphanum (hall c hc)).2]

/-- A generated name is a valid reference of a stored file, and its extension has the letters and
digits of the extension of the upload. -/
theorem generated_names_acceptable (random : RandomSuffix) (name : PyText) (K : Storage.Codec) :
    validateFileReference (.str (generateStorageFilename random name) : Json PyText φ) =
        .ok (generateStorageFilename random name) ∧
      (∃ t : Text, generateStorageFilename random name = .ofText t ∧ Storage.isRemote K t = false) ∧
        pathSuffix (generateStorageFilename random name) = keptSuffix name := by
  have hplain := isPlain_generateStorageFilename random name
  have hlength := length_generateStorageFilename_le random name
  obtain ⟨b, hb, hbytes⟩ := encodes_of_plain hplain
  refine ⟨?_, ?_, pathSuffix_generateStorageFilename random name⟩
  · refine validateSingleComponent_eq_ok.2 ⟨rfl, isComponent_generateStorageFilename random name,
      fun _ => ?_, nofun, fun m hm => ⟨b, hb, ?_⟩⟩
    · exact hasWindowsDrivePrefix_of_notMem (notMem_of_plain hplain)
    · obtain rfl := Option.some.inj hm
      unfold maxStorageFilenameBytes
      omega
  · obtain ⟨t, ht, -⟩ := hb
    refine ⟨t, ht, isRemote_of_notMem K fun hcolon => notMem_of_plain hplain ?_⟩
    rw [ht]
    exact List.mem_map_of_mem hcolon

example : generateStorageFilename ⟨"a1b2c3d4e5", by decide, by decide⟩ (.ofText "My photo.JPG") =
    .ofText "My_photo_a1b2c3d4e5.JPG" := by
  decide

end UploadNames

end PPBase
