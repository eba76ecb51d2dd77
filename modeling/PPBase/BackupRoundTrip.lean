import Mathlib.Data.List.Pairwise
import PPBase.BackupTransport
import PPBase.Failing
import PPBase.WrittenArchive

/-!
# A downloaded backup is uploaded again

The importer has limits that the exporter does not know (`WithinLimits`).
`prepareBackupZipImport_materialize` : the archive of a set can be imported into a store without a
set of its name if and only if it is within them, and what is imported is then what has been
published (`Reproduces`).

The archive has been written (`writeMembers_eq_ok`), so its directory is found; its members have the
names of the manifest and nothing else against them (`Clean`), so only the limits are left of the
checks (`validateArchiveInfos_eq_ok`); and what is written of them is a tree like that of the set
(`foldlM_importResource`), so its scan is the manifest's (`scanResourceTree_of_holds`). An archive
of 65535 members without ZIP64 records is left out.
-/

namespace PPBase

namespace Text

/-- After a separator at the end there is an empty part. -/
theorem split_concat {sep : Char} : ∀ s : Text, split sep (s ++ [sep]) = split sep s ++ [[]]
  | [] => by simp [split]
  | c :: s => by
    rw [List.cons_append, split_cons, split_cons, split_concat s]
    split_ifs
    · rfl
    · cases hs : split sep s with
      | nil => exact absurd hs (split_ne_nil sep s)
      | cons q qs => rfl

end Text

namespace Backup

open PackedBytes ZipFile

open Storage (isControl)

/-! ## Paths -/

/-- A path that a manifest lists and that has been scanned. -/
structure GoodPath (u : Charset) (path : Text) : Prop where
  valid : resourcePathError u path = none
  supported : isSupported path = true
  components : ∀ part ∈ Text.split '/' path, isSourceComponent u part = true

namespace GoodPath

variable {u : Charset} {path : Text}

theorem supported_cases (h : GoodPath u path) : path = schemaJsonResource ∨ path = dataCopyResource ∨
    path = jwtSecretResourcePath ∨ ∃ rest, path = ("resources/files/" : Text) ++ rest := by
  have := h.supported
  rw [isSupported] at this
  simp only [Bool.or_eq_true, decide_eq_true_eq, Option.isSome_iff_exists,
    Text.afterPrefix?_eq_some, or_assoc] at this
  exact this

theorem isBelowResources (h : GoodPath u path) : isBelowResources path = true := by
  rw [Backup.isBelowResources, Option.isSome_iff_exists]
  rcases h.supported_cases with rfl | rfl | rfl | ⟨rest, rfl⟩
  · exact ⟨"database/schema.json", by decide +kernel⟩
  · exact ⟨"database/data.copy", by decide +kernel⟩
  · exact ⟨"secrets/jwt_secret", by decide +kernel⟩
  · exact ⟨("files/" : Text) ++ rest, Text.afterPrefix?_eq_some.2 rfl⟩

theorem slash_mem (h : GoodPath u path) : '/' ∈ path := by
  have hbelow := h.isBelowResources
  rw [Backup.isBelowResources, Option.isSome_iff_exists] at hbelow
  obtain ⟨rest, hrest⟩ := hbelow
  rw [Text.afterPrefix?_eq_some.1 hrest]
  exact List.mem_append_left _ (by decide)

theorem getLast?_ne (h : GoodPath u path) : path.getLast? ≠ some '/' := by
  intro hlast
  obtain ⟨s, rfl⟩ := List.getLast?_eq_some_iff.1 hlast
  have hpart := h.components [] (by rw [Text.split_concat]; simp)
  exact absurd hpart (by simp [isSourceComponent])

theorem length_le (h : GoodPath u path) : 17 ≤ path.length := by
  rcases h.supported_cases with rfl | rfl | rfl | ⟨rest, rfl⟩
  · decide +kernel
  · decide +kernel
  · decide +kernel
  · cases rest with
    | nil => exact absurd (by decide +kernel) h.getLast?_ne
    | cons c rest =>
      rw [List.length_append]
      show 17 ≤ 16 + (rest.length + 1)
      omega

/-- What the check of a path asks for. -/
theorem valid_cases (h : GoodPath u path) : u.nfc (.ofText path) = .ofText path ∧ '\\' ∉ path ∧
    path.any isControl = false ∧ path.head? ≠ some '/' ∧
    (posixParts path).head? = some ("resources" : Text) ∧
    Text.join '/' (posixParts path) = path := by
  have hvalid := h.valid
  rw [resourcePathError] at hvalid
  split_ifs at hvalid with hnfc hunsafe hplace
  simp only [not_or, not_not, Bool.not_eq_true] at hnfc hunsafe hplace
  exact ⟨hnfc, hunsafe.1, hunsafe.2, hplace.1, hplace.2.1, hplace.2.2.2⟩

theorem isArchiveName (h : GoodPath u path) : isArchiveName u path = true := by
  obtain ⟨hnfc, hslash, hcontrol, hhead, -, hjoin⟩ := h.valid_cases
  have hne : path ≠ [] := List.ne_nil_of_mem h.slash_mem
  have hdots : (Text.split '/' path).any isDots = false := by
    rw [List.any_eq_false]
    intro part hpart
    have := h.components part hpart
    simp only [isSourceComponent, Bool.and_eq_true, decide_eq_true_eq] at this
    simp only [isDots, Bool.or_eq_true, decide_eq_true_eq, not_or]
    exact this.1.1.1.1
  simp [Backup.isArchiveName, hne, hnfc, hslash, hcontrol, hhead, hdots, hjoin]

/-- The parts that are written are those that have been scanned. -/
theorem posixParts (h : GoodPath u path) : (posixParts path).head? = some ("resources" : Text) ∧
    2 ≤ (posixParts path).length ∧ (posixParts path).all (isSourceComponent u) = true := by
  obtain ⟨-, -, -, -, hhead, hjoin⟩ := h.valid_cases
  refine ⟨hhead, ?_, ?_⟩
  · by_contra hshort
    obtain ⟨part, hpart⟩ : ∃ part, Backup.posixParts path = [part] := by
      cases hparts : Backup.posixParts path with
      | nil =>
        rw [hparts] at hhead
        cases hhead
      | cons part parts =>
        rw [hparts, List.length_cons] at hshort
        rw [List.eq_nil_of_length_eq_zero (by omega : parts.length = 0)]
        exact ⟨part, rfl⟩
    have hmem : part ∈ Text.split '/' path := by
      have : part ∈ Backup.posixParts path := hpart ▸ List.mem_singleton_self part
      exact List.mem_of_mem_filter this
    rw [hpart, Text.join] at hjoin
    exact Text.notMem_of_mem_split hmem (hjoin ▸ h.slash_mem)
  · rw [List.all_eq_true]
    exact fun part hpart => h.components part (List.mem_of_mem_filter hpart)

end GoodPath

/-- A text has at most as many characters as bytes. -/
theorem length_le_encodeUtf8 (t : Text) : t.length ≤ (Text.encodeUtf8 t).length := by
  induction t with
  | nil => exact Nat.zero_le _
  | cons c t ih =>
    have := c.utf8Size_pos
    rw [Text.encodeUtf8, List.flatMap_cons, List.length_append, String.length_utf8EncodeChar,
      ← Text.encodeUtf8, List.length_cons]
    omega

/-- A name without control characters has no bell. -/
theorem bell_notMem {path : Text} (h : path.any isControl = false) : 7 ∉ Text.encodeUtf8 path := by
  intro hbell
  have := Text.mem_of_mem_encodeUtf8 hbell (by decide)
  exact absurd h (by rw [Bool.not_eq_false, List.any_eq_true]; exact ⟨_, this, by decide⟩)

/-! ## Written members -/

section Members

variable {z : Zlib} {a a' : Archive} {files : List (Text × List UInt8)}

/-- A member with the name and the content of a file, among `n` bytes of members. -/
def IsMember (z : Zlib) (n : ℕ) (x : ZipInfo) (file : Text × List UInt8) : Prop :=
  ∃ zip64 offset, x = Archive.info z file.1 zip64 file.2 offset ∧ offset ≤ n ∧ x.compressSize ≤ n

theorem IsMember.mono {m n : ℕ} (hle : m ≤ n) {x : ZipInfo} {file : Text × List UInt8}
    (h : IsMember z m x file) : IsMember z n x file := by
  obtain ⟨zip64, offset, hx, hoffset, hsize⟩ := h
  exact ⟨zip64, offset, hx, hoffset.trans hle, hsize.trans hle⟩

/-- The members of an archive are files, in their order. -/
abbrev Contains (z : Zlib) (a : Archive) (files : List (Text × List UInt8)) : Prop :=
  List.Forall₂ (IsMember z a.members.length) a.infos files

theorem write_eq_some {name : Text} {zip64 : Bool} {content : List UInt8}
    (h : a.write z name zip64 content = some a') (ha : Contains z a files) :
    Contains z a' (files ++ [(name, content)]) := by
  rw [Archive.write] at h
  split_ifs at h
  cases h
  have hle : a.members.length ≤ (a.members ++ ZipInfo.fileHeader
      (Archive.info z name zip64 content a.members.length) zip64 ++ z.deflate content).length := by
    rw [List.length_append, List.length_append]
    omega
  refine List.rel_append (ha.imp fun x file => IsMember.mono hle) (.cons ?_ .nil)
  refine ⟨zip64, _, rfl, hle, ?_⟩
  show (z.deflate content).length ≤ _
  rw [List.length_append]
  omega

variable {u : Charset} {sha256 : Digest} {tree : FileTree}

/-- A file of a tree is what a manifest says of a resource. -/
structure Holds (sha256 : Digest) (tree : FileTree) (resource : BackupResource u)
    (file : Text × List UInt8) : Prop where
  path : file.1 = resource.path
  content : tree.files.get? resource.path = some file.2
  size : file.2.length = resource.size
  sha256 : sha256.hexdigest file.2 = resource.sha256

theorem foldlM_writeResource {resources : List (BackupResource u)}
    (h : resources.foldlM (writeResource sha256 z tree) a = .ok a') (ha : Contains z a files) :
    ∃ written, List.Forall₂ (Holds sha256 tree) resources written ∧
      Contains z a' (files ++ written) := by
  induction resources generalizing a files with
  | nil =>
    cases h
    exact ⟨[], .nil, by rwa [List.append_nil]⟩
  | cons r resources ih =>
    obtain ⟨a₁, hr, h⟩ := Failing.foldlM_cons_eq_ok.1 h
    rw [writeResource] at hr
    split at hr
    · cases hr
    rename_i content hcontent
    split_ifs at hr with hgrew hchanged
    · split at hr <;> cases hr
    · split at hr
      · cases hr
      · rename_i a₂ hwrite
        cases hr
        rw [not_or, not_not, not_not] at hchanged
        obtain ⟨written, hholds, hcontains⟩ := ih h (write_eq_some hwrite ha)
        refine ⟨(r.path, content) :: written,
          .cons ⟨rfl, hcontent, hchanged.1, hchanged.2⟩ hholds, ?_⟩
        rwa [List.append_assoc] at hcontains

theorem writeMembers_eq_ok {s : BackupSet} {manifest : BackupManifest u}
    (h : writeMembers sha256 z s manifest = .ok a) :
    ∃ files, List.Forall₂ (Holds sha256 s.tree) manifest.resources files ∧
      Contains z a ((manifestFilename, s.manifestBytes) :: files) := by
  rw [writeMembers] at h
  split at h
  · cases h
  rename_i a₁ hwrite
  exact foldlM_writeResource h (write_eq_some hwrite .nil)

end Members

/-! ## Checked members -/

section Checked

variable {u : Charset} {limits : BackupTransportLimits}

/-- The limits of one member. -/
def MemberWithin (limits : BackupTransportLimits) (x : ZipInfo) : Prop :=
  (isBelowResources x.filename = true → x.fileSize ≤ limits.maxResourceBytes) ∧
    x.fileSize ≤ limits.maxCompressionRatio * max x.compressSize 1

/-- The limits of an upload. -/
structure WithinLimits (limits : BackupTransportLimits) (b : List UInt8) (infos : List ZipInfo) :
    Prop where
  upload : b.length ≤ limits.maxUploadBytes
  entries : infos.length ≤ limits.maxEntries
  directory : (directory infos).length ≤ limits.maxCentralDirectoryBytes
  members : ∀ x ∈ infos, MemberWithin limits x
  uncompressed : (infos.map ZipInfo.fileSize).sum ≤ limits.maxUncompressedBytes
  ratio : (infos.map ZipInfo.fileSize).sum ≤
    limits.maxCompressionRatio * max (infos.map ZipInfo.compressSize).sum 1

instance {x : ZipInfo} : Decidable (MemberWithin limits x) := inferInstanceAs (Decidable (_ ∧ _))

instance {b : List UInt8} {infos : List ZipInfo} : Decidable (WithinLimits limits b infos) :=
  decidable_of_iff (b.length ≤ limits.maxUploadBytes ∧ infos.length ≤ limits.maxEntries ∧
      (ZipFile.directory infos).length ≤ limits.maxCentralDirectoryBytes ∧
      (∀ x ∈ infos, MemberWithin limits x) ∧
      (infos.map ZipInfo.fileSize).sum ≤ limits.maxUncompressedBytes ∧
      (infos.map ZipInfo.fileSize).sum ≤
        limits.maxCompressionRatio * max (infos.map ZipInfo.compressSize).sum 1)
    ⟨fun ⟨h₁, h₂, h₃, h₄, h₅, h₆⟩ => ⟨h₁, h₂, h₃, h₄, h₅, h₆⟩,
      fun ⟨h₁, h₂, h₃, h₄, h₅, h₆⟩ => ⟨h₁, h₂, h₃, h₄, h₅, h₆⟩⟩

/-- A member against which nothing can be said but by its sizes. -/
structure Clean (u : Charset) (x : ZipInfo) : Prop where
  original : Char.ofNat 0 ∉ x.origFilename
  file : x.filename.getLast? ≠ some '/'
  name : isArchiveName u x.filename = true
  plain : x.flagBits &&& 1 = 0
  deflated : x.compressType = 8
  regular : fileType x = 0o100000

theorem archiveInfoError_eq_none_iff {members : Dict Text ZipInfo} {x : ZipInfo} (h : Clean u x)
    (hnew : members.has x.filename = false) :
    archiveInfoError u limits members x = none ↔ MemberWithin limits x := by
  rw [archiveInfoError, if_neg h.original, if_neg h.file, if_neg (by rw [h.name]; decide),
    if_neg (by rw [hnew]; decide), if_neg (not_not.2 h.plain),
    if_neg (fun hne => hne.2 h.deflated), if_neg (fun hne => hne.2 h.regular), MemberWithin]
  split_ifs with hsize hratio
  · exact iff_of_false nofun fun hin => hsize.1.not_ge (hin.1 hsize.2)
  · exact iff_of_false nofun fun hin => hratio.not_ge hin.2
  · refine iff_of_true rfl ⟨fun hbelow => ?_, Nat.le_of_not_lt hratio⟩
    exact Nat.le_of_not_lt fun hlt => hsize ⟨hlt, hbelow⟩

/-- The members as they are kept by their names. -/
def byName (infos : List ZipInfo) : Dict Text ZipInfo := infos.map fun x => (x.filename, x)

/-- Clean members with names of their own are accepted within the limits. -/
theorem foldlM_checkMember {infos : List ZipInfo} {c c' : CheckedMembers}
    (hclean : ∀ x ∈ infos, Clean u x) (hnames : (infos.map ZipInfo.filename).Nodup)
    (hnew : ∀ x ∈ infos, c.members.has x.filename = false)
    (hc : c.totalUncompressed ≤ limits.maxUncompressedBytes) :
    infos.foldlM (checkMember u limits) c = .ok c' ↔ (∀ x ∈ infos, MemberWithin limits x) ∧
      c.totalUncompressed + (infos.map ZipInfo.fileSize).sum ≤ limits.maxUncompressedBytes ∧
      c' = ⟨c.members ++ byName infos, c.totalUncompressed + (infos.map ZipInfo.fileSize).sum,
        c.totalCompressed + (infos.map ZipInfo.compressSize).sum⟩ := by
  induction infos generalizing c with
  | nil =>
    simp only [List.foldlM_nil, byName, List.map_nil, List.append_nil, List.sum_nil, Nat.add_zero]
    exact ⟨fun h => ⟨nofun, hc, (Except.ok.inj h).symm⟩, fun h => congrArg Except.ok h.2.2.symm⟩
  | cons x infos ih =>
    have hx := hclean x List.mem_cons_self
    rw [List.map_cons, List.nodup_cons] at hnames
    rw [Failing.foldlM_cons_eq_ok, List.forall_mem_cons, List.map_cons, List.sum_cons,
      ← archiveInfoError_eq_none_iff hx (hnew x List.mem_cons_self)]
    rw [checkMember]
    cases herror : archiveInfoError u limits c.members x with
    | some e => exact iff_of_false (by rintro ⟨c₁, h, -⟩; cases h) (by rintro ⟨⟨h, -⟩, -⟩; cases h)
    | none =>
      simp only
      split_ifs with hlarge
      · refine iff_of_false (by rintro ⟨c₁, h, -⟩; cases h) ?_
        rintro ⟨-, h, -⟩
        omega
      · have ih' := @ih ⟨c.members ++ [(x.filename, x)], c.totalUncompressed + x.fileSize,
          c.totalCompressed + x.compressSize⟩ (fun y hy => hclean y (List.mem_cons_of_mem x hy))
          hnames.2 (fun y hy => ?_) (Nat.le_of_not_lt hlarge)
        · rw [Nat.add_assoc, Nat.add_assoc, List.append_assoc] at ih'
          constructor
          · rintro ⟨c₁, hc₁, h⟩
            cases hc₁
            obtain ⟨hin, hsum, hc'⟩ := ih'.1 h
            exact ⟨⟨trivial, hin⟩, hsum, hc'⟩
          · rintro ⟨⟨-, hin⟩, hsum, hc'⟩
            exact ⟨_, rfl, ih'.2 ⟨hin, hsum, hc'⟩⟩
        · have hne : y.filename ≠ x.filename := fun he =>
            hnames.1 (he ▸ List.mem_map_of_mem hy)
          have hold := hnew y (List.mem_cons_of_mem x hy)
          rw [← Bool.not_eq_true, Dict.has_iff_mem_keys] at hold ⊢
          show y.filename ∉ (c.members ++ [(x.filename, x)]).map Prod.fst
          rw [List.map_append, List.mem_append, not_or]
          exact ⟨hold, fun h => hne (List.mem_singleton.1 h)⟩

/-- Clean members with names of their own pass the checks within the limits. -/
theorem validateArchiveInfos_eq_ok {infos : List ZipInfo} {members : Dict Text ZipInfo}
    (hne : infos ≠ []) (hclean : ∀ x ∈ infos, Clean u x)
    (hnames : (infos.map ZipInfo.filename).Nodup) :
    validateArchiveInfos u infos limits = .ok members ↔ infos.length ≤ limits.maxEntries ∧
      (∀ x ∈ infos, MemberWithin limits x) ∧
      (infos.map ZipInfo.fileSize).sum ≤ limits.maxUncompressedBytes ∧
      (infos.map ZipInfo.fileSize).sum ≤
        limits.maxCompressionRatio * max (infos.map ZipInfo.compressSize).sum 1 ∧
      members = byName infos := by
  have hfold : ∀ c', infos.foldlM (checkMember u limits) ⟨[], 0, 0⟩ = .ok c' ↔ _ := fun c' =>
    foldlM_checkMember hclean hnames (fun x _ => rfl) (Nat.zero_le _)
  simp only [Nat.zero_add, List.nil_append] at hfold
  rw [validateArchiveInfos, if_neg hne]
  by_cases hcount : limits.maxEntries < infos.length
  · rw [if_pos hcount]
    exact iff_of_false nofun fun h => absurd h.1 (Nat.not_le.2 hcount)
  rw [if_neg hcount, and_iff_right (Nat.le_of_not_lt hcount)]
  cases hresult : infos.foldlM (checkMember u limits) ⟨[], 0, 0⟩ with
  | error e =>
    refine iff_of_false nofun ?_
    rintro ⟨hin, hsum, -⟩
    rw [(hfold _).2 ⟨hin, hsum, rfl⟩] at hresult
    cases hresult
  | ok c =>
    obtain ⟨hin, hsum, rfl⟩ := (hfold c).1 hresult
    simp only
    split_ifs with hratio
    · exact iff_of_false nofun fun h => absurd h.2.2.1 (Nat.not_le.2 hratio)
    · constructor
      · intro h
        exact ⟨hin, hsum, Nat.le_of_not_lt hratio, (Except.ok.inj h).symm⟩
      · rintro ⟨-, -, -, rfl⟩
        rfl

end Checked

/-! ## Trees -/

section Trees

variable {u : Charset} {sha256 : Digest}

theorem conflict_symm {p q : Text} (h : conflict p q = false) : conflict q p = false := by
  simp only [conflict, Bool.or_eq_false_iff, decide_eq_false_iff_not] at h ⊢
  exact ⟨⟨Ne.symm h.1.1, h.2⟩, h.1.2⟩

/-- Files of a tree with different paths are apart. -/
theorem FileTree.conflict_eq_false (t : FileTree) {f g : Text × List UInt8} (hf : f ∈ t.files)
    (hg : g ∈ t.files) (hne : f.1 ≠ g.1) : conflict f.1 g.1 = false := by
  have : Std.Symm fun f g : Text × List UInt8 => conflict f.1 g.1 = false :=
    ⟨fun _ _ => conflict_symm⟩
  exact t.apart.forall hf hg fun h => hne (h ▸ rfl)

theorem make_eq_ok {path sha : Text} {size : ℕ} {r : BackupResource u} :
    BackupResource.make u (.str path) (.int size) (.str sha) = .ok r ↔
      path = r.path ∧ size = r.size ∧ sha = r.sha256 := by
  constructor
  · intro h
    simp only [BackupResource.make] at h
    split at h
    · cases h
    · split at h
      · cases h
        exact ⟨rfl, rfl, rfl⟩
      · cases h
  · rintro ⟨rfl, rfl, rfl⟩
    simp only [BackupResource.make]
    split
    · rename_i e he
      rw [r.path_ok] at he
      cases he
    · show (if hs : _ then _ else _) = _
      rw [dif_pos r.sha256_ok]

theorem describe_eq_ok {file : Text × List UInt8} {r : BackupResource u} :
    describe u sha256 file = .ok r ↔
      (∀ part ∈ Text.split '/' file.1, isSourceComponent u part = true) ∧
        file.1 = r.path ∧ file.2.length = r.size ∧ sha256.hexdigest file.2 = r.sha256 := by
  rw [describe, ← make_eq_ok, ← List.all_eq_true]
  split_ifs with hparts
  · rw [and_iff_right hparts]
    split
    · rename_i e he
      rw [he]
      exact iff_of_false nofun nofun
    · rename_i r' hr'
      rw [hr', Except.ok.injEq, Except.ok.injEq]
  · exact iff_of_false nofun fun h => hparts h.1

/-- What a tree holds is what its scan lists. -/
theorem scanResourceTree_eq_ok {t : FileTree} {resources : List (BackupResource u)}
    (h : scanResourceTree u sha256 t = .ok resources) :
    (∀ r ∈ resources, ∃ file ∈ t.files, describe u sha256 file = .ok r) ∧
      ∀ file ∈ t.files, ∃ r ∈ resources, describe u sha256 file = .ok r := by
  rw [scanResourceTree] at h
  split at h
  · cases h
  rename_i found hfound
  simp only at h
  split_ifs at h
  cases h
  have hall := Failing.mapM_eq_ok_iff.1 hfound
  constructor
  · intro r hr
    obtain ⟨file, hfile, hdescribe⟩ :=
      Failing.exists_of_forall₂ hall ((List.mem_insertionSort _).1 hr)
    exact ⟨file, hfile, hdescribe⟩
  · intro file hfile
    obtain ⟨r, hr, hdescribe⟩ := Failing.exists_of_forall₂ hall.flip hfile
    exact ⟨r, (List.mem_insertionSort _).2 hr, hdescribe⟩

/-- Files that hold sorted resources are scanned as these. -/
theorem scanResourceTree_of_holds {t t' : FileTree} {resources : List (BackupResource u)}
    (hsorted : resources.Pairwise fun r s => r.path ≤ s.path)
    (hschema : schemaJsonResource ∈ resources.map BackupResource.path)
    (hdata : dataCopyResource ∈ resources.map BackupResource.path)
    (hgood : ∀ r ∈ resources, GoodPath u r.path)
    (hholds : List.Forall₂ (Holds sha256 t) resources t'.files) :
    scanResourceTree u sha256 t' = .ok resources := by
  have hall : t'.files.mapM (describe u sha256) = .ok resources := by
    rw [Failing.mapM_eq_ok_iff]
    have hmem := (List.forall₂_and_left resources t'.files).2 ⟨hgood, hholds⟩
    refine hmem.flip.imp ?_
    rintro file r ⟨hr, hfile⟩
    refine describe_eq_ok.2 ⟨?_, hfile.path, hfile.size, hfile.sha256⟩
    rw [hfile.path]
    exact hr.components
  rw [scanResourceTree, hall]
  simp only
  rw [hsorted.insertionSort_eq, if_pos ⟨hschema, hdata⟩]

/-- A resource that a tree holds is written into a set. -/
theorem writeImportedResource_eq_ok {tree : FileTree} {builder : BackupSetBuilder}
    {r : BackupResource u} {file : Text × List UInt8} (hgood : GoodPath u r.path)
    (hfile : Holds sha256 tree r file)
    (hnew : ∀ f ∈ builder.tree.files, conflict f.1 file.1 = false) :
    ∃ builder', writeImportedResource u sha256 builder r file.2 = .ok builder' ∧
      builder'.backupId = builder.backupId ∧
      builder'.tree.files = builder.tree.files ++ [file] := by
  obtain ⟨hhead, hlength, hparts⟩ := hgood.posixParts
  rw [hfile.path] at hnew
  rw [writeImportedResource, if_neg (not_or.2 ⟨not_not.2 hhead, by omega⟩), if_neg (not_not.2 hparts), FileTree.create,
    dif_pos hnew]
  simp only
  rw [if_neg (by rw [hfile.size]; omega),
    if_neg (not_or.2 ⟨not_not.2 hfile.size, not_not.2 hfile.sha256⟩)]
  refine ⟨_, rfl, rfl, ?_⟩
  show builder.tree.files ++ [(r.path, file.2)] = _
  rw [← hfile.path]

/-- The resources of a set are written in their order. -/
theorem foldlM_importResource {reader : ZipReader} {b : List UInt8} {members : Dict Text ZipInfo}
    {tree : FileTree} {resources : List (BackupResource u)} {files : List (Text × List UInt8)}
    (builder : BackupSetBuilder) (hgood : ∀ r ∈ resources, GoodPath u r.path)
    (hholds : List.Forall₂ (Holds sha256 tree) resources files)
    (hread : ∀ r ∈ resources, ∀ content, tree.files.get? r.path = some content →
      (members.get? r.path).map (reader.read b) = some (.ok content))
    (hapart : files.Pairwise fun f g => conflict f.1 g.1 = false)
    (hnew : ∀ f ∈ builder.tree.files, ∀ g ∈ files, conflict f.1 g.1 = false) :
    ∃ builder', resources.foldlM (importResource sha256 reader b members) builder = .ok builder' ∧
      builder'.backupId = builder.backupId ∧
      builder'.tree.files = builder.tree.files ++ files := by
  induction hholds generalizing builder with
  | nil => exact ⟨builder, rfl, rfl, (List.append_nil _).symm⟩
  | @cons r file resources files hfile hholds ih =>
    rw [List.pairwise_cons] at hapart
    obtain ⟨builder₁, hwrite, hid, htree⟩ := writeImportedResource_eq_ok
      (hgood r List.mem_cons_self) hfile fun f hf => hnew f hf file List.mem_cons_self
    have hfirst : importResource sha256 reader b members builder r = .ok builder₁ := by
      rw [importResource, hread r List.mem_cons_self file.2 hfile.content]
      simp only
      rw [hwrite]
    obtain ⟨builder', hrest, hid', htree'⟩ := ih builder₁
      (fun s hs => hgood s (List.mem_cons_of_mem r hs))
      (fun s hs => hread s (List.mem_cons_of_mem r hs)) hapart.2 <| by
        intro f hf g hg
        rw [htree] at hf
        rcases List.mem_append.1 hf with hf | hf
        · exact hnew f hf g (List.mem_cons_of_mem file hg)
        · rw [List.mem_singleton.1 hf]
          exact hapart.1 g hg
    refine ⟨builder', Failing.foldlM_cons_eq_ok.2 ⟨builder₁, hfirst, hrest⟩, hid'.trans hid, ?_⟩
    rw [htree', htree, List.append_assoc, List.singleton_append]

end Trees

/-! ## Sealed sets -/

section Sealed

variable {u : Charset} {sha256 : Digest} {store : LocalBackupStore} {backupId : Text}
  {manifest : BackupManifest u} {s : BackupSet}

theorem resource_ext {r r' : BackupResource u}
    (h : (r.path, r.size, r.sha256) = (r'.path, r'.size, r'.sha256)) : r = r' := by
  cases r
  cases r'
  cases h
  rfl

/-- What is known of a set that has been inspected. -/
theorem inspectSet_eq_ok (h : inspectSet u sha256 store backupId = .ok (manifest, s)) :
    isBackupId backupId = true ∧ s.manifestBytes.length ≤ maxManifestBytes ∧
      BackupManifest.fromBytes u s.manifestBytes = .ok manifest ∧ manifest.backupId = backupId ∧
      scanResourceTree u sha256 s.tree = .ok manifest.resources := by
  rw [inspectSet] at h
  split_ifs at h with hid
  rw [Bool.not_eq_true, Bool.not_eq_false'] at hid
  split at h
  · cases h
  split_ifs at h
  split at h
  · cases h
  rename_i manifest' hinspect
  cases h
  rw [inspectSetPath] at hinspect
  split_ifs at hinspect with hsize
  split at hinspect
  · cases hinspect
  rename_i m hm
  split_ifs at hinspect with hbackup
  split at hinspect
  · cases hinspect
  rename_i resources hscan
  split_ifs at hinspect with hresources
  cases hinspect
  have hresources' := List.map_injective_iff.2 (fun _ _ => resource_ext) (not_not.1 hresources)
  exact ⟨hid, Nat.le_of_not_lt hsize, hm, not_not.1 hbackup, hresources' ▸ hscan⟩

/-- What a manifest asks of its resources. -/
theorem BackupManifest.resources_cases (m : BackupManifest u) :
    (m.resources.Pairwise fun r r' => r.path ≤ r'.path) ∧
      (m.resources.map BackupResource.path).Nodup ∧
      schemaJsonResource ∈ m.resources.map BackupResource.path ∧
      dataCopyResource ∈ m.resources.map BackupResource.path ∧
      ∀ r ∈ m.resources, isSupported r.path = true := by
  have h := m.resources_ok
  rw [resourcesError] at h
  split_ifs at h with horder hdatabase
  simp only [not_or, not_not] at horder hdatabase
  rw [Option.map_eq_none_iff, List.find?_eq_none] at h
  refine ⟨List.pairwise_map.1 horder.1, horder.2, hdatabase.1, hdatabase.2, fun r hr => ?_⟩
  have := h r.path (List.mem_map_of_mem hr)
  simpa using this

/-- The paths of an inspected set. -/
theorem goodPath_of_inspectSet (h : inspectSet u sha256 store backupId = .ok (manifest, s)) :
    ∀ r ∈ manifest.resources, GoodPath u r.path := by
  intro r hr
  obtain ⟨-, -, -, -, hscan⟩ := inspectSet_eq_ok h
  obtain ⟨file, -, hfile⟩ := (scanResourceTree_eq_ok hscan).1 r hr
  obtain ⟨hparts, hpath, -, -⟩ := describe_eq_ok.1 hfile
  exact ⟨r.path_ok, manifest.resources_cases.2.2.2.2 r hr, hpath ▸ hparts⟩

/-! ## Published archives -/

variable {z : Zlib} {a : Archive} {b : List UInt8} {files : List (Text × List UInt8)}
  {reader : ZipReader} {limits : BackupTransportLimits} {target : LocalBackupStore}

/-- `zipfile` reads an archive of a set as it has been written. -/
structure ReadsBack (reader : ZipReader) (s : BackupSet) (a : Archive) (b : List UInt8) : Prop where
  decode : ∀ x ∈ a.infos, reader.decode x.entry = .ok x.stored
  read : ∀ x ∈ a.infos, ∀ content,
    (x.filename, content) ∈ (manifestFilename, s.manifestBytes) :: s.tree.files →
      reader.read b x.stored = .ok content

instance : Decidable (ReadsBack reader s a b) :=
  have htoOption {ε α : Type} {x : Except ε α} {y : α} : x.toOption = some y ↔ x = .ok y := by
    cases x <;> simp [Except.toOption]
  decidable_of_iff ((∀ x ∈ a.infos, (reader.decode x.entry).toOption = some x.stored) ∧
      ∀ x ∈ a.infos, ∀ file ∈ (manifestFilename, s.manifestBytes) :: s.tree.files,
        x.filename = file.1 → (reader.read b x.stored).toOption = some file.2)
    ⟨fun h => ⟨fun x hx => htoOption.1 (h.1 x hx),
        fun x hx content hfile => htoOption.1 (h.2 x hx _ hfile rfl)⟩,
      fun h => ⟨fun x hx => htoOption.2 (h.decode x hx),
        fun x hx file hfile hname => htoOption.2 (h.read x hx file.2 (hname ▸ hfile))⟩⟩

/-- An archive that has been written for an inspected set. -/
structure Published (sha256 : Digest) (z : Zlib) (s : BackupSet) (manifest : BackupManifest u)
    (a : Archive) (b : List UInt8) (files : List (Text × List UInt8)) : Prop where
  good : ∀ r ∈ manifest.resources, GoodPath u r.path
  holds : List.Forall₂ (Holds sha256 s.tree) manifest.resources files
  contains : Contains z a ((manifestFilename, s.manifestBytes) :: files)
  closed : a.close = some b

namespace Published

theorem paths (h : Published sha256 z s manifest a b files) :
    files.map Prod.fst = manifest.resources.map BackupResource.path := by
  have hfiles : ∀ {resources : List (BackupResource u)} {files : List (Text × List UInt8)},
      List.Forall₂ (Holds sha256 s.tree) resources files →
        files.map Prod.fst = resources.map BackupResource.path := by
    intro resources files hall
    induction hall with
    | nil => rfl
    | cons hfile _ ih => exact congrArg₂ _ hfile.path ih
  exact hfiles h.holds

theorem names (h : Published sha256 z s manifest a b files) :
    a.infos.map ZipInfo.filename = expectedNames manifest := by
  have hinfos : ∀ {n : ℕ} {infos : List ZipInfo} {files : List (Text × List UInt8)},
      List.Forall₂ (IsMember z n) infos files →
        infos.map ZipInfo.filename = files.map Prod.fst := by
    intro n infos files hall
    induction hall with
    | nil => rfl
    | cons hx _ ih =>
      obtain ⟨zip64, offset, rfl, -, -⟩ := hx
      exact congrArg₂ _ rfl ih
  rw [hinfos h.contains, List.map_cons, h.paths, expectedNames]

theorem notMem_paths (h : Published sha256 z s manifest a b files) {name : Text}
    (hname : '/' ∉ name) : name ∉ manifest.resources.map BackupResource.path := by
  intro hmem
  obtain ⟨r, hr, rfl⟩ := List.mem_map.1 hmem
  exact hname (h.good r hr).slash_mem

theorem nodup (h : Published sha256 z s manifest a b files) :
    (a.infos.map ZipInfo.filename).Nodup := by
  rw [h.names, expectedNames, List.nodup_cons]
  exact ⟨h.notMem_paths (by decide), manifest.resources_cases.2.1⟩

/-- The member of a resource. -/
theorem exists_member (h : Published sha256 z s manifest a b files) {r : BackupResource u}
    (hr : r ∈ manifest.resources) : ∃ x ∈ a.infos, x.filename = r.path ∧ x.fileSize = r.size := by
  obtain ⟨file, hfile, hholds⟩ := Failing.exists_of_forall₂ h.holds.flip hr
  obtain ⟨x, hx, zip64, offset, rfl, -, -⟩ :=
    Failing.exists_of_forall₂ h.contains (List.mem_cons_of_mem _ hfile)
  exact ⟨_, hx, hholds.path, hholds.size⟩

theorem exists_manifest (h : Published sha256 z s manifest a b files) :
    ∃ x ∈ a.infos, x.filename = manifestFilename ∧ x.fileSize = s.manifestBytes.length := by
  obtain ⟨x, hx, zip64, offset, rfl, -, -⟩ :=
    Failing.exists_of_forall₂ h.contains List.mem_cons_self
  exact ⟨_, hx, rfl, rfl⟩

/-- The bytes before the end record are of a resource. -/
theorem plainEnd (h : Published sha256 z s manifest a b files) : PlainEnd a b := by
  intro hzip64
  obtain ⟨-, -, hb⟩ := close_eq_some h.closed
  have hpaths : manifest.resources.map BackupResource.path ≠ [] :=
    List.ne_nil_of_mem manifest.resources_cases.2.2.1
  obtain ⟨ys, x, hinfos⟩ : ∃ ys x, a.infos = ys ++ [x] := by
    obtain ⟨x, hx, -⟩ := h.exists_manifest
    exact ⟨_, _, (List.dropLast_append_getLast (List.ne_nil_of_mem hx)).symm⟩
  have hx : x.filename ∈ manifest.resources.map BackupResource.path := by
    have hnames := h.names
    rw [hinfos, List.map_append, expectedNames] at hnames
    cases ys with
    | nil => exact absurd (List.cons.inj hnames).2.symm hpaths
    | cons y ys =>
      rw [← (List.cons.inj hnames).2]
      exact List.mem_append_right _ (List.mem_singleton_self _)
  obtain ⟨r, hr, hpath⟩ := List.mem_map.1 hx
  have hgood := h.good r hr
  rw [hpath] at hgood
  have hmem : x ∈ a.infos := hinfos ▸ List.mem_append_right ys (List.mem_singleton_self x)
  obtain ⟨file, -, zip64, offset, hinfo, hoffset, hsize⟩ :=
    Failing.exists_of_forall₂ h.contains.flip hmem
  have hmembers : a.members.length ≤ zip64Limit := by
    simp only [Archive.isZip64, requiresZip64, Bool.or_eq_false_iff, decide_eq_false_iff_not,
      Nat.not_lt] at hzip64
    exact hzip64.1.2
  have hplace : a.members ++ directory a.infos = (a.members ++ directory ys) ++ x.entry := by
    rw [hinfos, directory, List.flatMap_append, List.append_assoc, List.flatMap_singleton, directory]
  rw [hb, ← List.length_append, hplace]
  refine zip64Locator?_entry ?_ (hsize.trans hmembers)
    (hgood.length_le.trans (length_le_encodeUtf8 _)) (bell_notMem hgood.valid_cases.2.2.1)
  rw [hinfo]
  exact hoffset.trans hmembers

theorem clean (h : Published sha256 z s manifest a b files) {x : ZipInfo}
    (hx : x ∈ a.infos.map ZipInfo.stored) : Clean u x := by
  obtain ⟨y, hy, rfl⟩ := List.mem_map.1 hx
  obtain ⟨file, -, zip64, offset, hinfo, -, -⟩ := Failing.exists_of_forall₂ h.contains.flip hy
  have hname : y.filename ∈ expectedNames manifest := h.names ▸ List.mem_map_of_mem hy
  have hgood : isArchiveName u y.filename = true ∧ y.filename.getLast? ≠ some '/' ∧
      Char.ofNat 0 ∉ y.filename := by
    rcases List.mem_cons.1 hname with hname | hname
    · rw [hname]
      refine ⟨?_, by decide, by decide⟩
      have hascii : manifestFilename.all (fun c => c.toNat < 128) = true := by decide
      have hnfc := u.nfc_ascii manifestFilename fun c hc =>
        of_decide_eq_true (List.all_eq_true.1 hascii c hc)
      rw [isArchiveName, hnfc]
      decide
    · obtain ⟨r, hr, hpath⟩ := List.mem_map.1 hname
      rw [← hpath]
      refine ⟨(h.good r hr).isArchiveName, (h.good r hr).getLast?_ne, fun hnul => ?_⟩
      have hcontrol := (h.good r hr).valid_cases.2.2.1
      rw [List.any_eq_false] at hcontrol
      exact hcontrol _ hnul (by decide)
  have horiginal : y.origFilename = y.filename := by rw [hinfo]; rfl
  refine ⟨?_, hgood.2.1, hgood.1, ?_, ?_, ?_⟩
  · show Char.ofNat 0 ∉ y.origFilename
    rw [horiginal]
    exact hgood.2.2
  · show y.encodedFlags &&& 1 = 0
    have hflags : y.flagBits = 0 := by rw [hinfo]; rfl
    rw [ZipInfo.encodedFlags, hflags]
    split <;> decide
  · rw [hinfo]
    rfl
  · have hattr : y.stored.externalAttr = 0o100600 <<< 16 := by rw [hinfo]; rfl
    rw [fileType, hattr]
    decide

/-- The members of the archive by their names. -/
theorem get?_byName (h : Published sha256 z s manifest a b files) {x : ZipInfo} (hx : x ∈ a.infos) :
    (byName (a.infos.map ZipInfo.stored)).get? x.filename = some x.stored := by
  have hnodup : (byName (a.infos.map ZipInfo.stored)).keys.Nodup := by
    rw [Dict.keys, byName, List.map_map, List.map_map]
    exact h.nodup
  exact Dict.get?_of_mem hnodup (e := (x.filename, x.stored))
    (List.mem_map.2 ⟨x.stored, List.mem_map_of_mem hx, rfl⟩)

theorem keys_byName (h : Published sha256 z s manifest a b files) :
    (byName (a.infos.map ZipInfo.stored)).keys = expectedNames manifest := by
  rw [← h.names, Dict.keys, byName, List.map_map, List.map_map]
  rfl

theorem membersError_eq_none (h : Published sha256 z s manifest a b files) :
    membersError manifest (byName (a.infos.map ZipInfo.stored)) = none := by
  have hsealed : sealedFilename ∉ expectedNames manifest := by
    rw [expectedNames, List.mem_cons, not_or]
    exact ⟨by decide, h.notMem_paths (by decide)⟩
  have hsizes : ¬∃ r ∈ manifest.resources,
      ((byName (a.infos.map ZipInfo.stored)).get? r.path).map ZipInfo.fileSize ≠ some r.size := by
    rintro ⟨r, hr, hne⟩
    obtain ⟨x, hx, hpath, hsize⟩ := h.exists_member hr
    rw [← hpath, h.get?_byName hx, Option.map_some] at hne
    exact hne (congrArg some hsize)
  rw [membersError, h.keys_byName, if_neg, if_neg hsizes]
  rw [not_or, not_not]
  exact ⟨⟨fun _ => id, fun _ => id⟩, hsealed⟩

/-- The manifest is read from the archive. -/
theorem importManifest_eq_ok (h : Published sha256 z s manifest a b files)
    (hreader : ReadsBack reader s a b) (hsize : s.manifestBytes.length ≤ maxManifestBytes)
    (hmanifest : BackupManifest.fromBytes u s.manifestBytes = .ok manifest) :
    importManifest u reader b (byName (a.infos.map ZipInfo.stored)) =
      .ok (s.manifestBytes, manifest) := by
  obtain ⟨x, hx, hname, hxsize⟩ := h.exists_manifest
  have hread := hreader.read x hx s.manifestBytes (hname ▸ List.mem_cons_self)
  have hmember : readZipMember reader b x.stored = .ok s.manifestBytes := by
    have hstored : x.stored.fileSize = s.manifestBytes.length := hxsize
    rw [readZipMember, hstored, hread]
    simp only
    rw [if_neg hsize.not_gt, if_neg hsize.not_gt, if_neg (not_not.2 rfl)]
  rw [importManifest, ← hname, h.get?_byName hx]
  simp only
  rw [hmember]
  simp only
  rw [hmanifest]

/-- The files of a published set are apart. -/
theorem apart (h : Published sha256 z s manifest a b files) :
    files.Pairwise fun f g => conflict f.1 g.1 = false := by
  have hmem : ∀ file ∈ files, file ∈ s.tree.files := by
    intro file hfile
    obtain ⟨r, -, hholds⟩ := Failing.exists_of_forall₂ h.holds hfile
    have := Dict.mem_of_get? hholds.content
    rwa [← hholds.path] at this
  have hnodup : (files.map Prod.fst).Nodup := h.paths ▸ manifest.resources_cases.2.1
  refine (List.pairwise_map.1 hnodup).imp_of_mem fun {f g} hf hg hne => ?_
  exact s.tree.conflict_eq_false (hmem f hf) (hmem g hg) hne

/-- The content of a resource is read from the archive. -/
theorem read_resource (h : Published sha256 z s manifest a b files)
    (hreader : ReadsBack reader s a b) {r : BackupResource u} (hr : r ∈ manifest.resources)
    {content : List UInt8} (hcontent : s.tree.files.get? r.path = some content) :
    ((byName (a.infos.map ZipInfo.stored)).get? r.path).map (reader.read b) =
      some (.ok content) := by
  obtain ⟨x, hx, hpath, -⟩ := h.exists_member hr
  have hread := hreader.read x hx content
    (hpath ▸ List.mem_cons_of_mem _ (Dict.mem_of_get? hcontent))
  rw [← hpath, h.get?_byName hx, Option.map_some, hread]

end Published

/-- What has been imported is what has been published. -/
structure Reproduces (s : BackupSet) (manifest : BackupManifest u) (p : PreparedBackupImport u) :
    Prop where
  backupId : p.builder.backupId = manifest.backupId
  manifestBytes : p.manifestBytes = s.manifestBytes
  prepared : p.prepared = manifest.resources
  contents : ∀ path, p.builder.tree.files.get? path = s.tree.files.get? path

/-- The tree of a set has the files that its manifest lists. -/
theorem get?_files (h : Published sha256 z s manifest a b files)
    (hscan : scanResourceTree u sha256 s.tree = .ok manifest.resources) (path : Text) :
    Dict.get? files path = s.tree.files.get? path := by
  cases hfile : s.tree.files.get? path with
  | none =>
    rw [Dict.get?_eq_none_iff]
    intro hmem
    rw [Dict.keys, h.paths] at hmem
    obtain ⟨r, hr, rfl⟩ := List.mem_map.1 hmem
    obtain ⟨file, -, hholds⟩ := Failing.exists_of_forall₂ h.holds.flip hr
    rw [hholds.content] at hfile
    cases hfile
  | some content =>
    obtain ⟨r, hr, hdescribe⟩ := (scanResourceTree_eq_ok hscan).2 _ (Dict.mem_of_get? hfile)
    obtain ⟨-, hpath, -, -⟩ := describe_eq_ok.1 hdescribe
    obtain ⟨file, hmem, hholds⟩ := Failing.exists_of_forall₂ h.holds.flip hr
    have hcontent := hholds.content
    rw [← hpath, hfile] at hcontent
    have hnodup : (Dict.keys files).Nodup := by
      rw [Dict.keys, h.paths]
      exact manifest.resources_cases.2.1
    rw [show path = file.1 from hpath.trans hholds.path.symm, Dict.get?_of_mem hnodup hmem]
    exact hcontent.symm

/-- The members of a published archive are imported, unless there is a set of that name. -/
theorem importMembers_eq_ok (h : Published sha256 z s manifest a b files)
    (hreader : ReadsBack reader s a b) (hsize : s.manifestBytes.length ≤ maxManifestBytes)
    (hmanifest : BackupManifest.fromBytes u s.manifestBytes = .ok manifest)
    (hscan : scanResourceTree u sha256 s.tree = .ok manifest.resources)
    (target : LocalBackupStore) :
    (∀ p, importMembers u sha256 reader target b (byName (a.infos.map ZipInfo.stored)) = .ok p →
        Reproduces s manifest p) ∧
      ((∃ p, importMembers u sha256 reader target b (byName (a.infos.map ZipInfo.stored)) = .ok p) ↔
        target.has manifest.backupId = false) := by
  have hid : isBackupId manifest.backupId = true := manifest.backupId_ok
  rw [importMembers, h.importManifest_eq_ok hreader hsize hmanifest]
  simp only [h.membersError_eq_none]
  rw [beginSet, hid, Bool.not_true, if_neg Bool.false_ne_true]
  cases hhas : target.has manifest.backupId with
  | true =>
    rw [if_pos rfl]
    exact ⟨by rintro _ ⟨⟩, iff_of_false (by rintro ⟨p, ⟨⟩⟩) Bool.noConfusion⟩
  | false =>
    rw [if_neg Bool.false_ne_true]
    simp only
    obtain ⟨builder, hbuilder, hbackupId, htree⟩ := foldlM_importResource
      ⟨manifest.backupId, FileTree.empty⟩ h.good h.holds
      (fun r hr content => h.read_resource hreader hr) h.apart (by rintro _ ⟨⟩)
    rw [FileTree.empty, List.nil_append] at htree
    obtain ⟨hsorted, -, hschema, hdata, -⟩ := manifest.resources_cases
    rw [hbuilder]
    simp only
    rw [scanResourceTree_of_holds hsorted hschema hdata h.good (htree ▸ h.holds)]
    simp only
    refine ⟨fun p hp => ?_, iff_of_true ⟨_, rfl⟩ trivial⟩
    cases hp
    exact ⟨hbackupId, rfl, rfl, fun path => by rw [htree, get?_files h hscan]⟩

theorem published_of_materialize (hinspect : inspectSet u sha256 store backupId = .ok (manifest, s))
    (hwrite : writeMembers sha256 z s manifest = .ok a)
    (hzip : materializeBackupZip u sha256 z store backupId = .ok b) :
    ∃ files, Published sha256 z s manifest a b files := by
  obtain ⟨files, hholds, hcontains⟩ := writeMembers_eq_ok hwrite
  refine ⟨files, goodPath_of_inspectSet hinspect, hholds, hcontains, ?_⟩
  rw [materializeBackupZip, hinspect] at hzip
  simp only at hzip
  split at hzip
  · cases hzip
  split_ifs at hzip
  rw [hwrite] at hzip
  simp only at hzip
  split at hzip
  · cases hzip
  · rename_i hclose
    cases hzip
    exact hclose

/-- The members pass the checks within the limits. -/
theorem Published.validateArchiveInfos_eq_ok (h : Published sha256 z s manifest a b files)
    {members : Dict Text ZipInfo} :
    validateArchiveInfos u (a.infos.map ZipInfo.stored) limits = .ok members ↔
      a.infos.length ≤ limits.maxEntries ∧ (∀ x ∈ a.infos, MemberWithin limits x) ∧
        (a.infos.map ZipInfo.fileSize).sum ≤ limits.maxUncompressedBytes ∧
        (a.infos.map ZipInfo.fileSize).sum ≤
          limits.maxCompressionRatio * max (a.infos.map ZipInfo.compressSize).sum 1 ∧
        members = byName (a.infos.map ZipInfo.stored) := by
  obtain ⟨x, hx, -⟩ := h.exists_manifest
  have hne : a.infos.map ZipInfo.stored ≠ [] := List.ne_nil_of_mem (List.mem_map_of_mem hx)
  have hnames : ((a.infos.map ZipInfo.stored).map ZipInfo.filename).Nodup := by
    rw [List.map_map]
    exact h.nodup
  rw [Backup.validateArchiveInfos_eq_ok hne (fun x hx => h.clean hx) hnames, List.length_map,
    List.forall_mem_map, List.map_map, List.map_map]
  rfl

/-- An import of a published archive that succeeds passes every check. -/
theorem Published.prepareBackupZipImport_eq_ok (h : Published sha256 z s manifest a b files)
    (hreader : ReadsBack reader s a b) (limits : BackupTransportLimits)
    (target : LocalBackupStore) {p : PreparedBackupImport u} :
    prepareBackupZipImport u sha256 reader target b limits = .ok p ↔
      b.length ≤ limits.maxUploadBytes ∧ (∃ d, prevalidateZipDirectory b limits = .ok d) ∧
        (∃ members, validateArchiveInfos u (a.infos.map ZipInfo.stored) limits = .ok members) ∧
        importMembers u sha256 reader target b (byName (a.infos.map ZipInfo.stored)) = .ok p := by
  have hne : b ≠ [] := by
    obtain ⟨e, hfind, -⟩ := found_close h.closed h.plainEnd
    rintro rfl
    have hends := (findEndRecord_eq_ok_iff.1 hfind).1.2
    unfold eocdSize at hends
    rw [List.length_nil] at hends
    omega
  have hpocketBase : isPocketBaseBackup (a.infos.map ZipInfo.stored) = false := by
    obtain ⟨x, hx, hname, -⟩ := h.exists_manifest
    obtain ⟨file, -, zip64, offset, rfl, -, -⟩ := Failing.exists_of_forall₂ h.contains.flip hx
    have hmem : manifestFilename ∈
        (a.infos.map ZipInfo.stored).map ZipInfo.origFilename := by
      rw [List.map_map]
      exact List.mem_map.2 ⟨_, hx, hname⟩
    show (decide (manifestFilename ∉ _) && _) = false
    rw [decide_eq_false (not_not.2 hmem), Bool.false_and]
  rw [prepareBackupZipImport, if_neg hne]
  by_cases hupload : limits.maxUploadBytes < b.length
  · rw [if_pos hupload]
    exact iff_of_false nofun fun hin => absurd hin.1 hupload.not_ge
  rw [if_neg hupload, and_iff_right (Nat.le_of_not_lt hupload)]
  cases hdirectory : prevalidateZipDirectory b limits with
  | error e => exact iff_of_false nofun (by rintro ⟨⟨d, ⟨⟩⟩, -⟩)
  | ok d =>
    rw [and_iff_right ⟨d, rfl⟩, contents_close h.closed h.plainEnd hreader.decode]
    simp only
    rw [hpocketBase, if_neg Bool.false_ne_true]
    cases hmembers : validateArchiveInfos u (a.infos.map ZipInfo.stored) limits with
    | error e => exact iff_of_false nofun (by rintro ⟨⟨members, ⟨⟩⟩, -⟩)
    | ok members =>
      rw [and_iff_right ⟨members, rfl⟩, (h.validateArchiveInfos_eq_ok.1 hmembers).2.2.2.2]

/-- A downloaded backup can be uploaded into a store without a set of its name if and only if it is
within the limits of an upload, and is then what it has been. -/
theorem prepareBackupZipImport_materialize
    (hinspect : inspectSet u sha256 store backupId = .ok (manifest, s))
    (hwrite : writeMembers sha256 z s manifest = .ok a)
    (hzip : materializeBackupZip u sha256 z store backupId = .ok b)
    (hreader : ReadsBack reader s a b)
    (hcount : manifest.resources.length + 1 ≠ 0xFFFF ∨ Archive.isZip64 a = true)
    (limits : BackupTransportLimits) (target : LocalBackupStore) :
    ((∃ p, prepareBackupZipImport u sha256 reader target b limits = .ok p) ↔
        WithinLimits limits b a.infos ∧ target.has backupId = false) ∧
      ∀ p, prepareBackupZipImport u sha256 reader target b limits = .ok p →
        Reproduces s manifest p := by
  obtain ⟨files, h⟩ := published_of_materialize hinspect hwrite hzip
  obtain ⟨-, hsize, hmanifest, rfl, hscan⟩ := inspectSet_eq_ok hinspect
  have hlength : a.infos.length = manifest.resources.length + 1 := by
    rw [← List.length_map ZipInfo.filename, h.names, expectedNames, List.length_cons,
      List.length_map]
  rw [← hlength] at hcount
  have hprevalidate := prevalidateZipDirectory_close limits h.closed h.plainEnd hcount
  have hprepare {p : PreparedBackupImport u} :
      prepareBackupZipImport u sha256 reader target b limits = .ok p ↔ _ :=
    h.prepareBackupZipImport_eq_ok hreader limits target
  obtain ⟨hall, hexists⟩ := importMembers_eq_ok h hreader hsize hmanifest hscan target
  refine ⟨⟨?_, ?_⟩, fun p hp => hall p (hprepare.1 hp).2.2.2⟩
  · rintro ⟨p, hp⟩
    obtain ⟨hupload, hdirectory, ⟨members, hmembers⟩, himport⟩ := hprepare.1 hp
    obtain ⟨hentries, hin, hsum, hratio, -⟩ := h.validateArchiveInfos_eq_ok.1 hmembers
    exact ⟨⟨hupload, hentries, (hprevalidate.1 hdirectory).2, hin, hsum, hratio⟩,
      hexists.1 ⟨p, himport⟩⟩
  · rintro ⟨hin, hnew⟩
    obtain ⟨p, hp⟩ := hexists.2 hnew
    exact ⟨p, hprepare.2 ⟨hin.upload, hprevalidate.2 ⟨hin.entries, hin.directory⟩,
      ⟨_, h.validateArchiveInfos_eq_ok.2
        ⟨hin.entries, hin.members, hin.uncompressed, hin.ratio, rfl⟩⟩, hp⟩⟩

end Sealed

/-! ## A small set -/

/-- Unicode as far as it is ASCII. -/
def ascii : Charset where
  nfc := id
  casefold := Text.lower
  isAlnum := Char.isAlphanum
  nfc_nfc _ := rfl
  nfc_ascii _ _ := rfl

/-- The empty object -/
def emptySchema : List UInt8 := [0x7B, 0x7D]

/-- `hashlib.sha256` of the files of the set -/
def smallDigest : Digest where
  hexdigest b :=
    if b = emptySchema then "44136fa355b3678a1146ad16f7e8649e94fb4fc21fe77e8310c060f61caaff8a"
    else "e3b0c44298fc1c149afbf4c8996fb92427ae41e4649b934ca495991b7852b855"
  isSha256_hexdigest b := by split <;> decide +kernel

/-- The manifest of the set -/
def smallManifest : JsonValue :=
  .obj [("backup_id", .str "small"), ("created_at", .str "2024-01-01T00:00:00.000000Z"),
    ("format", .str backupFormat), ("format_version", .int backupFormatVersion),
    ("metadata", .obj []), ("resources", .arr [
      .obj [("path", .str dataCopyResource), ("sha256", .str (smallDigest.hexdigest [])),
        ("size", .int 0)],
      .obj [("path", .str schemaJsonResource), ("sha256", .str (smallDigest.hexdigest emptySchema)),
        ("size", .int 2)]])]

/-- A set without rows. -/
def smallSet : BackupSet where
  isSealed := true
  manifestBytes := Text.encodeUtf8 smallManifest.sortKeys.write
  tree := ⟨[(dataCopyResource, []), (schemaJsonResource, emptySchema)], by decide +kernel⟩

/-- The files of the set with their deflated bytes and checksums. -/
def smallFiles : List (List UInt8 × List UInt8 × ℕ) :=
  [([], [3, 0], 0), (emptySchema, [171, 174, 5, 0], 2745614147), (smallSet.manifestBytes,
    [125, 143, 209, 106, 195, 48, 12, 69, 255, 197, 207, 105, 103, 59, 178, 99, 231, 59, 246, 180,
      49, 138, 172, 72, 180, 91, 211, 132, 56, 29, 108, 33, 255, 62, 39, 131, 178, 167, 137,
      251, 32, 174, 46, 247, 160, 69, 37, 164, 143, 251, 120, 186, 116, 170, 85, 185, 199, 235,
      85, 85, 138, 38, 198, 153, 187, 19, 206, 197, 180, 218, 194, 65, 155, 162, 103, 173, 219,
      93, 71, 189, 207, 75, 137, 202, 48, 245, 123, 108, 28, 19, 102, 62, 252, 214, 29, 50, 207,
      143, 227, 233, 147, 167, 124, 25, 110, 170, 181, 149, 234, 121, 198, 14, 103, 84, 237,
      178, 86, 106, 226, 60, 220, 39, 226, 172, 218, 215, 69, 141, 56, 159, 11, 240, 97, 62,
      109, 193, 173, 117, 95, 142, 52, 140, 95, 165, 52, 159, 209, 58, 95, 114, 92, 39, 77, 0,
      54, 6, 33, 67, 6, 34, 74, 18, 160, 16, 163, 151, 20, 45, 216, 6, 25, 12, 131, 135, 152,
      98, 13, 132, 16, 93, 140, 38, 53, 193, 217, 20, 156, 219, 186, 46, 223, 172, 90, 189, 86,
      255, 193, 51, 157, 185, 199, 227, 123, 46, 47, 252, 193, 3, 152, 218, 11, 214, 206, 165,
      218, 55, 1, 141, 1, 143, 157, 241, 210, 112, 40, 72, 142, 32, 9, 132, 172, 17, 110, 138,
      85, 27, 77, 218, 107, 241, 134, 16, 69, 2, 62, 240, 118, 125, 91, 127, 0], 2216646364)]

/-- `zlib` on the files of the set -/
def smallZlib : Zlib where
  deflate b := ((smallFiles.find? (·.1 = b)).map (·.2.1)).getD b
  crc32 b := ((smallFiles.find? (·.1 = b)).map (·.2.2)).getD 0

/-- `zipfile` on an archive of these files, without extra fields -/
def smallReader : ZipReader where
  decode e :=
    match Text.decodeUtf8? (slice e 46 (field e 28 2)) with
    | none => .error ⟨"Bad file name"⟩
    | some name => .ok {
        filename := name
        origFilename := name
        version := field e 6 1
        flagBits := field e 8 2
        compressType := field e 10 2
        dosTime := field e 12 2
        dosDate := field e 14 2
        crc := field e 16 4
        compressSize := field e 20 4
        fileSize := field e 24 4
        externalAttr := field e 38 4
        headerOffset := field e 42 4 }
  read b x :=
    let start := x.headerOffset + 30 + field b (x.headerOffset + 26) 2 +
      field b (x.headerOffset + 28) 2
    match smallFiles.find? (·.2.1 = slice b start x.compressSize) with
    | none => .error ⟨"Bad CRC-32"⟩
    | some file => .ok file.1

/-- The store that the set is in. -/
def smallStore : LocalBackupStore := [("small", smallSet)]

/-- Limits that only the number of entries can exceed. -/
def smallLimits (maxEntries : ℕ) (h : 0 < maxEntries) : BackupTransportLimits where
  maxUploadBytes := 2048
  maxUncompressedBytes := 2048
  maxResourceBytes := 2048
  maxEntries
  maxCentralDirectoryBytes := 2048
  maxCompressionRatio := 500
  chunkSize := 1024
  positive := by simpa using h

/-- The manifest describes the set, which is published in an archive of three members. -/
def isPublishedSmall (manifest : BackupManifest ascii) : Bool :=
  (scanResourceTree ascii smallDigest smallSet.tree).toOption.any fun resources =>
    manifest.toBytes.toOption.any fun bytes =>
      (writeMembers smallDigest smallZlib smallSet manifest).toOption.any fun a =>
        a.close.any fun b =>
          decide (manifest.backupId = "small" ∧
            smallSet.manifestBytes.length ≤ maxManifestBytes ∧
            resources.map (fun r => (r.path, r.size, r.sha256)) =
              manifest.resources.map (fun r => (r.path, r.size, r.sha256)) ∧
            smallSet.manifestBytes = bytes ∧ manifest.resources.length = 2 ∧
            ReadsBack smallReader smallSet a b ∧ WithinLimits (smallLimits 3 (by decide)) b a.infos)

theorem smallManifest_normal : smallManifest.All (Normal id) := by
  simp [smallManifest, Json.All, Json.AllMembers, Json.AllItems, Normal, Dict.keys,
    backupFormatVersion, jsonIntegerMin, jsonIntegerMax]

theorem exists_of_any {ε α : Type} {x : Except ε α} {p : α → Bool} (h : x.toOption.any p = true) :
    ∃ a, x = .ok a ∧ p a = true := by
  cases x with
  | error e => cases h
  | ok a => exact ⟨a, rfl, h⟩

theorem fromBytes_small : (BackupManifest.fromBytes ascii smallSet.manifestBytes).toOption.any
    isPublishedSmall = true := by
  have hparse : parseCanonicalJson ascii.nfc smallSet.manifestBytes = .ok smallManifest.sortKeys :=
    parseCanonicalJson_encode smallManifest_normal
  rw [BackupManifest.fromBytes, hparse]
  decide +kernel

/-- What the small set becomes. -/
theorem small_published : ∃ manifest s a b,
    inspectSet ascii smallDigest smallStore "small" = .ok (manifest, s) ∧
      writeMembers smallDigest smallZlib s manifest = .ok a ∧
      materializeBackupZip ascii smallDigest smallZlib smallStore "small" = .ok b ∧
      manifest.resources.length = 2 ∧ ReadsBack smallReader s a b ∧
      WithinLimits (smallLimits 3 (by decide)) b a.infos := by
  obtain ⟨manifest, hmanifest, h⟩ := exists_of_any fromBytes_small
  rw [isPublishedSmall] at h
  obtain ⟨resources, hscan, h⟩ := exists_of_any h
  obtain ⟨bytes, hbytes, h⟩ := exists_of_any h
  obtain ⟨a, hwrite, h⟩ := exists_of_any h
  obtain ⟨b, hclose, h⟩ := (Option.any_eq_true _ _).1 h
  obtain ⟨hid, hsize, hresources, hsame, hlength, hreader, hin⟩ := of_decide_eq_true h
  have hpath : inspectSetPath ascii smallDigest "small" smallSet = .ok manifest := by
    rw [inspectSetPath, if_neg (Nat.not_lt.2 hsize), hmanifest]
    simp only [hid, hscan, hresources, ne_eq, not_true_eq_false, ↓reduceIte]
  have hinspect : inspectSet ascii smallDigest smallStore "small" = .ok (manifest, smallSet) := by
    rw [inspectSet, if_neg (by decide), show smallStore.get? "small" = some smallSet from rfl]
    simp only [hpath]
    rfl
  refine ⟨manifest, smallSet, a, b, hinspect, hwrite, ?_, hlength, hreader, hin⟩
  rw [materializeBackupZip, hinspect]
  simp only [hbytes, hsame, ne_eq, not_true_eq_false, ↓reduceIte, hwrite, hclose]

/-- Three members are more than two entries. -/
theorem small_not_imported : ∃ manifest s a b,
    inspectSet ascii smallDigest smallStore "small" = .ok (manifest, s) ∧
      writeMembers smallDigest smallZlib s manifest = .ok a ∧
      materializeBackupZip ascii smallDigest smallZlib smallStore "small" = .ok b ∧
      ReadsBack smallReader s a b ∧
      ∀ p, prepareBackupZipImport ascii smallDigest smallReader [] b
        (smallLimits 2 (by decide)) ≠ .ok p := by
  obtain ⟨manifest, s, a, b, hinspect, hwrite, hzip, hlength, hreader, -⟩ := small_published
  refine ⟨manifest, s, a, b, hinspect, hwrite, hzip, hreader, fun p hp => ?_⟩
  obtain ⟨files, h⟩ := published_of_materialize hinspect hwrite hzip
  obtain ⟨-, -, ⟨members, hmembers⟩, -⟩ := (h.prepareBackupZipImport_eq_ok hreader _ _).1 hp
  have hentries : a.infos.length ≤ 2 := (h.validateArchiveInfos_eq_ok.1 hmembers).1
  have hnames := congrArg List.length h.names
  rw [List.length_map, expectedNames, List.length_cons, List.length_map, hlength] at hnames
  omega

/-- The small set comes back within limits that have room for it. -/
theorem small_imported : ∃ manifest s b p,
    inspectSet ascii smallDigest smallStore "small" = .ok (manifest, s) ∧
      materializeBackupZip ascii smallDigest smallZlib smallStore "small" = .ok b ∧
      prepareBackupZipImport ascii smallDigest smallReader [] b (smallLimits 3 (by decide)) =
        .ok p ∧
      Reproduces s manifest p := by
  obtain ⟨manifest, s, a, b, hinspect, hwrite, hzip, hlength, hreader, hin⟩ := small_published
  obtain ⟨hiff, hall⟩ := prepareBackupZipImport_materialize hinspect hwrite hzip hreader
    (.inl (by rw [hlength]; decide)) (smallLimits 3 (by decide)) []
  obtain ⟨p, hp⟩ := hiff.2 ⟨hin, rfl⟩
  exact ⟨manifest, s, b, p, hinspect, hzip, hp, hall p hp⟩

end Backup

end PPBase
