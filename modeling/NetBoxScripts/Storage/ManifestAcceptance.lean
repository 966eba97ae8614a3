import Mathlib.Data.List.Perm.Basic
import NetBoxScripts.Storage.TreeNodes

/-!
# What the manifest builder accepts

The exact condition under which a build has no errors, and what every build keeps: each file is
an entry or an error, the entries can be files of one tree, and the order of the mapping does not
matter.

## Main definitions

* `Buildable`: the sources of one tree within the limits
* `Walked`: what the walk over the sorted files has collected

## Main results

* `buildManifest_exact`
-/

namespace NetBoxScripts

section Acceptance

variable [Unicode] [Hashing] {files : SourceFiles} {limits : StorageLimits}

/-- The path is the canonical form of one of the files' paths. -/
def IsCanonical (files : SourceFiles) (path : PyStr) : Prop :=
  ∃ file ∈ files.items, normalizeSourcePath file.1 = .ok path

/-- **Sources of one tree within the limits**. -/
structure Buildable (files : SourceFiles) (limits : StorageLimits) : Prop where
  accepted : ∀ file ∈ files.items, ∃ path, normalizeSourcePath file.1 = .ok path
  distinct : ∀ file ∈ files.items, ∀ file' ∈ files.items, ∀ path,
    normalizeSourcePath file.1 = .ok path → normalizeSourcePath file'.1 = .ok path → file = file'
  file_size : ∀ file ∈ files.items, file.2.length ≤ limits.maxFileSize
  no_file_above : ∀ a b, IsCanonical files a → IsCanonical files b → ¬ IsAbove a b
  no_collision : ∀ a b node other, IsCanonical files a → IsCanonical files b → IsNode node a →
    IsNode other b → lower other = lower node → other = node
  count : files.items.length ≤ limits.maxFileCount
  total : (files.items.map fun file => file.2.length).sum ≤ limits.maxProjectSize

/-! ## The walk -/

omit [Hashing] in
/-- A path without surrogates does not end the build. -/
theorem UnicodeLaws.normalizeSourcePath_ne_unicodeEncodeError (laws : UnicodeLaws) {path : PyStr}
    (h : ∀ c ∈ path, isScalar c) : normalizeSourcePath path ≠ .error .unicodeEncodeError := by
  have hlength : ∀ s : PyStr, (∀ c ∈ s, isScalar c) → ∃ n, utf8Length s = some n := by
    intro s hs
    rw [utf8Length, if_pos (List.all_eq_true.mpr hs)]
    exact ⟨_, rfl⟩
  have hnfc := laws.nfc_scalar path h
  have hsegments : ∀ segment ∈ realSegments (nfc path), ∀ c ∈ segment, isScalar c := by
    intro segment hsegment c hc
    exact hnfc c (mem_of_mem_split (mem_realSegments.mp hsegment).1 hc)
  have hcomponents : ∀ segments : List PyStr, (∀ segment ∈ segments, ∀ c ∈ segment, isScalar c) →
      checkComponents path segments ≠ .error .unicodeEncodeError := by
    intro segments hs
    induction segments with
    | nil =>
      intro heq
      cases heq
    | cons segment segments ih =>
      rw [List.forall_mem_cons] at hs
      obtain ⟨n, hn⟩ := hlength segment hs.1
      rw [checkComponents, hn]
      dsimp only
      split_ifs
      · intro heq
        cases heq
      · exact ih hs.2
  intro heq
  unfold normalizeSourcePath at heq
  dsimp only [refuse] at heq
  split_ifs at heq
  any_goals cases heq
  unfold withinBounds at heq
  cases hcheck : checkComponents path (realSegments (nfc path)) with
  | error failure =>
    rw [hcheck] at heq
    cases heq
    exact hcomponents _ hsegments hcheck
  | ok u =>
    obtain ⟨n, hn⟩ := hlength (join (realSegments (nfc path))) fun c hc =>
      (mem_join_realSegments hc).elim (fun hslash => hslash ▸ by decide) (hnfc c)
    rw [hcheck, hn] at heq
    dsimp only [refuse] at heq
    split_ifs at heq
    all_goals cases heq

/-- The record names a path. -/
def ManifestError.named (error : ManifestError) : Bool := error.path.isSome

/-- A file that the walk refuses: for its path, for another file with its canonical path, or for
its size. -/
def Refused (maxFileSize : ℕ) (files : List (PyStr × Bytes)) (file : PyStr × Bytes) : Prop :=
  (∀ path, normalizeSourcePath file.1 ≠ .ok path) ∨
    (∃ path, normalizeSourcePath file.1 = .ok path ∧
      ∃ file' ∈ files, file' ≠ file ∧ normalizeSourcePath file'.1 = .ok path) ∨
    maxFileSize < file.2.length

/-- **What the walk has collected** when some of the files are done. -/
structure Walked (maxFileSize : ℕ) (files done : List (PyStr × Bytes)) (walk : Walk) : Prop where
  count : walk.entries.length + walk.errors.length = done.length
  named : ∀ error ∈ walk.errors, error.named
  seen : ∀ path, path ∈ walk.seen ↔ ∃ file ∈ done, normalizeSourcePath file.1 = .ok path
  entries_seen : ∀ entry ∈ walk.entries, entry.path ∈ walk.seen
  nodup : (walk.entries.map ManifestEntry.path).Nodup
  entryOf : ∀ entry ∈ walk.entries, ∃ file ∈ done, EntryOf maxFileSize file entry
  collected : walk.errors = [] → List.Forall₂ (EntryOf maxFileSize) done walk.entries
  refused : walk.errors ≠ [] → ∃ file ∈ done, Refused maxFileSize files file

omit [Hashing] in
/-- A turn that makes an error. -/
theorem Walked.fail [Hashing] {maxFileSize : ℕ} {files done : List (PyStr × Bytes)} {walk : Walk}
    {file : PyStr × Bytes} {error : ManifestError} {seen : List PyStr}
    (h : Walked maxFileSize files done walk) (hnamed : error.named)
    (hseen : ∀ path, path ∈ seen ↔ path ∈ walk.seen ∨ normalizeSourcePath file.1 = .ok path)
    (hrefused : Refused maxFileSize files file) :
    Walked maxFileSize files (done ++ [file])
      { walk with seen := seen, errors := walk.errors ++ [error] } where
  count := by
    have := h.count
    simp only [List.length_append, List.length_singleton]
    omega
  named := List.forall_mem_append.mpr ⟨h.named, List.forall_mem_singleton.mpr hnamed⟩
  seen path := by
    rw [hseen, h.seen]
    simp [or_and_right, exists_or]
  entries_seen entry hentry := (hseen _).mpr (.inl (h.entries_seen entry hentry))
  nodup := h.nodup
  entryOf entry hentry := by
    obtain ⟨file', hfile', hof⟩ := h.entryOf entry hentry
    exact ⟨file', List.mem_append_left _ hfile', hof⟩
  collected hnil := by simp at hnil
  refused _ := ⟨file, List.mem_concat_self, hrefused⟩

/-- **Each turn** makes an entry or an error of a file. -/
theorem Walked.step {maxFileSize : ℕ} {files done : List (PyStr × Bytes)} {walk walk' : Walk}
    {file : PyStr × Bytes} (h : Walked maxFileSize files done walk) (hdone : done ⊆ files)
    (hfile : file ∉ done) (hstep : walkStep maxFileSize walk file = .ok walk') :
    Walked maxFileSize files (done ++ [file]) walk' := by
  unfold walkStep at hstep
  split at hstep
  · next error herror =>
    cases hstep
    refine h.fail rfl (fun path => ?_) (.inl fun path => ?_)
    · simp [herror]
    · simp [herror]
  · cases hstep
  · next canonical hcanonical =>
    split_ifs at hstep with hseen
    · cases hstep
      obtain ⟨file', hfile', hcanonical'⟩ := (h.seen canonical).mp hseen
      refine h.fail rfl (fun path => ?_) (.inr (.inl ⟨canonical, hcanonical, file', hdone hfile',
        fun heq => hfile (heq ▸ hfile'), hcanonical'⟩))
      constructor
      · exact .inl
      · rintro (hmem | heq)
        · exact hmem
        · rw [hcanonical] at heq
          exact Except.ok.inj heq ▸ hseen
    · have hcons : ∀ path, path ∈ canonical :: walk.seen ↔
          path ∈ walk.seen ∨ normalizeSourcePath file.1 = .ok path := by
        intro path
        rw [hcanonical, List.mem_cons, Except.ok.injEq, eq_comm, or_comm]
      split at hstep
      · next error herror =>
        cases hstep
        rw [buildEntry] at herror
        split_ifs at herror with hsize
        cases herror
        exact h.fail rfl hcons (.inr (.inr hsize))
      · next entry hentry =>
        cases hstep
        obtain ⟨hsize, rfl⟩ := buildEntry_eq_ok hentry
        have hof : EntryOf maxFileSize file ⟨canonical, file.2.length, sha256 file.2⟩ :=
          ⟨hcanonical, rfl, rfl, hsize⟩
        constructor
        · have := h.count
          simp only [List.length_append, List.length_singleton]
          omega
        · exact h.named
        · intro path
          rw [hcons, h.seen]
          simp [or_and_right, exists_or]
        · intro entry hentry
          rcases List.mem_append.mp hentry with hentry | hentry
          · exact List.mem_cons_of_mem _ (h.entries_seen entry hentry)
          · obtain rfl := List.mem_singleton.mp hentry
            exact List.mem_cons_self
        · rw [List.map_append, List.nodup_append]
          refine ⟨h.nodup, by simp, fun path hpath other hother => ?_⟩
          obtain ⟨entry, hmem, rfl⟩ := List.mem_map.mp hpath
          obtain rfl : other = canonical := by simpa using hother
          exact fun heq => hseen (heq ▸ h.entries_seen entry hmem)
        · intro entry hentry
          rcases List.mem_append.mp hentry with hentry | hentry
          · obtain ⟨file', hfile', hof'⟩ := h.entryOf entry hentry
            exact ⟨file', List.mem_append_left _ hfile', hof'⟩
          · obtain rfl := List.mem_singleton.mp hentry
            exact ⟨file, List.mem_concat_self, hof⟩
        · intro hnil
          exact List.rel_append (h.collected hnil) (.cons hof .nil)
        · intro hne
          obtain ⟨file', hfile', hrefused⟩ := h.refused hne
          exact ⟨file', List.mem_append_left _ hfile', hrefused⟩

/-- **The whole walk** over files without surrogates in their paths. -/
theorem Walked.run (laws : UnicodeLaws) {maxFileSize : ℕ} {files done later : List (PyStr × Bytes)}
    {walk : Walk} (h : Walked maxFileSize files done walk) (hfiles : done ++ later ⊆ files)
    (hnodup : (done ++ later).Nodup) (hscalar : ∀ file ∈ later, ∀ c ∈ file.1, isScalar c) :
    ∃ walk', later.foldlM (walkStep maxFileSize) walk = .ok walk' ∧
      Walked maxFileSize files (done ++ later) walk' := by
  induction later generalizing done walk with
  | nil => exact ⟨walk, rfl, by rwa [List.append_nil]⟩
  | cons file later ih =>
    rw [List.forall_mem_cons] at hscalar
    have hnew : file ∉ done := fun hmem =>
      (List.nodup_append.mp hnodup).2.2 _ hmem _ List.mem_cons_self rfl
    have hne := laws.normalizeSourcePath_ne_unicodeEncodeError hscalar.1
    obtain ⟨walk₁, hstep⟩ : ∃ walk₁, walkStep maxFileSize walk file = .ok walk₁ := by
      unfold walkStep
      split
      · exact ⟨_, rfl⟩
      · next heq => exact absurd heq hne
      · split_ifs
        · exact ⟨_, rfl⟩
        · split
          · exact ⟨_, rfl⟩
          · exact ⟨_, rfl⟩
    have h₁ := h.step (fun _ hmem => hfiles (List.mem_append_left _ hmem)) hnew hstep
    rw [List.append_cons] at hfiles hnodup ⊢
    obtain ⟨walk₂, hrun, h₂⟩ := ih h₁ hfiles hnodup hscalar.2
    exact ⟨walk₂, by rw [List.foldlM_cons, hstep]; exact hrun, h₂⟩

theorem walked_nil {maxFileSize : ℕ} {files : List (PyStr × Bytes)} :
    Walked maxFileSize files [] ⟨[], [], []⟩ :=
  ⟨rfl, nofun, by simp, nofun, List.nodup_nil, nofun, fun _ => .nil, fun h => absurd rfl h⟩

/-! ## Conflicts -/

omit [Unicode] [Hashing] in
/-- What is filtered and what is reported make up the list. -/
theorem length_filter_isNone_add {α β : Type} (f : α → Option β) (l : List α) :
    (l.filter fun a => (f a).isNone).length + (l.filterMap f).length = l.length := by
  induction l with
  | nil => rfl
  | cons a l ih =>
    cases hf : f a with
    | none =>
      simp only [List.filter_cons, hf, Option.isNone_none, if_true, List.length_cons,
        List.filterMap_cons]
      omega
    | some b =>
      simp only [List.filter_cons, hf, Option.isNone_some, Bool.false_eq_true, if_false,
        List.length_cons, List.filterMap_cons]
      omega

omit [Hashing] in
/-- **Every entry is kept or reported**. -/
theorem rejectPathConflicts_count (entries : List ManifestEntry) :
    (rejectPathConflicts entries).1.length + (rejectPathConflicts entries).2.length =
      entries.length := by
  rw [rejectPathConflicts]
  dsimp only
  rw [List.length_append]
  have hpath := length_filter_isNone_add (pathConflict (entries.map ManifestEntry.path)) entries
  have hcase := length_filter_isNone_add (caseFoldConflict (caseInsensitiveCollisions
    ((entries.filter fun entry => (pathConflict (entries.map ManifestEntry.path) entry).isNone).map
      ManifestEntry.path)))
    (entries.filter fun entry => (pathConflict (entries.map ManifestEntry.path) entry).isNone)
  omega

omit [Hashing] in
theorem rejectPathConflicts_named {entries : List ManifestEntry} :
    ∀ error ∈ (rejectPathConflicts entries).2, error.named := by
  intro error herror
  rcases List.mem_append.mp herror with herror | herror
  · obtain ⟨entry, -, heq⟩ := List.mem_filterMap.mp herror
    obtain ⟨blocking, -, rfl⟩ := Option.map_eq_some_iff.mp heq
    rfl
  · obtain ⟨entry, -, heq⟩ := List.mem_filterMap.mp herror
    obtain ⟨collision, -, rfl⟩ := Option.map_eq_some_iff.mp heq
    rfl

omit [Hashing] in
theorem rejectPathConflicts_sublist (entries : List ManifestEntry) :
    (rejectPathConflicts entries).1.Sublist entries :=
  List.filter_sublist.trans List.filter_sublist

omit [Hashing] in
/-- **What is kept are files of one tree**. -/
theorem UnicodeLaws.rejectPathConflicts_oneTree (laws : UnicodeLaws)
    (entries : List ManifestEntry) :
    OneTree ((rejectPathConflicts entries).1.map ManifestEntry.path) := by
  have hmem : ∀ path ∈ (rejectPathConflicts entries).1.map ManifestEntry.path,
      blockingAncestor (entries.map ManifestEntry.path) path = none ∧
      Fits ((entries.filter fun entry =>
        (pathConflict (entries.map ManifestEntry.path) entry).isNone).map ManifestEntry.path)
        path := by
    intro path hpath
    obtain ⟨entry, hentry, rfl⟩ := List.mem_map.mp hpath
    obtain ⟨hkept, hcase⟩ := List.mem_filter.mp hentry
    obtain ⟨-, hblocking⟩ := List.mem_filter.mp hkept
    rw [Option.isNone_iff_eq_none] at hcase hblocking
    exact ⟨Option.map_eq_none_iff.mp hblocking,
      (laws.caseFoldConflict_eq_none_iff_fits (List.mem_map_of_mem hkept)).mp hcase⟩
  have hfiles := (rejectPathConflicts_sublist entries).map ManifestEntry.path
  have hkept : ((rejectPathConflicts entries).1.map ManifestEntry.path) ⊆
      (entries.filter fun entry =>
        (pathConflict (entries.map ManifestEntry.path) entry).isNone).map ManifestEntry.path :=
    (List.filter_sublist.map ManifestEntry.path).subset
  constructor
  · intro file hfile path hpath
    exact blockingAncestor_none_iff.mp (hmem path hpath).1 file (hfiles.subset hfile)
  · rintro path hpath node hnode other ⟨path', hpath', hother⟩ hform
    exact (hmem path hpath).2 node hnode other ⟨path', hkept hpath', hother⟩ hform

omit [Hashing] in
/-- Files of one tree are all kept. -/
theorem UnicodeLaws.rejectPathConflicts_of_oneTree (laws : UnicodeLaws)
    {entries : List ManifestEntry} (h : OneTree (entries.map ManifestEntry.path)) :
    rejectPathConflicts entries = (entries, []) := by
  have hpath : ∀ entry ∈ entries, pathConflict (entries.map ManifestEntry.path) entry = none := by
    intro entry hentry
    refine Option.map_eq_none_iff.mpr (blockingAncestor_none_iff.mpr fun file hfile => ?_)
    exact h.no_file_above file hfile _ (List.mem_map_of_mem hentry)
  have hkept : entries.filter (fun entry =>
      (pathConflict (entries.map ManifestEntry.path) entry).isNone) = entries :=
    List.filter_eq_self.mpr fun entry hentry => by rw [hpath entry hentry, Option.isNone_none]
  have hcase : ∀ entry ∈ entries, caseFoldConflict
      (caseInsensitiveCollisions (entries.map ManifestEntry.path)) entry = none := by
    intro entry hentry
    have hmem := List.mem_map_of_mem (f := ManifestEntry.path) hentry
    exact (laws.caseFoldConflict_eq_none_iff_fits hmem).mpr (h.no_collision _ hmem)
  rw [rejectPathConflicts, hkept, List.filter_eq_self.mpr fun entry hentry => by
    rw [hcase entry hentry, Option.isNone_none], List.filterMap_eq_nil_iff.mpr hpath,
    List.filterMap_eq_nil_iff.mpr hcase, List.nil_append]

/-! ## Builds -/

omit [Unicode] [Hashing] in
theorem SourceFiles.nodup_items (files : SourceFiles) : files.items.Nodup :=
  files.nodup.of_map Prod.fst

omit [Unicode] [Hashing] in
/-- The sorted files do not depend on the order of the mapping. -/
theorem SourceFiles.sorted_congr {files files' : SourceFiles} (h : files'.items.Perm files.items) :
    files'.sorted = files.sorted := by
  have hperm : ∀ files : SourceFiles, files.sorted.Perm files.items :=
    fun files => List.perm_insertionSort _ _
  refine List.Perm.eq_of_pairwise (fun a b ha hb hab hba => ?_)
    (List.pairwise_insertionSort (fun a b : PyStr × Bytes => a.1 ≤ b.1) _)
    (List.pairwise_insertionSort (fun a b : PyStr × Bytes => a.1 ≤ b.1) _)
    ((hperm files').trans (h.trans (hperm files).symm))
  have ha := h.mem_iff.mp ((hperm files').mem_iff.mp ha)
  have hb := (hperm files).mem_iff.mp hb
  exact List.inj_on_of_nodup_map files.nodup ha hb (le_antisymm hab hba)

/-- **The order of a mapping does not matter**. -/
theorem buildManifest_congr {files files' : SourceFiles} (h : files'.items.Perm files.items) :
    buildManifest files' limits = buildManifest files limits := by
  have hcount : countErrors files' limits = countErrors files limits := by
    rw [countErrors, countErrors, h.length_eq]
  have htotal : totalErrors files' limits = totalErrors files limits := by
    rw [totalErrors, totalErrors, (h.map fun file => file.2.length).sum_nat]
  rw [buildManifest, buildManifest, SourceFiles.sorted_congr h, hcount, htotal]

omit [Unicode] [Hashing] in
theorem countErrors_eq_nil_iff :
    countErrors files limits = [] ↔ files.items.length ≤ limits.maxFileCount := by
  rw [countErrors]
  split_ifs with h
  · simp [h]
  · simp [Nat.not_lt.mp h]

omit [Unicode] [Hashing] in
theorem totalErrors_eq_nil_iff : totalErrors files limits = [] ↔
    (files.items.map fun file => file.2.length).sum ≤ limits.maxProjectSize := by
  rw [totalErrors]
  split_ifs with h
  · simp [h]
  · simp [Nat.not_lt.mp h]

omit [Unicode] [Hashing] in
/-- The errors of the project as a whole name no path. -/
theorem filter_named_limits :
    (countErrors files limits ++ totalErrors files limits).filter ManifestError.named = [] := by
  refine List.filter_eq_nil_iff.mpr fun error herror => ?_
  rcases List.mem_append.mp herror with herror | herror
  · rw [countErrors] at herror
    split_ifs at herror
    · obtain rfl := List.mem_singleton.mp herror
      exact Bool.false_ne_true
    · cases herror
  · rw [totalErrors] at herror
    split_ifs at herror
    · obtain rfl := List.mem_singleton.mp herror
      exact Bool.false_ne_true
    · cases herror

/-- Files whose entries have one path are one. -/
theorem eq_of_entries_nodup {maxFileSize : ℕ} {l : List (PyStr × Bytes)}
    {entries : List ManifestEntry} (h : List.Forall₂ (EntryOf maxFileSize) l entries)
    (hnodup : (entries.map ManifestEntry.path).Nodup) {file file' : PyStr × Bytes} {path : PyStr}
    (hfile : file ∈ l) (hfile' : file' ∈ l) (hpath : normalizeSourcePath file.1 = .ok path)
    (hpath' : normalizeSourcePath file'.1 = .ok path) : file = file' := by
  induction h with
  | nil => cases hfile
  | @cons first entry l entries hof hall ih =>
    rw [List.map_cons, List.nodup_cons] at hnodup
    -- a file of the tail has no entry under the path of the first
    have hlater : ∀ {other}, other ∈ l → normalizeSourcePath other.1 ≠ .ok entry.path := by
      intro other hother heq
      obtain ⟨entry', hentry', hof'⟩ := hall.exists_right hother
      have hsame : entry'.path = entry.path := Except.ok.inj (hof'.canonical.symm.trans heq)
      exact hnodup.1 (hsame ▸ List.mem_map_of_mem hentry')
    rcases List.mem_cons.mp hfile with rfl | hmem <;>
      rcases List.mem_cons.mp hfile' with rfl | hmem'
    · rfl
    · exact absurd (hpath'.trans (hpath.symm.trans hof.canonical)) (hlater hmem')
    · exact absurd (hpath.trans (hpath'.symm.trans hof.canonical)) (hlater hmem)
    · exact ih hnodup.2 hmem hmem'

/-- Sources of one tree are those the walk has no error for, whose entries are files of one
tree, and that keep the project's limits. -/
theorem Walked.buildable_iff {walk : Walk}
    (h : Walked limits.maxFileSize files.items files.sorted walk) :
    Buildable files limits ↔ walk.errors = [] ∧ OneTree (walk.entries.map ManifestEntry.path) ∧
      countErrors files limits = [] ∧ totalErrors files limits = [] := by
  have hsorted : ∀ file, file ∈ files.sorted ↔ file ∈ files.items :=
    fun file => List.mem_insertionSort _
  have hcanonical : ∀ path ∈ walk.entries.map ManifestEntry.path, IsCanonical files path := by
    intro path hpath
    obtain ⟨entry, hentry, rfl⟩ := List.mem_map.mp hpath
    obtain ⟨file, hfile, hof⟩ := h.entryOf entry hentry
    exact ⟨file, (hsorted file).mp hfile, hof.canonical⟩
  rw [countErrors_eq_nil_iff, totalErrors_eq_nil_iff]
  constructor
  · intro hbuild
    refine ⟨?_, ⟨?_, ?_⟩, hbuild.count, hbuild.total⟩
    · by_contra hne
      obtain ⟨file, hfile, hrefused⟩ := h.refused hne
      have hfile := (hsorted file).mp hfile
      rcases hrefused with hpath | ⟨path, hpath, file', hfile', hdiffers, hpath'⟩ | hsize
      · obtain ⟨path, heq⟩ := hbuild.accepted file hfile
        exact hpath path heq
      · exact hdiffers (hbuild.distinct file' hfile' file hfile path hpath' hpath)
      · exact Nat.not_lt.mpr (hbuild.file_size file hfile) hsize
    · intro file hfile path hpath
      exact hbuild.no_file_above file path (hcanonical file hfile) (hcanonical path hpath)
    · rintro path hpath node hnode other ⟨path', hpath', hother⟩ hform
      exact hbuild.no_collision path path' node other (hcanonical path hpath)
        (hcanonical path' hpath') hnode hother hform
  · rintro ⟨hclean, htree, hcount, htotal⟩
    have hall := h.collected hclean
    have hentry : ∀ file ∈ files.items, ∃ entry ∈ walk.entries, EntryOf limits.maxFileSize file entry :=
      fun file hfile => hall.exists_right ((hsorted file).mpr hfile)
    have hmem : ∀ path, IsCanonical files path → path ∈ walk.entries.map ManifestEntry.path := by
      rintro path ⟨file, hfile, hpath⟩
      obtain ⟨entry, hentry, hof⟩ := hentry file hfile
      have hsame : entry.path = path := Except.ok.inj (hof.canonical.symm.trans hpath)
      exact hsame ▸ List.mem_map_of_mem hentry
    constructor
    · intro file hfile
      obtain ⟨entry, -, hof⟩ := hentry file hfile
      exact ⟨entry.path, hof.canonical⟩
    · intro file hfile file' hfile' path hpath hpath'
      exact eq_of_entries_nodup hall h.nodup ((hsorted file).mpr hfile)
        ((hsorted file').mpr hfile') hpath hpath'
    · intro file hfile
      obtain ⟨entry, -, hof⟩ := hentry file hfile
      exact hof.bounded
    · exact fun a b ha hb => htree.no_file_above a (hmem a ha) b (hmem b hb)
    · intro a b node other ha hb hnode hother hform
      exact htree.no_collision a (hmem a ha) node hnode other ⟨b, hmem b hb, hother⟩ hform
    · exact hcount
    · exact htotal

/-- The walk over all files of a build. -/
theorem UnicodeLaws.exists_walked (laws : UnicodeLaws) {files : SourceFiles} (maxFileSize : ℕ)
    (hscalar : ∀ file ∈ files.items, ∀ c ∈ file.1, isScalar c) :
    ∃ walk, files.sorted.foldlM (walkStep maxFileSize) ⟨[], [], []⟩ = .ok walk ∧
      Walked maxFileSize files.items files.sorted walk := by
  have hperm : files.sorted.Perm files.items := List.perm_insertionSort _ _
  have hstart : Walked maxFileSize files.items [] ⟨[], [], []⟩ := walked_nil
  exact hstart.run laws (fun _ hmem => hperm.mem_iff.mp hmem)
    (hperm.nodup_iff.mpr files.nodup_items) fun file hfile => hscalar file (hperm.mem_iff.mp hfile)

/-- Paths without surrogates are built. -/
theorem UnicodeLaws.buildManifest_ok (laws : UnicodeLaws) {files : SourceFiles}
    (limits : StorageLimits)
    (hscalar : ∀ file ∈ files.items, ∀ c ∈ file.1, isScalar c) :
    ∃ entries errors, buildManifest files limits = .ok (entries, errors) := by
  obtain ⟨walk, hrun, -⟩ := laws.exists_walked limits.maxFileSize hscalar
  exact ⟨_, _, by rw [buildManifest, hrun]⟩

/-- **A build** of files without surrogates in their paths: when it has no errors, and then its
entries; what it keeps of every file; and that the order of the mapping does not matter. -/
theorem buildManifest_exact (laws : UnicodeLaws) (files : SourceFiles) (limits : StorageLimits)
    (hscalar : ∀ file ∈ files.items, ∀ c ∈ file.1, isScalar c) :
    ∃ entries errors, buildManifest files limits = .ok (entries, errors) ∧
      (errors = [] ↔ Buildable files limits) ∧
      (errors = [] → ∃ all, List.Forall₂ (EntryOf limits.maxFileSize) files.items all ∧
        entries = sortByPath all) ∧
      entries.length + (errors.filter ManifestError.named).length = files.items.length ∧
      (entries.map ManifestEntry.path).Nodup ∧ OneTree (entries.map ManifestEntry.path) ∧
      ∀ files' : SourceFiles, files'.items.Perm files.items →
        buildManifest files' limits = buildManifest files limits := by
  have hperm : files.sorted.Perm files.items := List.perm_insertionSort _ _
  obtain ⟨walk, hrun, h⟩ := laws.exists_walked limits.maxFileSize hscalar
  have hkept := rejectPathConflicts_sublist walk.entries
  have hsort : (sortByPath (rejectPathConflicts walk.entries).1).Perm
      (rejectPathConflicts walk.entries).1 := List.perm_insertionSort _ _
  have hconflicts : (rejectPathConflicts walk.entries).2 = [] ↔
      OneTree (walk.entries.map ManifestEntry.path) := by
    constructor
    · intro hnil
      obtain ⟨-, hcoexist⟩ := rejectPathConflicts_nil (Prod.ext rfl hnil)
      exact laws.coexist_iff.mp hcoexist
    · intro htree
      rw [laws.rejectPathConflicts_of_oneTree htree]
  have herrors : walk.errors ++ (rejectPathConflicts walk.entries).2 ++ countErrors files limits ++
      totalErrors files limits = [] ↔ Buildable files limits := by
    rw [h.buildable_iff, List.append_eq_nil_iff, List.append_eq_nil_iff, List.append_eq_nil_iff,
      hconflicts, and_assoc, and_assoc]
  refine ⟨_, _, by rw [buildManifest, hrun], herrors, fun hnil => ?_, ?_, ?_, ?_,
    fun files' h' => buildManifest_congr h'⟩
  · obtain ⟨hclean, htree, -⟩ := h.buildable_iff.mp (herrors.mp hnil)
    obtain ⟨all, hall, hentries⟩ := List.perm_comp_forall₂ hperm.symm (h.collected hclean)
    refine ⟨all, hall, ?_⟩
    rw [laws.rejectPathConflicts_of_oneTree htree]
    -- both lists are sorted by paths that are distinct
    refine List.Perm.eq_of_pairwise (fun a b ha hb hab hba => ?_)
      (List.pairwise_insertionSort (fun a b : ManifestEntry => a.path ≤ b.path) _)
      (List.pairwise_insertionSort (fun a b : ManifestEntry => a.path ≤ b.path) _)
      ((List.perm_insertionSort _ _).trans (hentries.symm.trans (List.perm_insertionSort _ _).symm))
    have ha := (List.mem_insertionSort _).mp ha
    have hb := hentries.mem_iff.mp ((List.mem_insertionSort _).mp hb)
    exact List.inj_on_of_nodup_map h.nodup ha hb (le_antisymm hab hba)
  · have hnamed : ∀ error ∈ walk.errors ++ (rejectPathConflicts walk.entries).2, error.named :=
      List.forall_mem_append.mpr ⟨h.named, rejectPathConflicts_named⟩
    have hcount := rejectPathConflicts_count walk.entries
    have hwalk := h.count
    have hlength := hperm.length_eq
    have hfilter := @filter_named_limits files limits
    rw [List.append_assoc _ (countErrors files limits), List.filter_append, hfilter,
      List.append_nil, List.filter_eq_self.mpr hnamed, List.length_append, hsort.length_eq]
    omega
  · exact (hsort.map ManifestEntry.path).nodup_iff.mpr
      ((hkept.map ManifestEntry.path).nodup h.nodup)
  · exact (laws.rejectPathConflicts_oneTree walk.entries).perm (hsort.map ManifestEntry.path).symm

end Acceptance

/-- One file is built without an error, and a second one below it is rejected. -/
theorem buildManifest_exact_blocked : ∃ entries errors,
    @buildManifest asciiUnicode (tableHashing exampleTable)
      ⟨[(py "a.py", [120]), (py "a.py/b.py", [])], by decide⟩ ⟨10, 10, 10⟩ = .ok (entries, errors) ∧
    entries.length + (errors.filter ManifestError.named).length = 2 ∧ errors ≠ [] := by
  obtain ⟨entries, errors, hbuild, hiff, -, hcount, -⟩ :=
    @buildManifest_exact asciiUnicode (tableHashing exampleTable) unicodeLaws_ascii
      ⟨[(py "a.py", [120]), (py "a.py/b.py", [])], by decide⟩ ⟨10, 10, 10⟩ (by decide)
  refine ⟨entries, errors, hbuild, hcount, fun hnil => ?_⟩
  have habove : IsAbove (py "a.py") (py "a.py/b.py") := ⟨by
    rw [IsNode]
    decide, by decide⟩
  obtain ⟨-, -, -, hno, -⟩ := hiff.mp hnil
  exact hno (py "a.py") (py "a.py/b.py")
    ⟨_, List.mem_cons_self, by decide⟩ ⟨_, List.mem_cons_of_mem _ List.mem_cons_self, by decide⟩
    habove

end NetBoxScripts
