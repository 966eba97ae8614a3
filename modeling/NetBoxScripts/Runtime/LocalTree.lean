import NetBoxScripts.Database.Updates

/-!
# Trees on the local disk

What the runtime cache (`runtime/cache.py`) finds below a directory, by the segments of relative
paths: the compiled artifacts it purges, and the verification of a tree against a manifest.

## Main definitions

* `LocalTree`: the entries below a directory
* `LocalTree.purge`: the tree without compiled artifacts
* `LocalTree.faults`: the reasons `verify_local_tree` lists
* `Holds`, `Exact`: a tree of exactly a manifest's files and their directories

## Main results

* `LocalTree.faults_eq_nil_iff`: a tree verifies exactly when it holds the manifest
* `not_isArtifact_of_mem`: no file that a valid manifest names is an artifact
-/

namespace NetBoxScripts

/-! ## Trees -/

/-- What `lstat` shows of an entry, with what a file holds. -/
inductive LocalEntry
  | directory
  | file (content : Bytes)
  | symlink
  | special
  deriving DecidableEq, Repr

/-- Entries by the segments of their paths. -/
abbrev LocalEntries := List (List PyStr × LocalEntry)

/-- What a file system keeps true: names are no paths, a path has one entry, and an entry is in a
directory. -/
structure WellFormed (entries : LocalEntries) : Prop where
  named : ∀ e ∈ entries, e.1 ≠ [] ∧ ∀ name ∈ e.1, slash ∉ name
  nodup : (entries.map Prod.fst).Nodup
  closed : ∀ e ∈ entries, e.1.dropLast ≠ [] → (e.1.dropLast, LocalEntry.directory) ∈ entries

instance (entries : LocalEntries) : Decidable (WellFormed entries) :=
  decidable_of_iff ((∀ e ∈ entries, e.1 ≠ [] ∧ ∀ name ∈ e.1, slash ∉ name) ∧
      (entries.map Prod.fst).Nodup ∧
      ∀ e ∈ entries, e.1.dropLast ≠ [] → (e.1.dropLast, LocalEntry.directory) ∈ entries)
    ⟨fun h => ⟨h.1, h.2.1, h.2.2⟩, fun h => ⟨h.named, h.nodup, h.closed⟩⟩

/-- The entries below a directory. -/
structure LocalTree where
  entries : LocalEntries
  wellFormed : WellFormed entries
  deriving DecidableEq

namespace LocalTree

variable {tree : LocalTree} {path above : List PyStr} {entry entry' : LocalEntry}

/-- A path has one entry. -/
theorem entry_unique (h : (path, entry) ∈ tree.entries) (h' : (path, entry') ∈ tree.entries) :
    entry = entry' := by
  have := List.inj_on_of_nodup_map tree.wellFormed.nodup h h' rfl
  exact (Prod.mk.inj this).2

/-- Above an entry there are directories. -/
theorem directory_above (h : (path, entry) ∈ tree.entries) (habove : above <+: path)
    (hne : above ≠ []) (hproper : above ≠ path) : (above, .directory) ∈ tree.entries := by
  induction path using List.reverseRecOn generalizing entry with
  | nil => exact absurd (List.prefix_nil.mp habove) hne
  | append_singleton init last ih =>
    rcases List.prefix_concat_iff.mp habove with heq | habove
    · exact absurd heq hproper
    · have hinit : init ≠ [] := by
        rintro rfl
        exact hne (List.prefix_nil.mp habove)
      have hdirectory := tree.wellFormed.closed _ h
      rw [List.dropLast_concat] at hdirectory
      by_cases heq : above = init
      · exact heq ▸ hdirectory hinit
      · exact ih (hdirectory hinit) habove heq

/-- The segments of an entry's path are those it is made of. -/
theorem split_join_path (h : (path, entry) ∈ tree.entries) : split (join path) = path :=
  split_join (tree.wellFormed.named _ h).2 (tree.wellFormed.named _ h).1

end LocalTree

section Artifacts

variable [Unicode]

/-! ## Compiled artifacts -/

/-- `name.lower().endswith(_BYTECODE_SUFFIXES)` -/
def isBytecode (name : PyStr) : Bool :=
  (py ".pyc").isSuffixOf (lower name) || (py ".pyo").isSuffixOf (lower name)

/-- `name.lower() == '__pycache__'` -/
def isPycache (name : PyStr) : Bool := lower name = py "__pycache__"

/-- What the purge removes: bytecode files, bytecode directories, and all below these. A link to a
directory is listed among the files. -/
def isArtifact (e : List PyStr × LocalEntry) : Bool :=
  e.1.dropLast.any isPycache || e.1.getLast?.any fun name =>
    match e.2 with
    | .directory => isPycache name
    | _ => isBytecode name

/-- A directory above an entry that is no artifact is none. -/
theorem isArtifact_dropLast {e : List PyStr × LocalEntry} (h : isArtifact e = false) :
    isArtifact (e.1.dropLast, .directory) = false := by
  rw [isArtifact, Bool.or_eq_false_iff] at h ⊢
  have hnone := List.any_eq_false.mp h.1
  constructor
  · exact List.any_eq_false.mpr fun name hname => hnone name (List.dropLast_subset _ hname)
  · cases hlast : e.1.dropLast.getLast? with
    | none => rfl
    | some name =>
      rw [Option.any_some]
      exact Bool.eq_false_iff.mpr (hnone name (List.mem_of_getLast? hlast))

/-- `_purge_bytecode`, of a directory. -/
def LocalTree.purge (tree : LocalTree) : LocalTree where
  entries := tree.entries.filter fun e => !isArtifact e
  wellFormed := by
    have hmem : ∀ {e}, e ∈ tree.entries.filter (fun e => !isArtifact e) ↔
        e ∈ tree.entries ∧ isArtifact e = false := by
      intro e
      rw [List.mem_filter, Bool.not_eq_true']
    constructor
    · exact fun e he => tree.wellFormed.named e (hmem.mp he).1
    · exact (List.filter_sublist.map Prod.fst).nodup tree.wellFormed.nodup
    · intro e he hne
      obtain ⟨he, hnot⟩ := hmem.mp he
      exact hmem.mpr ⟨tree.wellFormed.closed e he hne, isArtifact_dropLast hnot⟩

theorem LocalTree.mem_purge {tree : LocalTree} {e : List PyStr × LocalEntry} :
    e ∈ tree.purge.entries ↔ e ∈ tree.entries ∧ isArtifact e = false := by
  rw [purge, List.mem_filter, Bool.not_eq_true']

/-- **No file of a valid manifest is an artifact**. -/
theorem not_isArtifact_of_mem {path : PyStr} {content : Bytes}
    (h : normalizeSourcePath path = .ok path) :
    isArtifact (split path, .file content) = false := by
  obtain ⟨-, hsegments, hpath⟩ := (normalizeSourcePath_eq_ok_iff ..).mp h
  have hsplit : split path = realSegments (nfc path) := by
    conv_lhs => rw [hpath]
    exact split_join_realSegments hsegments.nonempty
  have hsource := hsegments.source
  rw [← hsplit, isCompiledArtifact, Bool.or_eq_false_iff, List.getLast?_map, Option.any_map] at hsource
  obtain ⟨hlast, hdirectories⟩ := hsource
  rw [isArtifact, Bool.or_eq_false_iff]
  refine ⟨List.any_eq_false.mpr fun name hname heq => ?_, hlast⟩
  have hmem : lower name ∈ (split path).map lower :=
    List.mem_map_of_mem (List.dropLast_subset _ hname)
  rw [of_decide_eq_true heq] at hmem
  rw [List.contains_eq_mem, decide_eq_false_iff_not] at hdirectories
  exact hdirectories hmem

end Artifacts

/-! ## Verification -/

section Verify

variable [Hashing]

/-- One reason of `verify_local_tree`. -/
inductive LocalFault
  | missingRoot
  | symlink (path : PyStr)
  | unexpectedEntry (path : PyStr)
  | missing (path : PyStr)
  | sizeMismatch (path : PyStr)
  | checksumMismatch (path : PyStr)
  deriving DecidableEq, Repr

/-- `expected_dirs` -/
def expectedDirectories (manifest : List ManifestEntry) : List PyStr :=
  manifest.flatMap fun entry =>
    let segments := split entry.path
    (List.range (segments.length - 1)).map fun i => join (segments.take (i + 1))

/-- What the loop over the entries on the disk says of one. -/
def entryFault (manifest : List ManifestEntry) (e : List PyStr × LocalEntry) : Option LocalFault :=
  let relative := join e.1
  match e.2 with
  | .symlink => some (.symlink relative)
  | .directory =>
    if relative ∈ expectedDirectories manifest then none else some (.unexpectedEntry relative)
  | .special => some (.unexpectedEntry relative)
  | .file _ =>
    if relative ∈ manifest.map ManifestEntry.path then none else some (.unexpectedEntry relative)

namespace LocalTree

variable {tree : LocalTree} {manifest : List ManifestEntry} {entry : ManifestEntry}

/-- `found.get(path)`, with what the file holds. -/
def found (tree : LocalTree) (path : PyStr) : Option Bytes :=
  tree.entries.findSome? fun e =>
    match e.2 with
    | .file content => if join e.1 = path then some content else none
    | _ => none

/-- What the loop over the manifest says of one entry. -/
def fileFault (tree : LocalTree) (manifest : List ManifestEntry) (entry : ManifestEntry) :
    Option LocalFault :=
  match tree.found entry.path with
  | none =>
    -- a path that was flagged is not missing besides
    if tree.entries.any fun e => join e.1 = entry.path && (entryFault manifest e).isSome then none
    else some (.missing entry.path)
  | some content =>
    if content.length ≠ entry.size then some (.sizeMismatch entry.path)
    else
      -- the read stops one byte past the recorded size
      let measured := content.take (entry.size + 1)
      if measured.length ≠ entry.size then some (.sizeMismatch entry.path)
      else if sha256 measured ≠ entry.sha256 then some (.checksumMismatch entry.path)
      else none

/-- `reasons`, in the order they are found. -/
def faults (tree : LocalTree) (manifest : List ManifestEntry) : List LocalFault :=
  tree.entries.filterMap (entryFault manifest) ++ manifest.filterMap (tree.fileFault manifest)

/-- **The manifest's files with their recorded contents, the directories above them, and nothing
else**. -/
structure Holds (tree : LocalTree) (manifest : List ManifestEntry) : Prop where
  files : ∀ entry ∈ manifest, ∃ content, (split entry.path, .file content) ∈ tree.entries ∧
    Intact content entry
  directories : ∀ entry ∈ manifest, ∀ above, above <+: split entry.path → above ≠ [] →
    above ≠ split entry.path → (above, .directory) ∈ tree.entries
  only : ∀ e ∈ tree.entries, (∃ entry ∈ manifest, e.1 = split entry.path ∧
      ∃ content, e.2 = .file content ∧ Intact content entry) ∨
    (e.2 = .directory ∧ ∃ entry ∈ manifest, e.1 <+: split entry.path ∧ e.1 ≠ split entry.path)

omit [Hashing] in
theorem found_eq_some_iff {path : PyStr} {content : Bytes} :
    tree.found path = some content ↔ (split path, .file content) ∈ tree.entries := by
  have hback : ∀ {content}, tree.found path = some content →
      (split path, .file content) ∈ tree.entries := by
    intro content h
    obtain ⟨⟨segments, kind⟩, he, h⟩ := List.exists_of_findSome?_eq_some h
    cases kind with
    | file found =>
      dsimp only at h
      split_ifs at h with hpath
      cases h
      rw [← hpath, split_join_path he]
      exact he
    | _ => cases h
  refine ⟨hback, fun h => ?_⟩
  cases hfound : tree.found path with
  | none =>
    have := List.findSome?_eq_none_iff.mp hfound _ h
    simp at this
  | some content' =>
    obtain heq := entry_unique (hback hfound) h
    rw [LocalEntry.file.inj heq]

omit [Hashing] in
theorem mem_expectedDirectories {path : PyStr} : path ∈ expectedDirectories manifest ↔
    ∃ entry ∈ manifest, ∃ above, above <+: split entry.path ∧ above ≠ [] ∧
      above ≠ split entry.path ∧ path = join above := by
  simp only [expectedDirectories, List.mem_flatMap, List.mem_map, List.mem_range]
  constructor
  · rintro ⟨entry, hentry, i, hi, rfl⟩
    refine ⟨entry, hentry, (split entry.path).take (i + 1), List.take_prefix _ _, ?_, ?_, rfl⟩
    · intro hnil
      have := congrArg List.length hnil
      simp [split_ne_nil] at this
    · intro heq
      have := congrArg List.length heq
      rw [List.length_take] at this
      omega
  · rintro ⟨entry, hentry, above, habove, hne, hproper, rfl⟩
    have hlength := habove.length_le
    have hlt : above.length < (split entry.path).length := by
      rcases hlength.lt_or_eq with hlt | heq
      · exact hlt
      · exact absurd (habove.eq_of_length heq) hproper
    have hpos := List.length_pos_iff.mpr hne
    refine ⟨entry, hentry, above.length - 1, by omega, ?_⟩
    rw [Nat.sub_add_cancel hpos, ← List.prefix_iff_eq_take.mp habove]

/-- What the loop over the manifest passes. -/
theorem fileFault_eq_none_iff (h : ∀ e ∈ tree.entries, entryFault manifest e = none) :
    tree.fileFault manifest entry = none ↔
      ∃ content, (split entry.path, .file content) ∈ tree.entries ∧ Intact content entry := by
  unfold fileFault
  cases hfound : tree.found entry.path with
  | none =>
    have hflagged : tree.entries.any (fun e =>
        join e.1 = entry.path && (entryFault manifest e).isSome) = false := by
      refine List.any_eq_false.mpr fun e he => ?_
      rw [h e he]
      simp
    rw [hflagged]
    simp only [Bool.false_eq_true, if_false, reduceCtorEq, false_iff, not_exists, not_and]
    intro content hmem
    rw [found_eq_some_iff.mpr hmem] at hfound
    cases hfound
  | some content =>
    have hmem := found_eq_some_iff.mp hfound
    have hintact : (∃ content, (split entry.path, .file content) ∈ tree.entries ∧
        Intact content entry) ↔ Intact content entry := by
      constructor
      · rintro ⟨content', hmem', hintact⟩
        rw [LocalEntry.file.inj (entry_unique hmem hmem')]
        exact hintact
      · exact fun hintact => ⟨content, hmem, hintact⟩
    rw [hintact, Intact]
    by_cases hsize : content.length = entry.size
    · have htake : content.take (entry.size + 1) = content := List.take_of_length_le (by omega)
      by_cases hchecksum : sha256 content = entry.sha256 <;> simp [hsize, htake, hchecksum]
    · simp [hsize]

/-- **A tree verifies exactly when it holds the manifest**. -/
theorem faults_eq_nil_iff : tree.faults manifest = [] ↔ tree.Holds manifest := by
  rw [faults, List.append_eq_nil_iff, List.filterMap_eq_nil_iff, List.filterMap_eq_nil_iff]
  constructor
  · rintro ⟨hentries, hfiles⟩
    have hstored : ∀ entry ∈ manifest, ∃ content,
        (split entry.path, .file content) ∈ tree.entries ∧ Intact content entry :=
      fun entry hentry => (fileFault_eq_none_iff hentries).mp (hfiles entry hentry)
    refine ⟨hstored, fun entry hentry above habove hne hproper => ?_, fun e he => ?_⟩
    · obtain ⟨content, hmem, -⟩ := hstored entry hentry
      exact directory_above hmem habove hne hproper
    · obtain ⟨path, kind⟩ := e
      have hnone := hentries _ he
      unfold entryFault at hnone
      cases kind with
      | symlink => cases hnone
      | special => cases hnone
      | directory =>
        dsimp only at hnone
        split_ifs at hnone with hexpected
        obtain ⟨entry, hentry, above, habove, hne, hproper, heq⟩ := mem_expectedDirectories.mp hexpected
        have hsegments : split (join above) = above :=
          split_join (fun name hname => slash_notMem_of_mem_split (habove.subset hname)) hne
        obtain rfl : path = above := by rw [← split_join_path he, heq, hsegments]
        exact .inr ⟨rfl, entry, hentry, habove, hproper⟩
      | file content =>
        dsimp only at hnone
        split_ifs at hnone with hexpected
        obtain ⟨entry, hentry, heq⟩ := List.mem_map.mp hexpected
        have hpath : path = split entry.path := by rw [heq, split_join_path he]
        obtain ⟨content', hmem, hintact⟩ := hstored entry hentry
        rw [← hpath] at hmem
        exact .inl ⟨entry, hentry, hpath, content, rfl,
          LocalEntry.file.inj (entry_unique he hmem) ▸ hintact⟩
  · intro h
    have hentries : ∀ e ∈ tree.entries, entryFault manifest e = none := by
      rintro ⟨path, kind⟩ he
      rcases h.only _ he with ⟨entry, hentry, hpath, content, hkind, -⟩ |
        ⟨hkind, entry, hentry, habove, hproper⟩
      · cases hkind
        cases hpath
        exact if_pos (List.mem_map.mpr ⟨entry, hentry, (join_split entry.path).symm⟩)
      · cases hkind
        exact if_pos (mem_expectedDirectories.mpr ⟨entry, hentry, path, habove,
          (tree.wellFormed.named _ he).1, hproper, rfl⟩)
    exact ⟨hentries, fun entry hentry => (fileFault_eq_none_iff hentries).mpr (h.files entry hentry)⟩

/-- **A tree that is the manifest's**: no link and nothing special, the regular files those of the
manifest with what it records, and the directories those above them. -/
structure Exact (tree : LocalTree) (manifest : List ManifestEntry) : Prop where
  plain : ∀ e ∈ tree.entries, e.2 ≠ .symlink ∧ e.2 ≠ .special
  files : ∀ path content, (path, .file content) ∈ tree.entries →
    ∃ entry ∈ manifest, path = split entry.path
  recorded : ∀ entry ∈ manifest, ∃ content, (split entry.path, .file content) ∈ tree.entries ∧
    content.length = entry.size ∧ sha256 content = entry.sha256
  directories : ∀ path, (path, .directory) ∈ tree.entries ↔
    path ≠ [] ∧ ∃ entry ∈ manifest, path <+: split entry.path ∧ path ≠ split entry.path

theorem holds_iff_exact : tree.Holds manifest ↔ tree.Exact manifest := by
  constructor
  · intro h
    constructor
    · intro e he
      rcases h.only e he with ⟨entry, -, -, content, hkind, -⟩ | ⟨hkind, -⟩
      · rw [hkind]
        exact ⟨nofun, nofun⟩
      · rw [hkind]
        exact ⟨nofun, nofun⟩
    · intro path content hmem
      rcases h.only _ hmem with ⟨entry, hentry, hpath, -⟩ | ⟨hkind, -⟩
      · exact ⟨entry, hentry, hpath⟩
      · cases hkind
    · exact h.files
    · intro path
      constructor
      · intro hmem
        refine ⟨(tree.wellFormed.named _ hmem).1, ?_⟩
        rcases h.only _ hmem with ⟨entry, -, -, content, hkind, -⟩ | ⟨-, habove⟩
        · cases hkind
        · exact habove
      · rintro ⟨hne, entry, hentry, habove, hproper⟩
        exact h.directories entry hentry path habove hne hproper
  · intro h
    refine ⟨h.recorded, fun entry hentry above habove hne hproper =>
      (h.directories above).mpr ⟨hne, entry, hentry, habove, hproper⟩, ?_⟩
    rintro ⟨path, kind⟩ hmem
    cases kind with
    | directory => exact .inr ⟨rfl, ((h.directories path).mp hmem).2⟩
    | symlink => exact absurd rfl (h.plain _ hmem).1
    | special => exact absurd rfl (h.plain _ hmem).2
    | file content =>
      obtain ⟨entry, hentry, rfl⟩ := h.files path content hmem
      obtain ⟨content', hmem', hintact⟩ := h.recorded entry hentry
      -- the file found is the one recorded: a path has one entry
      rw [← LocalEntry.file.inj (entry_unique hmem hmem')] at hintact
      exact .inl ⟨entry, hentry, rfl, content, rfl, hintact⟩

end LocalTree

end Verify

end NetBoxScripts
