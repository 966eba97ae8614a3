import NetBoxScripts.Database.World
import NetBoxScripts.Models.Declarations
import NetBoxScripts.Storage.ManifestText

/-!
# What the two digests of a revision tell apart

The digest of a manifest built from a source tree stands for the tree, and the digest of a
snapshot for the enabled declarations it froze.

## Main definitions

* `Describes`: a manifest of a tree
* `declaredIn`: the enabled declarations of a project
* `projectSnapshot`: their snapshot

## Main results

* `Describes.manifestDigest_eq_iff`: one digest is one tree
* `projectSnapshot_digest_eq_iff`: one digest is one set of enabled declarations
-/

namespace NetBoxScripts

/-! ## Snapshots -/

section Snapshots

/-- A path with a UTF-8 form. -/
def SnapshotEntry.Readable (entry : SnapshotEntry) : Prop := ∀ c ∈ entry.sourcePath, isScalar c

theorem SnapshotEntry.dumps_append (entry : SnapshotEntry) (rest : PyStr) :
    Json.dumps entry.toJson ++ rest =
      123 :: (Json.quote (py "script_file") ++ 58 :: (decimal entry.scriptFile ++ 44 ::
      (Json.quote (py "source_path") ++ 58 :: (Json.quote entry.sourcePath ++ 125 :: rest)))) := by
  have hsorted : ∀ x y : PyStr, ([(py "script_file", x), (py "source_path", y)] :
      List (PyStr × PyStr)).insertionSort (fun a b => a.1 ≤ b.1) =
        [(py "script_file", x), (py "source_path", y)] := by
    intro x y
    have hle : py "script_file" ≤ py "source_path" ↔ True := by decide
    simp only [List.insertionSort, List.foldr, List.orderedInsert, hle, if_true]
  rw [toJson, Json.dumps, Json.dumpsFields, Json.dumpsFields, Json.dumpsFields, hsorted]
  simp [Json.commaJoin, Json.dumps, Json.intText]

/-- The texts of entries are told from what follows them. -/
theorem SnapshotEntry.selfDelimiting :
    Json.SelfDelimiting SnapshotEntry.toJson SnapshotEntry.Readable where
  opens entry := ⟨_, by simpa using entry.dumps_append []⟩
  inj e e' rest rest' he he' h := by
    rw [dumps_append, dumps_append] at h
    have h₁ := (List.cons.inj (List.append_cancel_left (List.cons.inj h).2)).2
    obtain ⟨hfile, h₂⟩ := Json.decimal_append_inj (by decide) h₁
    have h₃ := (List.cons.inj (List.append_cancel_left h₂)).2
    obtain ⟨hpath, h₄⟩ := Json.quote_append_inj he he' h₃
    cases e
    cases e'
    exact ⟨by simp_all, (List.cons.inj h₄).2⟩
  ascii entry c hc := by
    have h := entry.dumps_append []
    rw [List.append_nil] at h
    rw [h] at hc
    simp only [List.mem_cons, List.mem_append, List.not_mem_nil, or_false] at hc
    have hdecimal : c ∈ decimal entry.scriptFile → c < 128 := by
      intro hc
      have := Json.isDigit_of_mem_decimal hc
      simp only [Json.isDigit, Bool.and_eq_true, decide_eq_true_eq] at this
      omega
    rcases hc with rfl | hc | rfl | hc | rfl | hc | rfl | hc | rfl
    all_goals first | decide | exact Json.lt_of_mem_quote hc | exact hdecimal hc

variable [Hashing]

/-- Snapshots with one digest are one. -/
theorem eq_of_snapshotDigest_eq (hfree : CollisionFree) {a b : List SnapshotEntry}
    (ha : ∀ entry ∈ a, entry.Readable) (hb : ∀ entry ∈ b, entry.Readable)
    (h : snapshotDigest a = snapshotDigest b) : a = b := by
  have htext := SnapshotEntry.selfDelimiting
  apply Json.dumps_arr_inj htext ha hb
  exact encodeAscii_inj (fun c => Json.lt_of_mem_dumps_arr htext)
    (fun c => Json.lt_of_mem_dumps_arr htext) (hfree.injective h)

end Snapshots

/-! ## Enabled declarations -/

section Declared

variable {files files' : Table ScriptFileRow} {project : Id}

/-- The enabled declarations of a project: the path under each key. -/
def declaredIn (project : Id) (files : Table ScriptFileRow) (i : Id) : Option PyStr :=
  (files.row i).bind fun row =>
    if row.project = project ∧ row.enabled then some row.sourcePath else none

/-- `ScriptFile.objects.filter(project=project, enabled=True)` -/
def enabledFiles (project : Id) (files : Table ScriptFileRow) : List (Id × ScriptFileRow) :=
  files.entries.filter fun file => file.2.project = project ∧ file.2.enabled

/-- `build_script_file_snapshot` of a project's enabled declarations. -/
def projectSnapshot (project : Id) (files : Table ScriptFileRow) : List SnapshotEntry :=
  buildScriptFileSnapshot (enabledFiles project files)

theorem mem_projectSnapshot {entry : SnapshotEntry} :
    entry ∈ projectSnapshot project files ↔
      declaredIn project files entry.scriptFile = some entry.sourcePath := by
  rw [projectSnapshot, buildScriptFileSnapshot, List.mem_insertionSort, List.mem_map]
  simp only [enabledFiles, declaredIn, List.mem_filter, decide_eq_true_eq,
    Option.bind_eq_some_iff, Option.ite_none_right_eq_some, Option.some_inj]
  constructor
  · rintro ⟨⟨i, row⟩, ⟨hrow, henabled⟩, rfl⟩
    exact ⟨row, Table.mem_entries.mp hrow, henabled, rfl⟩
  · rintro ⟨row, hrow, henabled, hpath⟩
    refine ⟨(entry.scriptFile, row), ⟨Table.mem_entries.mpr hrow, henabled⟩, ?_⟩
    cases entry
    simp_all

/-- A snapshot is made of the enabled declarations. -/
theorem projectSnapshot_congr (h : declaredIn project files = declaredIn project files') :
    projectSnapshot project files = projectSnapshot project files' := by
  have hgather : ∀ files : Table ScriptFileRow,
      ((enabledFiles project files).map fun file => SnapshotEntry.mk file.1 file.2.sourcePath) =
        files.entries.filterMap fun file => if file.2.project = project ∧ file.2.enabled then
          some (SnapshotEntry.mk file.1 file.2.sourcePath) else none := by
    intro files
    rw [enabledFiles, ← List.filterMap_eq_map, List.filterMap_filter]
    refine List.filterMap_congr fun file _ => ?_
    simp
  rw [projectSnapshot, projectSnapshot, buildScriptFileSnapshot, buildScriptFileSnapshot, hgather,
    hgather]
  congr 1
  refine Table.filterMap_entries_congr fun i => ?_
  have hentry : ∀ files : Table ScriptFileRow, ((files.row i).bind fun row =>
      if row.project = project ∧ row.enabled then some (SnapshotEntry.mk i row.sourcePath)
        else none) = (declaredIn project files i).map (SnapshotEntry.mk i) := by
    intro files
    rw [declaredIn, Option.map_bind]
    congr 1
    funext row
    split_ifs <;> simp [*]
  rw [hentry, hentry, h]

variable [Unicode]

/-- A path the policy takes has a UTF-8 form. -/
theorem isScalar_of_normalizeSourcePath {path canonical : PyStr}
    (h : normalizeSourcePath path = .ok canonical) : ∀ c ∈ canonical, isScalar c := by
  obtain ⟨-, hsegments, rfl⟩ := (normalizeSourcePath_eq_ok_iff _ _).mp h
  obtain ⟨n, -, hlength⟩ := hsegments.total
  exact isScalar_of_utf8Length hlength

theorem projectSnapshot_readable (h : Declarations files) :
    ∀ entry ∈ projectSnapshot project files, entry.Readable := by
  intro entry hentry
  have hdeclared := mem_projectSnapshot.mp hentry
  simp only [declaredIn, Option.bind_eq_some_iff, Option.ite_none_right_eq_some,
    Option.some_inj] at hdeclared
  obtain ⟨row, hrow, -, hpath⟩ := hdeclared
  rw [SnapshotEntry.Readable, ← hpath]
  exact isScalar_of_normalizeSourcePath (h.importable _ _ hrow).canonical

variable [Hashing]

/-- **One digest is one set of enabled declarations.** -/
theorem projectSnapshot_digest_eq_iff (hfree : CollisionFree) (h : Declarations files)
    (h' : Declarations files') :
    snapshotDigest (projectSnapshot project files) =
        snapshotDigest (projectSnapshot project files') ↔
      declaredIn project files = declaredIn project files' := by
  constructor
  · intro hdigest
    have heq := eq_of_snapshotDigest_eq hfree (projectSnapshot_readable h)
      (projectSnapshot_readable h') hdigest
    funext i
    apply Option.ext
    intro path
    have hmem := @mem_projectSnapshot files project ⟨i, path⟩
    have hmem' := @mem_projectSnapshot files' project ⟨i, path⟩
    rw [← hmem, ← hmem', heq]
  · intro hdeclared
    rw [projectSnapshot_congr hdeclared]

end Declared

/-! ## Manifests of a tree -/

section Trees

variable [Hashing] {a b : List ManifestEntry} {tree tree' : Tree}

/-- What a manifest records of a file's content. -/
def measure (content : Bytes) : ℕ × PyStr := (content.length, sha256 content)

/-- A manifest that records a tree, each file once. -/
structure Describes (manifest : List ManifestEntry) (tree : Tree) : Prop where
  readable : ∀ entry ∈ manifest, entry.Readable
  nodup : (manifest.map ManifestEntry.path).Nodup
  files : ∀ path, fileAt manifest path = (tree path).map measure

theorem measure_injective (hfree : CollisionFree) : Function.Injective measure := by
  intro content content' h
  exact hfree.injective (Prod.mk.inj h).2

/-- Manifests of one tree are one another's reorderings. -/
theorem Describes.perm (ha : Describes a tree) (hb : Describes b tree) : a.Perm b := by
  have hmem : ∀ {a b : List ManifestEntry}, Describes a tree → Describes b tree →
      ∀ entry ∈ a, entry ∈ b := by
    intro a b ha hb entry hentry
    have hfile := (fileAt_eq_some_iff ha.nodup).mpr ⟨entry, hentry, rfl, rfl⟩
    rw [ha.files, ← hb.files] at hfile
    obtain ⟨other, hother, hpath, hdata⟩ := (fileAt_eq_some_iff hb.nodup).mp hfile
    obtain ⟨hsize, hsha⟩ := Prod.mk.inj hdata
    have heq : other = entry := by
      cases other
      cases entry
      cases hpath
      cases hsize
      cases hsha
      rfl
    exact heq ▸ hother
  refine (List.perm_ext_iff_of_nodup ha.nodup.of_map hb.nodup.of_map).mpr fun entry => ?_
  exact ⟨hmem ha hb entry, hmem hb ha entry⟩

/-- A digest does not depend on the order of the entries. -/
theorem manifestDigest_perm (hnodup : (a.map ManifestEntry.path).Nodup) (h : a.Perm b) :
    manifestDigest a = manifestDigest b := by
  have hperm : (sortByPath a).Perm (sortByPath b) :=
    ((List.perm_insertionSort _ a).trans h).trans (List.perm_insertionSort _ b).symm
  have hsorted : sortByPath a = sortByPath b := by
    refine hperm.eq_of_pairwise (fun e e' he he' hle hge => ?_)
      (List.pairwise_insertionSort _ _) (List.pairwise_insertionSort _ _)
    refine List.inj_on_of_nodup_map hnodup ((List.mem_insertionSort _).mp he) ?_
      (le_antisymm hle hge)
    exact h.mem_iff.mpr ((List.mem_insertionSort _).mp he')
  rw [manifestDigest, hsorted, manifestDigest]

/-- **One digest is one tree.** -/
theorem Describes.manifestDigest_eq_iff (hfree : CollisionFree) (ha : Describes a tree)
    (hb : Describes b tree') : manifestDigest a = manifestDigest b ↔ tree = tree' := by
  constructor
  · intro h
    have hfiles := fileAt_eq_of_manifestDigest_eq hfree ha.readable hb.readable ha.nodup h
    funext path
    apply Option.map_injective (measure_injective hfree)
    rw [← ha.files, ← hb.files, hfiles]
  · rintro rfl
    exact manifestDigest_perm ha.nodup (ha.perm hb)

variable [Unicode]

/-- The source files by canonical path. -/
def canonicalTree (files : SourceFiles) : Tree := fun path =>
  (files.items.find? fun file =>
    match normalizeSourcePath file.1 with
    | .ok canonical => canonical = path
    | .error _ => false).map Prod.snd

/-- **A build without errors** describes the canonical tree. -/
theorem BuiltFrom.describes {files : SourceFiles} {limits : StorageLimits}
    (h : BuiltFrom files limits a) : Describes a (canonicalTree files) := by
  have hfind : ∀ path file, files.items.find? (fun file =>
      match normalizeSourcePath file.1 with
      | .ok canonical => decide (canonical = path)
      | .error _ => false) = some file →
        file ∈ files.items ∧ normalizeSourcePath file.1 = .ok path := by
    intro path file hfound
    refine ⟨List.mem_of_find?_eq_some hfound, ?_⟩
    have hsome := List.find?_some hfound
    split at hsome
    · next canonical hcanonical => rw [hcanonical, of_decide_eq_true hsome]
    · cases hsome
  constructor
  · intro entry hentry
    obtain ⟨file, -, hof⟩ := h.entryOf entry hentry
    exact ⟨isScalar_of_normalizeSourcePath hof.canonical, .inr ⟨file.2, hof.sha256_eq⟩⟩
  · exact h.nodup
  · intro path
    rw [canonicalTree, Option.map_map]
    cases hfound : files.items.find? _ with
    | none =>
      rw [Option.map_none, Option.eq_none_iff_forall_ne_some]
      intro data hdata
      obtain ⟨entry, hentry, rfl, -⟩ := (fileAt_eq_some_iff h.nodup).mp hdata
      obtain ⟨file, hfile, hof⟩ := h.entryOf entry hentry
      have hnot := List.find?_eq_none.mp hfound file hfile
      rw [hof.canonical] at hnot
      simp at hnot
    | some file =>
      obtain ⟨hfile, hcanonical⟩ := hfind path file hfound
      obtain ⟨entry, hentry, hof⟩ := h.covers file hfile
      have hpath : entry.path = path := by
        have := hof.canonical.symm.trans hcanonical
        exact Except.ok.inj this
      refine (fileAt_eq_some_iff h.nodup).mpr ⟨entry, hentry, hpath, ?_⟩
      rw [hof.size_eq, hof.sha256_eq]
      rfl

end Trees

end NetBoxScripts
