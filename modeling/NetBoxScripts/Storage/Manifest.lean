import NetBoxScripts.Python.Json
import NetBoxScripts.Python.Raise
import NetBoxScripts.Storage.Paths

/-!
# Manifests

`storage/manifest.py`: the builder turns source files into entries and error records, the digest
addresses the entries, and the validator checks a manifest that was stored and read back.

## Main definitions

* `SourceFiles`: a mapping of source paths to content
* `buildManifest`: the entries and the errors of such a mapping
* `computeDigest`: the content address of entries
* `validateManifest`: the check of a persisted manifest

## Main results

* `buildManifest_builtFrom`: what a build without errors has checked
* `validateManifest_toJson_iff`: which entry lists the validator accepts
-/

namespace NetBoxScripts

/-- The content of a file. -/
abbrev Bytes := List UInt8

/-- `text.encode('ascii')` -/
def encodeAscii (text : PyStr) : Bytes := text.map fun c => UInt8.ofNat c

/-- `hashlib` -/
class Hashing where
  /-- `hashlib.sha256(content).hexdigest()` -/
  sha256 : Bytes → PyStr

export Hashing (sha256)

/-- `_SHA256.fullmatch`, `_HEX_DIGEST.fullmatch`: 64 lower-case hexadecimal characters. -/
def isHexDigest (s : PyStr) : Bool :=
  s.length == 64 && s.all fun c => (48 ≤ c && c ≤ 57) || (97 ≤ c && c ≤ 102)

/-- The limits of one operation, `limits` -/
structure StorageLimits where
  maxFileSize : ℕ
  maxFileCount : ℕ
  maxProjectSize : ℕ
  deriving DecidableEq, Repr

/-- A mapping of source paths to content: no path occurs twice. -/
structure SourceFiles where
  items : List (PyStr × Bytes)
  nodup : (items.map Prod.fst).Nodup
  deriving DecidableEq

/-- One entry of a manifest. -/
structure ManifestEntry where
  path : PyStr
  size : ℕ
  sha256 : PyStr
  deriving DecidableEq, Repr

/-- One error record of a build. -/
structure ManifestError where
  path : Option PyStr
  code : RejectionCode
  message : PyStr
  deriving DecidableEq, Repr

namespace ManifestEntry

/-- The entry as it is persisted. -/
def toJson (entry : ManifestEntry) : Json :=
  .obj [(py "path", .str entry.path), (py "size", .int entry.size),
    (py "sha256", .str entry.sha256)]

@[simp] theorem get?_path_toJson (entry : ManifestEntry) :
    entry.toJson.get? (py "path") = some (.str entry.path) := rfl

@[simp] theorem get?_size_toJson (entry : ManifestEntry) :
    entry.toJson.get? (py "size") = some (.int entry.size) := rfl

@[simp] theorem get?_sha256_toJson (entry : ManifestEntry) :
    entry.toJson.get? (py "sha256") = some (.str entry.sha256) := rfl

end ManifestEntry

/-! ## Building -/

section Build

variable [Unicode] [Hashing]

/-- `_build_entry(canonical, content, max_file_size)`; the error is the `LimitExceededError`. -/
def buildEntry (canonical : PyStr) (content : Bytes) (maxFileSize : ℕ) :
    Except ManifestError ManifestEntry :=
  if content.length > maxFileSize then
    .error ⟨some canonical, .fileTooLarge, py "\"" ++ canonical ++ py "\" is " ++
      decimal content.length ++ py " bytes, over the " ++ decimal maxFileSize ++ py " byte limit."⟩
  else .ok ⟨canonical, content.length, sha256 content⟩

/-- What the walk over the sorted files has collected. -/
structure Walk where
  entries : List ManifestEntry
  errors : List ManifestError
  seen : List PyStr
  deriving DecidableEq

/-- One turn of the walk. A path whose encoding raises ends the build. -/
def walkStep (maxFileSize : ℕ) (walk : Walk) (file : PyStr × Bytes) : Except PathFailure Walk :=
  match normalizeSourcePath file.1 with
  | .error (.unsafePath error) =>
    .ok { walk with errors := walk.errors ++ [⟨some error.path, error.code, error.message⟩] }
  | .error .unicodeEncodeError => .error .unicodeEncodeError
  | .ok canonical =>
    if canonical ∈ walk.seen then
      .ok { walk with errors := walk.errors ++ [⟨some file.1, .duplicatePath,
        py "Multiple source files resolve to the path \"" ++ canonical ++ py "\"."⟩] }
    else
      match buildEntry canonical file.2 maxFileSize with
      | .error error =>
        .ok { walk with seen := canonical :: walk.seen, errors := walk.errors ++ [error] }
      | .ok entry =>
        .ok { walk with seen := canonical :: walk.seen, entries := walk.entries ++ [entry] }

/-- The ancestors of a path, shallowest first. -/
def ancestors (path : PyStr) : List PyStr :=
  (List.range' 1 ((split path).length - 1)).map fun index => join ((split path).take index)

/-- The first ancestor of the path that is itself a file. -/
def blockingAncestor (files : List PyStr) (path : PyStr) : Option PyStr :=
  (ancestors path).find? fun ancestor => ancestor ∈ files

/-- The error record of an entry below a file. -/
def pathConflict (files : List PyStr) (entry : ManifestEntry) : Option ManifestError :=
  (blockingAncestor files entry.path).map fun blocking => ⟨some entry.path, .pathConflict,
    py "\"" ++ blocking ++ py "\" is a file and cannot also contain another file."⟩

/-- The error record of an entry in a case-insensitive collision. -/
def caseFoldConflict (collisions : List (PyStr × (PyStr × PyStr))) (entry : ManifestEntry) :
    Option ManifestError :=
  (collisions.find? fun collision => collision.1 = entry.path).map fun collision =>
    ⟨some entry.path, .caseFoldConflict, py "\"" ++ collision.2.1 ++ py "\" and \"" ++
      collision.2.2 ++ py "\" collide when letter case is ignored."⟩

/-- `_reject_path_conflicts(entries)` -/
def rejectPathConflicts (entries : List ManifestEntry) :
    List ManifestEntry × List ManifestError :=
  let files := entries.map ManifestEntry.path
  let kept := entries.filter fun entry => (pathConflict files entry).isNone
  let collisions := caseInsensitiveCollisions (kept.map ManifestEntry.path)
  let remaining := kept.filter fun entry => (caseFoldConflict collisions entry).isNone
  (remaining, entries.filterMap (pathConflict files) ++
    kept.filterMap (caseFoldConflict collisions))

/-- The error record of a project with too many files. -/
def countErrors (files : SourceFiles) (limits : StorageLimits) : List ManifestError :=
  if files.items.length > limits.maxFileCount then
    [⟨none, .tooManyFiles, py "The project has " ++ decimal files.items.length ++
      py " files, over the " ++ decimal limits.maxFileCount ++ py " file limit."⟩]
  else []

/-- The error record of a project that is too large. -/
def totalErrors (files : SourceFiles) (limits : StorageLimits) : List ManifestError :=
  let total := (files.items.map fun file => file.2.length).sum
  if total > limits.maxProjectSize then
    [⟨none, .projectTooLarge, py "The project totals " ++ decimal total ++
      py " bytes, over the " ++ decimal limits.maxProjectSize ++ py " byte limit."⟩]
  else []

/-- `sorted(files)`, each path with its content. -/
def SourceFiles.sorted (files : SourceFiles) : List (PyStr × Bytes) :=
  files.items.insertionSort fun a b => a.1 ≤ b.1

/-- `entries.sort(key=lambda entry: entry['path'])` -/
def sortByPath (entries : List ManifestEntry) : List ManifestEntry :=
  entries.insertionSort fun a b => a.path ≤ b.path

/-- `build_manifest(files, limits)`: the entries and the error records. -/
def buildManifest (files : SourceFiles) (limits : StorageLimits) :
    Except PathFailure (List ManifestEntry × List ManifestError) :=
  match files.sorted.foldlM (walkStep limits.maxFileSize) ⟨[], [], []⟩ with
  | .error failure => .error failure
  | .ok walk =>
    let (entries, conflicts) := rejectPathConflicts walk.entries
    .ok (sortByPath entries,
      walk.errors ++ conflicts ++ countErrors files limits ++ totalErrors files limits)

/-! ## Builds without errors -/

/-- The entry one file yields. -/
structure EntryOf (maxFileSize : ℕ) (file : PyStr × Bytes) (entry : ManifestEntry) : Prop where
  canonical : normalizeSourcePath file.1 = .ok entry.path
  size_eq : entry.size = file.2.length
  sha256_eq : entry.sha256 = sha256 file.2
  bounded : file.2.length ≤ maxFileSize

omit [Unicode] in
theorem buildEntry_eq_ok {canonical : PyStr} {content : Bytes} {maxFileSize : ℕ}
    {entry : ManifestEntry} (h : buildEntry canonical content maxFileSize = .ok entry) :
    content.length ≤ maxFileSize ∧ entry = ⟨canonical, content.length, sha256 content⟩ := by
  rw [buildEntry] at h
  split_ifs at h with hsize
  exact ⟨Nat.not_lt.mp hsize, (Except.ok.inj h).symm⟩

/-- A turn that leaves no errors found none before and has collected the file's entry. -/
theorem walkStep_collects {maxFileSize : ℕ} {walk walk' : Walk} {file : PyStr × Bytes}
    (h : walkStep maxFileSize walk file = .ok walk') (herrors : walk'.errors = []) :
    walk.errors = [] ∧ ∃ entry, EntryOf maxFileSize file entry ∧
      walk'.entries = walk.entries ++ [entry] := by
  unfold walkStep at h
  split at h
  · cases h; simp at herrors
  · cases h
  · next canonical hcanonical =>
    split_ifs at h
    · cases h; simp at herrors
    · split at h
      · cases h; simp at herrors
      · next entry hentry =>
        obtain ⟨hsize, rfl⟩ := buildEntry_eq_ok hentry
        cases h
        exact ⟨herrors, _, ⟨hcanonical, rfl, rfl, hsize⟩, rfl⟩

/-- The walk has seen every path it holds an entry for, and holds one entry for a path. -/
structure Walk.Distinct (walk : Walk) : Prop where
  seen : ∀ entry ∈ walk.entries, entry.path ∈ walk.seen
  nodup : (walk.entries.map ManifestEntry.path).Nodup

theorem walkStep_distinct {maxFileSize : ℕ} {walk walk' : Walk} {file : PyStr × Bytes}
    (h : walkStep maxFileSize walk file = .ok walk') (hw : walk.Distinct) : walk'.Distinct := by
  unfold walkStep at h
  split at h
  · cases h; exact ⟨hw.seen, hw.nodup⟩
  · cases h
  · next canonical hcanonical =>
    split_ifs at h with hseen
    · cases h; exact ⟨hw.seen, hw.nodup⟩
    · split at h
      · cases h; exact ⟨fun e he => List.mem_cons_of_mem _ (hw.seen e he), hw.nodup⟩
      · next entry hentry =>
        obtain ⟨-, rfl⟩ := buildEntry_eq_ok hentry
        cases h
        refine ⟨fun e he => ?_, ?_⟩
        · rcases List.mem_append.mp he with he | he
          · exact List.mem_cons_of_mem _ (hw.seen e he)
          · obtain rfl := List.mem_singleton.mp he
            exact List.mem_cons_self
        · rw [List.map_append, List.nodup_append]
          refine ⟨hw.nodup, by simp, fun path hpath other hother => ?_⟩
          obtain ⟨e, he, rfl⟩ := List.mem_map.mp hpath
          obtain rfl : other = canonical := by simpa using hother
          exact fun heq => hseen (heq ▸ hw.seen e he)

omit [Unicode] [Hashing] in
theorem caseFoldConflict_eq_none_iff {collisions : List (PyStr × (PyStr × PyStr))}
    {entry : ManifestEntry} :
    caseFoldConflict collisions entry = none ↔ ∀ c ∈ collisions, c.1 ≠ entry.path := by
  simp [caseFoldConflict]

omit [Hashing] in
/-- Every collision reported is of a path supplied. -/
theorem mem_of_mem_caseInsensitiveCollisions {paths : List PyStr}
    {collision : PyStr × (PyStr × PyStr)} (h : collision ∈ caseInsensitiveCollisions paths) :
    collision.1 ∈ paths := by
  obtain ⟨path, hpath, hc⟩ := List.mem_filterMap.mp h
  obtain ⟨pair, -, rfl⟩ := Option.map_eq_some_iff.mp hc
  exact (List.mem_insertionSort _).mp hpath

/-- The paths of one source tree: none lies below another, and no two collide on a host that
ignores letter case. -/
structure Coexist (paths : List PyStr) : Prop where
  no_file_above : ∀ path ∈ paths, blockingAncestor paths path = none
  no_collision : caseInsensitiveCollisions paths = []

omit [Hashing] in
theorem rejectPathConflicts_nil {entries remaining : List ManifestEntry}
    (h : rejectPathConflicts entries = (remaining, [])) :
    remaining = entries ∧ Coexist (entries.map ManifestEntry.path) := by
  simp only [rejectPathConflicts, Prod.mk.injEq, List.append_eq_nil_iff,
    List.filterMap_eq_nil_iff] at h
  obtain ⟨hremaining, hpath, hcase⟩ := h
  have hkept : (entries.filter fun entry =>
      (pathConflict (entries.map ManifestEntry.path) entry).isNone) = entries :=
    List.filter_eq_self.mpr fun e he => by simp [hpath e he]
  rw [hkept] at hremaining hcase
  refine ⟨?_, fun path hmem => ?_, List.eq_nil_iff_forall_not_mem.mpr fun c hc => ?_⟩
  · rw [← hremaining]
    exact List.filter_eq_self.mpr fun e he => by simp [hcase e he]
  · obtain ⟨e, he, rfl⟩ := List.mem_map.mp hmem
    simpa [pathConflict] using hpath e he
  · obtain ⟨e, he, hpath⟩ := List.mem_map.mp (mem_of_mem_caseInsensitiveCollisions hc)
    exact caseFoldConflict_eq_none_iff.mp (hcase e he) c hc hpath.symm

omit [Unicode] [Hashing] in
theorem blockingAncestor_eq_none_iff {files : List PyStr} {path : PyStr} :
    blockingAncestor files path = none ↔ ∀ ancestor ∈ ancestors path, ancestor ∉ files := by
  simp [blockingAncestor]

omit [Hashing] in
/-- Whether paths coexist does not depend on the order they are listed in. -/
theorem Coexist.perm {paths paths' : List PyStr} (h : paths.Perm paths') (hc : Coexist paths) :
    Coexist paths' := by
  refine ⟨fun path hpath => ?_, ?_⟩
  · have := blockingAncestor_eq_none_iff.mp (hc.no_file_above path (h.mem_iff.mpr hpath))
    exact blockingAncestor_eq_none_iff.mpr fun a ha hmem => this a ha (h.mem_iff.mpr hmem)
  · have hsorted : paths'.insertionSort (· ≤ ·) = paths.insertionSort (· ≤ ·) :=
      List.Perm.eq_of_sortedLE List.sortedLE_insertionSort List.sortedLE_insertionSort
        (((List.perm_insertionSort _ _).trans h.symm).trans (List.perm_insertionSort _ _).symm)
    have := hc.no_collision
    rwa [caseInsensitiveCollisions, ← hsorted] at this

/-- What a build without errors has established about its entries. -/
structure BuiltFrom (files : SourceFiles) (limits : StorageLimits)
    (entries : List ManifestEntry) : Prop where
  entryOf : ∀ entry ∈ entries, ∃ file ∈ files.items, EntryOf limits.maxFileSize file entry
  covers : ∀ file ∈ files.items, ∃ entry ∈ entries, EntryOf limits.maxFileSize file entry
  nodup : (entries.map ManifestEntry.path).Nodup
  coexist : Coexist (entries.map ManifestEntry.path)
  sorted : entries.Pairwise fun a b => a.path ≤ b.path

/-- **A build without errors** has one entry for each file, under its canonical path, and the
paths coexist. -/
theorem buildManifest_builtFrom {files : SourceFiles} {limits : StorageLimits}
    {entries : List ManifestEntry} (h : buildManifest files limits = .ok (entries, [])) :
    BuiltFrom files limits entries := by
  unfold buildManifest at h
  split at h
  · cases h
  · next walk hwalk =>
    rcases hreject : rejectPathConflicts walk.entries with ⟨remaining, conflicts⟩
    simp only [hreject, Except.ok.injEq, Prod.mk.injEq, List.append_eq_nil_iff] at h
    obtain ⟨rfl, ⟨⟨herrors, rfl⟩, -⟩, -⟩ := h
    obtain ⟨-, built, hbuilt, hentries⟩ := List.foldlM_collects
      (fun walk : Walk => walk.errors = []) Walk.entries
      (fun _ _ _ h he => walkStep_collects h he) hwalk herrors
    have hdistinct : walk.Distinct := List.foldlM_preserves
      (fun _ _ _ h hw => walkStep_distinct h hw) hwalk ⟨by simp, by simp⟩
    obtain ⟨rfl, hcoexist⟩ := rejectPathConflicts_nil hreject
    rw [List.nil_append] at hentries
    have hperm : (sortByPath walk.entries).Perm walk.entries := List.perm_insertionSort _ _
    have hfiles : ∀ file, file ∈ files.sorted ↔ file ∈ files.items :=
      fun file => List.mem_insertionSort _
    refine ⟨fun entry hentry => ?_, fun file hfile => ?_, ?_, ?_, ?_⟩
    · rw [hperm.mem_iff, hentries] at hentry
      obtain ⟨file, hfile, hof⟩ := hbuilt.exists_left hentry
      exact ⟨file, (hfiles file).mp hfile, hof⟩
    · obtain ⟨entry, hentry, hof⟩ := hbuilt.exists_right ((hfiles file).mpr hfile)
      exact ⟨entry, hperm.mem_iff.mpr (hentries ▸ hentry), hof⟩
    · exact (hperm.map _).nodup_iff.mpr hdistinct.nodup
    · exact hcoexist.perm (hperm.map _).symm
    · exact List.pairwise_insertionSort _ _

end Build

/-! ## The digest -/

/-- `entry['path']`, where it is a string. -/
def entryPath (entry : Json) : Option PyStr := (entry.get? (py "path")).bind Json.str?

/-- `compute_digest(entries)`, or `none` where an entry has no path to sort by. -/
def computeDigest [Hashing] (entries : List Json) : Option PyStr :=
  (entries.mapM fun entry => (entryPath entry).map fun path => (path, entry)).map fun keyed =>
    sha256 (encodeAscii (Json.dumps (.arr
      ((keyed.insertionSort fun a b => a.1 ≤ b.1).map Prod.snd))))

/-- The digest that addresses well-formed entries. -/
def manifestDigest [Hashing] (entries : List ManifestEntry) : PyStr :=
  sha256 (encodeAscii (Json.dumps (.arr ((sortByPath entries).map ManifestEntry.toJson))))

theorem computeDigest_toJson [Hashing] (entries : List ManifestEntry) :
    computeDigest (entries.map ManifestEntry.toJson) = some (manifestDigest entries) := by
  have hkeyed : (entries.map ManifestEntry.toJson).mapM (fun entry =>
      (entryPath entry).map fun path => (path, entry)) =
        some (entries.map fun entry => (entry.path, entry.toJson)) := by
    induction entries with
    | nil => rfl
    | cons entry entries ih =>
      have hpath : entryPath entry.toJson = some entry.path := rfl
      rw [List.map_cons, List.mapM_cons, ih, hpath]
      rfl
  have hsort : (entries.map fun entry => (entry.path, entry.toJson)).insertionSort
      (fun a b => a.1 ≤ b.1) = (sortByPath entries).map fun entry => (entry.path, entry.toJson) :=
    (List.map_insertionSort (fun a b : ManifestEntry => a.path ≤ b.path)
      (fun a b : PyStr × Json => a.1 ≤ b.1) (fun entry => (entry.path, entry.toJson)) entries
      fun _ _ _ _ => Iff.rfl).symm
  rw [computeDigest, hkeyed, Option.map_some, hsort, List.map_map]
  rfl

/-! ## Validating -/

/-- The text of a rejection code. -/
def RejectionCode.text : RejectionCode → PyStr
  | .pathTraversal => py "path_traversal"
  | .absolutePath => py "absolute_path"
  | .compiledArtifact => py "compiled_artifact"
  | .pathComponentTooLong => py "path_component_too_long"
  | .pathTooLong => py "path_too_long"
  | .pathTooDeep => py "path_too_deep"
  | .escapesRoot => py "escapes_root"
  | .duplicatePath => py "duplicate_path"
  | .fileTooLarge => py "file_too_large"
  | .pathConflict => py "path_conflict"
  | .caseFoldConflict => py "case_fold_conflict"
  | .tooManyFiles => py "too_many_files"
  | .projectTooLarge => py "project_too_large"

/-- Why a persisted manifest cannot be trusted. -/
inductive CorruptReason
  | manifestNotAList
  | malformedEntry (index : ℕ)
  | missingFields (index : ℕ) (fields : List PyStr)
  | malformedPath (index : ℕ)
  | rejected (code : RejectionCode) (path : PyStr)
  | nonCanonicalPath (path : PyStr)
  | duplicatePath (path : PyStr)
  | malformedSize (path : PyStr)
  | malformedChecksum (path : PyStr)
  | pathConflict (path : PyStr)
  | caseFoldConflict (path : PyStr)
  | digestMismatch
  deriving DecidableEq, Repr

/-- The text of a reason. -/
def CorruptReason.text : CorruptReason → PyStr
  | .manifestNotAList => py "manifest_not_a_list"
  | .malformedEntry index => py "malformed_entry:" ++ decimal index
  | .missingFields index fields =>
    py "missing_fields:" ++ decimal index ++ py ":" ++ Json.commaJoin fields
  | .malformedPath index => py "malformed_path:" ++ decimal index
  | .rejected code path => code.text ++ py ":" ++ path
  | .nonCanonicalPath path => py "non_canonical_path:" ++ path
  | .duplicatePath path => py "duplicate_path:" ++ path
  | .malformedSize path => py "malformed_size:" ++ path
  | .malformedChecksum path => py "malformed_checksum:" ++ path
  | .pathConflict path => py "path_conflict:" ++ path
  | .caseFoldConflict path => py "case_fold_conflict:" ++ path
  | .digestMismatch => py "digest_mismatch"

/-- How `validate_manifest` raises. -/
inductive ManifestFailure
  | revisionCorrupt (message : PyStr) (reasons : List CorruptReason)
  | unicodeEncodeError
  deriving DecidableEq, Repr

section Validate

variable [Unicode] [Hashing]

/-- `isinstance(size, bool) or not isinstance(size, int) or size < 0`, negated. -/
def isPlausibleSize (size : Json) : Bool := size.int?.any fun n => 0 ≤ n

/-- `isinstance(checksum, str) and _SHA256.fullmatch(checksum)` -/
def isChecksum (checksum : Json) : Bool := checksum.str?.any isHexDigest

/-- `_validate_entry(index, entry, paths)`: the reasons, and the paths with the one this entry
claims. -/
def validateEntry (index : ℕ) (entry : Json) (paths : List PyStr) :
    Except ManifestFailure (List CorruptReason × List PyStr) :=
  match entry with
  | .obj fields =>
    let missing := [py "path", py "size", py "sha256"].filter fun field =>
      field ∉ fields.map Prod.fst
    match entry.get? (py "path"), entry.get? (py "size"), entry.get? (py "sha256") with
    | some path, some size, some checksum =>
      match path.str? with
      | none => .ok ([.malformedPath index], paths)
      | some path =>
        match normalizeSourcePath path with
        | .error (.unsafePath error) => .ok ([.rejected error.code path], paths)
        | .error .unicodeEncodeError => .error .unicodeEncodeError
        | .ok canonical =>
          if canonical ≠ path then .ok ([.nonCanonicalPath path], paths)
          else .ok ((if path ∈ paths then [.duplicatePath path] else []) ++
            (if isPlausibleSize size then [] else [.malformedSize path]) ++
            (if isChecksum checksum then [] else [.malformedChecksum path]), paths.insert path)
    | _, _, _ => .ok ([.missingFields index missing], paths)
  | _ => .ok ([.malformedEntry index], paths)

/-- The loop over the enumerated entries. -/
def validateEntries : ℕ → List Json → List PyStr →
    Except ManifestFailure (List CorruptReason × List PyStr)
  | _, [], paths => .ok ([], paths)
  | index, entry :: entries, paths => do
    let (reasons, paths) ← validateEntry index entry paths
    let (rest, paths) ← validateEntries (index + 1) entries paths
    return (reasons ++ rest, paths)

/-- `_conflicting_paths(paths)` -/
def conflictingPaths (paths : List PyStr) : List CorruptReason :=
  ((paths.insertionSort (· ≤ ·)).filter fun path => (blockingAncestor paths path).isSome).map
      CorruptReason.pathConflict ++
    (((caseInsensitiveCollisions paths).map Prod.fst).insertionSort (· ≤ ·)).map
      CorruptReason.caseFoldConflict

/-- `validate_manifest(manifest, digest)`; `none` is a call without a digest. -/
def validateManifest (manifest : Json) (digest : Option PyStr) : Except ManifestFailure Unit :=
  match manifest with
  | .arr entries => do
    let (reasons, paths) ← validateEntries 0 entries []
    let reasons := reasons ++ conflictingPaths paths
    let mismatch := digest.any fun digest => computeDigest entries ≠ some digest
    let reasons := if reasons = [] ∧ mismatch then [.digestMismatch] else reasons
    if reasons = [] then return ()
    else throw (.revisionCorrupt (py "The stored manifest cannot be trusted.") reasons)
  | _ => throw (.revisionCorrupt (py "The stored manifest is not a list.") [.manifestNotAList])

/-! ## Accepted manifests -/

/-- An entry the validator takes: under a canonical path, with a plausible checksum. -/
structure Acceptable (entry : ManifestEntry) : Prop where
  canonical : normalizeSourcePath entry.path = .ok entry.path
  checksum : isHexDigest entry.sha256

omit [Hashing] in
theorem validateEntry_toJson_iff {index : ℕ} {entry : ManifestEntry} {paths paths' : List PyStr} :
    validateEntry index entry.toJson paths = .ok ([], paths') ↔
      Acceptable entry ∧ entry.path ∉ paths ∧ paths' = entry.path :: paths := by
  have hsize : isPlausibleSize (.int entry.size) = true := by simp [isPlausibleSize, Json.int?]
  have hchecksum : isChecksum (.str entry.sha256) = isHexDigest entry.sha256 := by
    simp [isChecksum, Json.str?]
  have hget := entry.get?_path_toJson
  have hget' := entry.get?_size_toJson
  have hget'' := entry.get?_sha256_toJson
  rw [ManifestEntry.toJson] at hget hget' hget'' ⊢
  simp only [validateEntry, hget, hget', hget'', Json.str?, hsize, hchecksum]
  constructor
  · intro h
    split at h
    · cases h
    · cases h
    · next canonical hcanonical =>
      rcases eq_or_ne canonical entry.path with rfl | hne
      · simp only [ne_eq, not_true_eq_false, if_false, Except.ok.injEq, Prod.mk.injEq,
          List.append_eq_nil_iff] at h
        obtain ⟨⟨⟨hduplicate, -⟩, hchecksum⟩, rfl⟩ := h
        have hmem : entry.path ∉ paths := by simpa using hduplicate
        exact ⟨⟨hcanonical, by simpa using hchecksum⟩, hmem, by simp [hmem]⟩
      · simp [hne] at h
  · rintro ⟨⟨hcanonical, hhex⟩, hmem, rfl⟩
    simp [hcanonical, hhex, hmem]

omit [Hashing] in
theorem validateEntries_toJson_iff {index : ℕ} {entries : List ManifestEntry}
    {paths paths' : List PyStr} (hpaths : paths.Nodup) :
    validateEntries index (entries.map ManifestEntry.toJson) paths = .ok ([], paths') ↔
      (∀ entry ∈ entries, Acceptable entry) ∧
        ((entries.map ManifestEntry.path).reverse ++ paths).Nodup ∧
        paths' = (entries.map ManifestEntry.path).reverse ++ paths := by
  induction entries generalizing index paths with
  | nil => simp [validateEntries, hpaths, eq_comm]
  | cons entry entries ih =>
    rw [List.map_cons, validateEntries, Except.bind_eq_ok_iff]
    constructor
    · rintro ⟨⟨reasons, paths₁⟩, h₁, h⟩
      obtain ⟨⟨rest, paths₂⟩, h₂, h⟩ := Except.bind_eq_ok_iff.mp h
      simp only [pure, Except.pure, Except.ok.injEq, Prod.mk.injEq, List.append_eq_nil_iff] at h
      obtain ⟨⟨rfl, rfl⟩, rfl⟩ := h
      obtain ⟨hacceptable, hmem, rfl⟩ := validateEntry_toJson_iff.mp h₁
      obtain ⟨hrest, hnodup, rfl⟩ := (ih (List.nodup_cons.mpr ⟨hmem, hpaths⟩)).mp h₂
      exact ⟨List.forall_mem_cons.mpr ⟨hacceptable, hrest⟩, by simpa using hnodup, by simp⟩
    · rintro ⟨hall, hnodup, hpaths'⟩
      subst hpaths'
      obtain ⟨hacceptable, hrest⟩ := List.forall_mem_cons.mp hall
      rw [List.map_cons, List.reverse_cons, List.append_assoc, List.singleton_append] at hnodup
      have hcons : (entry.path :: paths).Nodup := (List.nodup_append.mp hnodup).2.1
      refine ⟨([], entry.path :: paths), validateEntry_toJson_iff.mpr
        ⟨hacceptable, (List.nodup_cons.mp hcons).1, rfl⟩, ?_⟩
      exact Except.bind_eq_ok_iff.mpr ⟨_, (ih hcons).mpr ⟨hrest, hnodup, by simp⟩,
        by simp [pure, Except.pure]⟩

omit [Hashing] in
theorem conflictingPaths_eq_nil_iff {paths : List PyStr} :
    conflictingPaths paths = [] ↔ Coexist paths := by
  have hperm := List.perm_insertionSort (· ≤ ·) ((caseInsensitiveCollisions paths).map Prod.fst)
  rw [conflictingPaths, List.append_eq_nil_iff, List.map_eq_nil_iff, List.map_eq_nil_iff,
    List.filter_eq_nil_iff, List.perm_nil.symm.trans (List.Perm.congr_left hperm [])]
  simp only [List.mem_insertionSort, Option.isSome_iff_ne_none, not_not,
    List.perm_nil, List.map_eq_nil_iff]
  exact ⟨fun ⟨h₁, h₂⟩ => ⟨h₁, h₂⟩, fun h => ⟨h.no_file_above, h.no_collision⟩⟩

/-- What the validator requires of well-formed entries. -/
structure Trusted (entries : List ManifestEntry) : Prop where
  acceptable : ∀ entry ∈ entries, Acceptable entry
  nodup : (entries.map ManifestEntry.path).Nodup
  coexist : Coexist (entries.map ManifestEntry.path)

omit [Hashing] in
/-- What an accepted manifest requires is required of its reorderings. -/
theorem Trusted.perm {a b : List ManifestEntry} (h : Trusted a) (hperm : a.Perm b) :
    Trusted b := by
  constructor
  · exact fun entry hentry => h.acceptable entry (hperm.mem_iff.mpr hentry)
  · exact (hperm.map _).nodup_iff.mp h.nodup
  · exact h.coexist.perm (hperm.map _)

/-- **The validator** accepts entries with their digest exactly when each is acceptable and their
paths are distinct and coexist. -/
theorem validateManifest_toJson_iff (entries : List ManifestEntry) :
    validateManifest (.arr (entries.map ManifestEntry.toJson)) (some (manifestDigest entries)) =
      .ok () ↔ Trusted entries := by
  have hperm := List.reverse_perm (entries.map ManifestEntry.path)
  rw [validateManifest, Except.bind_eq_ok_iff]
  simp only [Option.any_some, computeDigest_toJson, ne_eq, not_true_eq_false, decide_false,
    Bool.false_eq_true, and_false, if_false]
  constructor
  · rintro ⟨⟨reasons, paths⟩, hentries, h⟩
    split_ifs at h with hreasons
    · obtain ⟨rfl, hconflicts⟩ := List.append_eq_nil_iff.mp hreasons
      obtain ⟨hacceptable, hnodup, rfl⟩ := (validateEntries_toJson_iff List.nodup_nil).mp hentries
      rw [List.append_nil] at hnodup hconflicts
      exact ⟨hacceptable, hperm.nodup_iff.mp hnodup,
        (conflictingPaths_eq_nil_iff.mp hconflicts).perm hperm⟩
  · rintro ⟨hacceptable, hnodup, hcoexist⟩
    refine ⟨([], _), (validateEntries_toJson_iff List.nodup_nil).mpr
      ⟨hacceptable, by simpa using hperm.nodup_iff.mpr hnodup, rfl⟩, ?_⟩
    have hconflicts := conflictingPaths_eq_nil_iff.mpr (hcoexist.perm hperm.symm)
    rw [List.append_nil, List.nil_append, if_pos hconflicts]
    rfl

/-- An accepted list has the digest it was checked against. -/
theorem validateManifest_toJson_ok {entries : List ManifestEntry} {digest : PyStr}
    (h : validateManifest (.arr (entries.map ManifestEntry.toJson)) (some digest) = .ok ()) :
    digest = manifestDigest entries ∧ Trusted entries := by
  have hdigest : digest = manifestDigest entries := by
    rw [validateManifest, Except.bind_eq_ok_iff] at h
    obtain ⟨⟨reasons, paths⟩, -, h⟩ := h
    by_contra hne
    have hmismatch : (computeDigest (entries.map ManifestEntry.toJson) = some digest) = False := by
      rw [computeDigest_toJson, Option.some_inj, eq_iff_iff, iff_false]
      exact Ne.symm hne
    simp only [Option.any_some, ne_eq, hmismatch, not_false_eq_true, decide_true, and_true] at h
    split_ifs at h with hreasons hnone
    cases hnone
  subst hdigest
  exact ⟨rfl, (validateManifest_toJson_iff entries).mp h⟩

/-! ## What the builder produced -/

/-- A canonical path comes from a stable spelling exactly when its entry is acceptable. -/
theorem EntryOf.acceptable_iff {maxFileSize : ℕ} {file : PyStr × Bytes} {entry : ManifestEntry}
    (h : EntryOf maxFileSize file entry) (hhex : isHexDigest (sha256 file.2)) :
    Acceptable entry ↔ StableSpelling file.1 := by
  rw [← normalizeSourcePath_canonical_iff h.canonical]
  exact ⟨Acceptable.canonical, fun hc => ⟨hc, h.sha256_eq ▸ hhex⟩⟩

/-- **The validator accepts what the builder produced** exactly when every source path is a
stable spelling; a canonical path is a fixed point of the path policy exactly then. -/
theorem validateManifest_buildManifest_iff (hhex : ∀ content, isHexDigest (sha256 content)) :
    (∀ path canonical, normalizeSourcePath path = .ok canonical →
      (normalizeSourcePath canonical = .ok canonical ↔ StableSpelling path)) ∧
    ∀ files limits entries, buildManifest files limits = .ok (entries, []) →
      ∃ digest, computeDigest (entries.map ManifestEntry.toJson) = some digest ∧
        (validateManifest (.arr (entries.map ManifestEntry.toJson)) (some digest) = .ok () ↔
          ∀ file ∈ files.items, StableSpelling file.1) := by
  refine ⟨fun _ _ => normalizeSourcePath_canonical_iff, fun files limits entries h =>
    ⟨manifestDigest entries, computeDigest_toJson entries, ?_⟩⟩
  have hbuilt := buildManifest_builtFrom h
  rw [validateManifest_toJson_iff]
  constructor
  · intro htrusted file hfile
    obtain ⟨entry, hentry, hof⟩ := hbuilt.covers file hfile
    exact (hof.acceptable_iff (hhex file.2)).mp (htrusted.acceptable entry hentry)
  · intro hstable
    refine ⟨fun entry hentry => ?_, hbuilt.nodup, hbuilt.coexist⟩
    obtain ⟨file, hfile, hof⟩ := hbuilt.entryOf entry hentry
    exact (hof.acceptable_iff (hhex file.2)).mpr (hstable file hfile)

end Validate

/-! ## A leading blank behind a dropped segment -/

/-- The hash of listed contents, and 64 zeros for any other. -/
@[reducible] def tableHashing (table : List (Bytes × PyStr)) : Hashing where
  sha256 content := ((table.find? fun row => row.1 = content).map Prod.snd).getD
    (List.replicate 64 48)

theorem isHexDigest_tableHashing {table : List (Bytes × PyStr)}
    (h : ∀ row ∈ table, isHexDigest row.2) (content : Bytes) :
    isHexDigest ((tableHashing table).sha256 content) := by
  change isHexDigest (((table.find? fun row => row.1 = content).map Prod.snd).getD _)
  cases hfind : table.find? fun row => row.1 = content with
  | none => decide
  | some row => exact h row (List.mem_of_find?_eq_some hfind)

/-- The hash of the content `x`. -/
def hashOfX : String := "2d711642b726b04401627ca9fbac32f5c8530fb1903cc4db02258717921a4881"

/-- The hash of the content `x`, and of the manifests that list it as `a.py` and as ` a.py`. -/
def exampleTable : List (Bytes × PyStr) :=
  [([120], py hashOfX),
    (encodeAscii (py ("[\x7b\"path\":\"a.py\",\"sha256\":\"" ++ hashOfX ++ "\",\"size\":1\x7d]")),
      py "4b60693728c5583063854db9944e454be43d0198fc30a7f614b3afdd58adaf26"),
    (encodeAscii (py ("[\x7b\"path\":\" a.py\",\"sha256\":\"" ++ hashOfX ++ "\",\"size\":1\x7d]")),
      py "a54d41db12e76b7dbbac45ddab440a67b4b617485b51ddc7ea51761cf94cceb5")]

/-- One file with the content `x`. -/
def oneFile (path : PyStr) : SourceFiles := ⟨[(path, [120])], by simp⟩

/-- The entry of a file with the content `x`. -/
def oneEntry (path : PyStr) : ManifestEntry := ⟨path, 1, py hashOfX⟩

theorem exampleTable_hex : ∀ row ∈ exampleTable, isHexDigest row.2 := by decide

theorem stableSpelling_a_py : @StableSpelling asciiUnicode (py "a.py") :=
  @StableSpelling.mk asciiUnicode _ (by decide) (by decide) (by decide)

/-- The validator accepts the manifest of `a.py`. -/
theorem validateManifest_buildManifest_a_py :
    ∃ digest, @computeDigest (tableHashing exampleTable) [(oneEntry (py "a.py")).toJson] =
        some digest ∧
      @validateManifest asciiUnicode (tableHashing exampleTable)
        (.arr [(oneEntry (py "a.py")).toJson]) (some digest) = .ok () := by
  obtain ⟨digest, hdigest, hiff⟩ := (@validateManifest_buildManifest_iff asciiUnicode
    (tableHashing exampleTable) (isHexDigest_tableHashing exampleTable_hex)).2
    (oneFile (py "a.py")) ⟨10, 10, 10⟩ [oneEntry (py "a.py")] (by decide)
  exact ⟨digest, hdigest, hiff.mpr (List.forall_mem_singleton.mpr stableSpelling_a_py)⟩

/-- The builder takes `./ a.py` without an error, and the validator refuses the ` a.py` that it
made of it. -/
theorem validateManifest_refuses_dot_slash_blank :
    (∀ content, isHexDigest ((tableHashing exampleTable).sha256 content)) ∧
      @normalizeSourcePath asciiUnicode (py "./ a.py") = .ok (py " a.py") ∧
      @normalizeSourcePath asciiUnicode (py " a.py") ≠ .ok (py " a.py") ∧
      @buildManifest asciiUnicode (tableHashing exampleTable) (oneFile (py "./ a.py"))
        ⟨10, 10, 10⟩ = .ok ([oneEntry (py " a.py")], []) ∧
      ∃ digest, @computeDigest (tableHashing exampleTable) [(oneEntry (py " a.py")).toJson] =
          some digest ∧
        @validateManifest asciiUnicode (tableHashing exampleTable)
          (.arr [(oneEntry (py " a.py")).toJson]) (some digest) =
            .error (.revisionCorrupt (py "The stored manifest cannot be trusted.")
              [.rejected .pathTraversal (py " a.py")]) :=
  ⟨isHexDigest_tableHashing exampleTable_hex, by decide, by decide, by decide, _,
    @computeDigest_toJson (tableHashing exampleTable) [oneEntry (py " a.py")], by decide⟩

end NetBoxScripts
