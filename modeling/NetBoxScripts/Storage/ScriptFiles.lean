import NetBoxScripts.Models.Rows

/-!
# Script file snapshots

`storage/script_files.py`: the enabled declarations of a project are frozen into a sorted list
with a digest, and a stored list is checked before it decides what is imported.

## Main definitions

* `sourcePathToDottedName`: the module a path imports as (`utils.py`)
* `buildScriptFileSnapshot`: the snapshot of declarations and its digest
* `validateScriptFileSnapshot`: the check of a stored snapshot

## Main results

* `validateScriptFileSnapshot_sound`: an accepted snapshot names each file once, under a positive
  key and an importable path
-/

namespace NetBoxScripts

/-! ## Module names -/

/-- `ValidationError` of one path: its code and message. -/
structure PathNameError where
  code : PyStr
  message : PyStr
  deriving DecidableEq, Repr

/-- `keyword.kwlist` -/
def pythonKeywords : List PyStr :=
  [py "False", py "None", py "True", py "and", py "as", py "assert", py "async", py "await",
    py "break", py "class", py "continue", py "def", py "del", py "elif", py "else", py "except",
    py "finally", py "for", py "from", py "global", py "if", py "import", py "in", py "is",
    py "lambda", py "nonlocal", py "not", py "or", py "pass", py "raise", py "return", py "try",
    py "while", py "with", py "yield"]

section Names

variable [Unicode]

/-- Why one segment cannot be part of a module name. -/
def segmentError (segment : PyStr) : Option PathNameError :=
  if isIdentifier segment = false then
    some ⟨py "invalid_identifier", py "\"" ++ segment ++
      py "\" is not a valid Python identifier, so this path cannot be imported."⟩
  else if segment ∈ pythonKeywords then
    some ⟨py "reserved_keyword", py "\"" ++ segment ++
      py "\" is a reserved Python keyword, so this path cannot be imported."⟩
  else none

/-- `source_path_to_dotted_name(path)` -/
def sourcePathToDottedName (path : PyStr) : Except PathNameError PyStr :=
  if (py ".py").isSuffixOf path = false then
    .error ⟨py "not_a_python_file",
      py "A script file must be a Python module file ending in \".py\"."⟩
  else
    let segments := split (path.take (path.length - 3))
    let isPackage := segments.getLast? = some (py "__init__")
    let segments := if isPackage then segments.dropLast else segments
    if isPackage ∧ segments = [] then
      .error ⟨py "root_script_file",
        py "The root \"__init__.py\" names the project package itself, not a script file."⟩
    else
      match segments.findSome? segmentError with
      | some error => .error error
      | none => .ok ([46].intercalate segments)

end Names

/-! ## Building -/

/-- The entry as it is persisted. -/
def SnapshotEntry.toJson (entry : SnapshotEntry) : Json :=
  .obj [(py "script_file", .int entry.scriptFile), (py "source_path", .str entry.sourcePath)]

/-- `compute_script_file_digest(snapshot)` -/
def computeScriptFileDigest [Hashing] (snapshot : List Json) : PyStr :=
  sha256 (encodeAscii (Json.dumps (.arr snapshot)))

/-- The digest of well-formed entries. -/
def snapshotDigest [Hashing] (snapshot : List SnapshotEntry) : PyStr :=
  computeScriptFileDigest (snapshot.map SnapshotEntry.toJson)

/-- `build_script_file_snapshot(script_files)`: the sorted snapshot. Its digest is
`snapshotDigest`. -/
def buildScriptFileSnapshot (scriptFiles : List (Id × ScriptFileRow)) : List SnapshotEntry :=
  (scriptFiles.map fun file => ⟨file.1, file.2.sourcePath⟩).insertionSort
    fun a b => a.sourcePath ≤ b.sourcePath

/-! ## Validating -/

/-- Why a persisted snapshot cannot be trusted. -/
inductive SnapshotReason
  | snapshotNotAList
  | malformedEntry (index : ℕ)
  | missingFields (index : ℕ) (fields : List PyStr)
  | unexpectedFields (index : ℕ) (fields : List PyStr)
  | malformedScriptFileId (index : ℕ)
  | duplicateScriptFile (id : ℤ)
  | malformedPath (index : ℕ)
  | rejected (code : RejectionCode) (path : PyStr)
  | nonCanonicalPath (path : PyStr)
  | unimportablePath (path : PyStr)
  | duplicatePath (path : PyStr)
  | unsortedEntry (path : PyStr)
  | caseFoldConflict (path : PyStr)
  | duplicateModuleName (path : PyStr)
  | digestMismatch
  deriving DecidableEq, Repr

/-- How `validate_script_file_snapshot` raises. -/
inductive SnapshotFailure
  | revisionCorrupt (message : PyStr) (reasons : List SnapshotReason)
  | unicodeEncodeError
  deriving DecidableEq, Repr

/-- What the entries seen so far claim: their keys, their paths, and the paths that import
under one name. -/
structure Claims where
  scriptFileIds : List ℤ
  paths : List PyStr
  claimantsByName : List (PyStr × PyStr)
  previousPath : Option PyStr
  deriving DecidableEq

section Validate

variable [Unicode] [Hashing]

/-- The checks of an entry's key. -/
def claimScriptFile (index : ℕ) (scriptFile : Json) (claims : Claims) :
    List SnapshotReason × Claims :=
  match scriptFile.int? with
  | some id =>
    if id < 1 then ([.malformedScriptFileId index], claims)
    else (if id ∈ claims.scriptFileIds then [.duplicateScriptFile id] else [],
      { claims with scriptFileIds := claims.scriptFileIds.insert id })
  | none => ([.malformedScriptFileId index], claims)

/-- The checks of an entry's path. -/
def claimPath (index : ℕ) (sourcePath : Json) (claims : Claims) :
    Except SnapshotFailure (List SnapshotReason × Claims) :=
  match sourcePath.str? with
  | none => .ok ([.malformedPath index], claims)
  | some path =>
    match normalizeSourcePath path with
    | .error (.unsafePath error) => .ok ([.rejected error.code path], claims)
    | .error .unicodeEncodeError => .error .unicodeEncodeError
    | .ok canonical =>
      if canonical ≠ path then .ok ([.nonCanonicalPath path], claims)
      else
        let duplicate := if path ∈ claims.paths then [.duplicatePath path] else []
        let claims := { claims with paths := claims.paths.insert path }
        match sourcePathToDottedName path with
        | .error _ => .ok (.unimportablePath path :: duplicate, claims)
        | .ok dotted => .ok (duplicate,
            { claims with claimantsByName := claims.claimantsByName.insert (dotted, path) })

/-- `_validate_entry(index, entry, ...)`, with the check of the order that follows it. -/
def validateSnapshotEntry (index : ℕ) (entry : Json) (claims : Claims) :
    Except SnapshotFailure (List SnapshotReason × Claims) :=
  match entry with
  | .obj fields =>
    let keys := fields.map Prod.fst
    match entry.get? (py "script_file"), entry.get? (py "source_path") with
    | some scriptFile, some sourcePath =>
      let unexpected := (keys.filter fun key => key ≠ py "script_file" ∧ key ≠ py "source_path")
      if unexpected ≠ [] then
        .ok ([.unexpectedFields index (unexpected.insertionSort (· ≤ ·))], claims)
      else
        let (idReasons, claims) := claimScriptFile index scriptFile claims
        match claimPath index sourcePath claims with
        | .error failure => .error failure
        | .ok (pathReasons, claims) =>
          if idReasons ++ pathReasons ≠ [] then .ok (idReasons ++ pathReasons, claims)
          else
            let path := sourcePath.str?.getD []
            .ok (if claims.previousPath.any (path < ·) then [.unsortedEntry path] else [],
              { claims with previousPath := some path })
    | _, _ => .ok ([.missingFields index ([py "script_file", py "source_path"].filter (· ∉ keys))],
        claims)
  | _ => .ok ([.malformedEntry index], claims)

/-- The loop over the enumerated entries. -/
def validateSnapshotEntries : ℕ → List Json → Claims →
    Except SnapshotFailure (List SnapshotReason × Claims)
  | _, [], claims => .ok ([], claims)
  | index, entry :: entries, claims => do
    let (reasons, claims) ← validateSnapshotEntry index entry claims
    let (rest, claims) ← validateSnapshotEntries (index + 1) entries claims
    return (reasons ++ rest, claims)

/-- The reasons for names that more than one path claims. -/
def duplicateModuleNames (claimants : List (PyStr × PyStr)) : List SnapshotReason :=
  let names := ((claimants.map Prod.fst).dedup).insertionSort (· ≤ ·)
  names.flatMap fun name =>
    let paths := (claimants.filter fun claimant => claimant.1 = name).map Prod.snd
    if paths.length > 1 then (paths.insertionSort (· ≤ ·)).map SnapshotReason.duplicateModuleName
    else []

/-- `validate_script_file_snapshot(snapshot, script_file_digest)` -/
def validateScriptFileSnapshot (snapshot : Json) (scriptFileDigest : PyStr) :
    Except SnapshotFailure Unit :=
  match snapshot with
  | .arr entries => do
    let (reasons, claims) ← validateSnapshotEntries 0 entries ⟨[], [], [], none⟩
    let reasons := reasons ++
      (((caseInsensitiveCollisions claims.paths).map Prod.fst).insertionSort (· ≤ ·)).map
        SnapshotReason.caseFoldConflict ++
      duplicateModuleNames claims.claimantsByName
    let reasons := if reasons = [] ∧ computeScriptFileDigest entries ≠ scriptFileDigest then
      [.digestMismatch] else reasons
    if reasons = [] then return ()
    else throw (.revisionCorrupt (py "The stored script file snapshot cannot be trusted.") reasons)
  | _ => throw (.revisionCorrupt (py "The stored script file snapshot is not a list.")
      [.snapshotNotAList])

/-! ## Accepted snapshots -/

/-- What an accepted entry has passed, against the claims before it. -/
structure SoundEntry (entry : SnapshotEntry) (claims claims' : Claims) : Prop where
  file_pos : 0 < entry.scriptFile
  importable : ∃ dotted, sourcePathToDottedName entry.sourcePath = .ok dotted
  fresh : entry.sourcePath ∉ claims.paths
  claimed : claims'.paths = entry.sourcePath :: claims.paths

omit [Unicode] [Hashing] in
theorem claimScriptFile_nil {index : ℕ} {id : Id} {claims : Claims}
    (h : (claimScriptFile index (.int id) claims).1 = []) :
    0 < id ∧ (claimScriptFile index (.int id) claims).2.paths = claims.paths := by
  simp only [claimScriptFile, Json.int?] at h ⊢
  by_cases hid : (id : ℤ) < 1
  · simp [hid] at h
  · rw [if_neg hid]
    exact ⟨Int.natCast_pos.mp (by omega), rfl⟩

omit [Hashing] in
theorem claimPath_nil {index : ℕ} {path : PyStr} {claims claims' : Claims}
    (h : claimPath index (.str path) claims = .ok ([], claims')) :
    (∃ dotted, sourcePathToDottedName path = .ok dotted) ∧ path ∉ claims.paths ∧
      claims'.paths = path :: claims.paths := by
  simp only [claimPath, Json.str?] at h
  split at h
  · cases h
  · cases h
  · split_ifs at h with hcanonical hmem
    · cases h
    · split at h
      · cases h
      · next dotted hdotted => cases h
    · split at h
      · cases h
      · next dotted hdotted =>
        obtain rfl : _ = claims' := (Prod.mk.inj (Except.ok.inj h)).2
        exact ⟨⟨dotted, hdotted⟩, hmem, List.insert_of_not_mem hmem⟩

omit [Hashing] in
theorem validateSnapshotEntry_nil {index : ℕ} {entry : SnapshotEntry} {claims claims' : Claims}
    (h : validateSnapshotEntry index entry.toJson claims = .ok ([], claims')) :
    SoundEntry entry claims claims' := by
  have hkeys : [py "script_file", py "source_path"].filter (fun key =>
      key ≠ py "script_file" ∧ key ≠ py "source_path") = [] := by decide
  have hfile : entry.toJson.get? (py "script_file") = some (.int entry.scriptFile) := rfl
  have hpath : entry.toJson.get? (py "source_path") = some (.str entry.sourcePath) := rfl
  rw [SnapshotEntry.toJson] at h hfile hpath
  simp only [validateSnapshotEntry, hfile, hpath, List.map_cons, List.map_nil, hkeys, ne_eq,
    not_true_eq_false, if_false] at h
  split at h
  · cases h
  · next pathReasons claims₂ hclaim =>
    split at h
    · next hreasons => exact absurd (Prod.mk.inj (Except.ok.inj h)).1 hreasons
    · next hreasons =>
      obtain ⟨hid, rfl⟩ := List.append_eq_nil_iff.mp (not_not.mp hreasons)
      obtain ⟨hpos, hpaths⟩ := claimScriptFile_nil hid
      obtain ⟨hdotted, hfresh, hclaimed⟩ := claimPath_nil hclaim
      obtain rfl : _ = claims' := (Prod.mk.inj (Except.ok.inj h)).2
      rw [hpaths] at hfresh hclaimed
      exact ⟨hpos, hdotted, hfresh, hclaimed⟩

omit [Hashing] in
theorem validateSnapshotEntries_nil {index : ℕ} {entries : List SnapshotEntry}
    {claims claims' : Claims}
    (h : validateSnapshotEntries index (entries.map SnapshotEntry.toJson) claims =
      .ok ([], claims')) :
    (∀ entry ∈ entries, 0 < entry.scriptFile ∧
        ∃ dotted, sourcePathToDottedName entry.sourcePath = .ok dotted) ∧
      (entries.map SnapshotEntry.sourcePath).Nodup ∧
      ∀ entry ∈ entries, entry.sourcePath ∉ claims.paths := by
  induction entries generalizing index claims with
  | nil => simp
  | cons entry entries ih =>
    rw [List.map_cons, validateSnapshotEntries, Except.bind_eq_ok_iff] at h
    obtain ⟨⟨reasons, claims₁⟩, h₁, h⟩ := h
    obtain ⟨⟨rest, claims₂⟩, h₂, h⟩ := Except.bind_eq_ok_iff.mp h
    obtain ⟨hnil, rfl⟩ := Prod.mk.inj (Except.ok.inj h)
    obtain ⟨rfl, rfl⟩ := List.append_eq_nil_iff.mp hnil
    obtain ⟨hpos, hdotted, hfresh, hclaimed⟩ := validateSnapshotEntry_nil h₁
    obtain ⟨hall, hnodup, hnew⟩ := ih h₂
    rw [hclaimed] at hnew
    refine ⟨List.forall_mem_cons.mpr ⟨⟨hpos, hdotted⟩, hall⟩, ?_, ?_⟩
    · rw [List.map_cons, List.nodup_cons]
      refine ⟨fun hmem => ?_, hnodup⟩
      obtain ⟨e, he, heq⟩ := List.mem_map.mp hmem
      exact hnew e he (heq ▸ List.mem_cons_self)
    · exact List.forall_mem_cons.mpr
        ⟨hfresh, fun e he hmem => hnew e he (List.mem_cons_of_mem _ hmem)⟩

/-- **An accepted snapshot** names each path once, and each under a positive key and a module
name; its digest is the one it was checked against. -/
theorem validateScriptFileSnapshot_sound {snapshot : List SnapshotEntry} {digest : PyStr}
    (h : validateScriptFileSnapshot (.arr (snapshot.map SnapshotEntry.toJson)) digest = .ok ()) :
    (∀ entry ∈ snapshot, 0 < entry.scriptFile ∧
        ∃ dotted, sourcePathToDottedName entry.sourcePath = .ok dotted) ∧
      (snapshot.map SnapshotEntry.sourcePath).Nodup ∧ snapshotDigest snapshot = digest := by
  rw [validateScriptFileSnapshot, Except.bind_eq_ok_iff] at h
  obtain ⟨⟨reasons, claims⟩, hentries, h⟩ := h
  dsimp only at h
  split_ifs at h with hdigest hreasons hreasons
  · exact hreasons.elim
  · rw [List.append_eq_nil_iff, List.append_eq_nil_iff] at hreasons
    obtain ⟨⟨rfl, hcollisions⟩, hnames⟩ := hreasons
    obtain ⟨hall, hnodup, -⟩ := validateSnapshotEntries_nil hentries
    refine ⟨hall, hnodup, ?_⟩
    by_contra hne
    exact hdigest ⟨by simp [hcollisions, hnames], hne⟩

end Validate

end NetBoxScripts
