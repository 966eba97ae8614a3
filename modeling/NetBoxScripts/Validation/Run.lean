import NetBoxScripts.Python.Ordered
import NetBoxScripts.Runtime.Introspection
import NetBoxScripts.Storage.Layout
import NetBoxScripts.Storage.ScriptFiles

/-!
# The validation run

What `validate_revision` works out between its claim and the statement that ends it
(`validation.py`): the snapshot's files are imported one after another, each failure that is the
content's fault is recorded, each class published is described once, and the fold of the files
is settled as a verdict. What the files do is an input: every import and every class may raise.

## Main definitions

* `buildErrorSanitizer`: the replacements that keep runtime identities out of stored text
* `ValidationEnv`: what the storage, the cache and the project's code do during one run
* `runFiles`: the loop over the snapshot's files
* `examineRevision`: how one run ends
* `CleanRun`: every file imports and every class is describable under an identity of its own

## Main results

* `runFiles_clean_iff`: a run records no failure exactly when it is clean
* `Accumulated`: what a run without failures has recorded
-/

namespace NetBoxScripts

/-! ## Sanitizing -/

/-- `PRIVATE_ROOT` -/
def privateRoot : PyStr := py "_netbox_scripts_runtime"

/-- `project_module_name(storage_key)` -/
def projectModuleName (key : StorageKey) : PyStr := privateRoot ++ py ".p_" ++ uuidHex key

/-- `revision_module_name(storage_key, digest)` -/
def revisionModuleName (key : StorageKey) (digest : PyStr) : PyStr :=
  projectModuleName key ++ py ".r_" ++ digest

/-- `local_revision_dir(storage_key, digest)`, where the cache root resolves and the digest can
name a directory. -/
def localRevisionDir (cacheRoot : Option PyStr) (key : StorageKey) (digest : PyStr) :
    Option PyStr :=
  cacheRoot.bind fun root =>
    if isHexDigest digest then some (root ++ slash :: uuidText key ++ slash :: digest) else none

/-- `build_error_sanitizer(storage_key, digest)`: the replacements, in order. -/
def buildErrorSanitizer (cacheRoot : Option PyStr) (key : StorageKey) (digest : PyStr) :
    Option (PyStr → PyStr) :=
  (localRevisionDir cacheRoot key digest).map fun cacheDir =>
    let revisionPrefix := revisionModuleName key digest
    let projectName := projectModuleName key
    let replacements : List (PyStr × PyStr) :=
      [(cacheDir ++ [slash], []), (cacheDir, py "<revision>"), (revisionPrefix ++ [46], []),
        (revisionPrefix, py "<revision>"), (projectName ++ [46], []),
        (projectName, py "<project>"), (privateRoot, py "<runtime>"),
        (uuidText key, py "<storage>"), (uuidHex key, py "<storage>"), (digest, py "<digest>")]
    fun text => replacements.foldl (fun text replacement =>
      replaceAll replacement.1 replacement.2 0 text) text

/-! ## What the files do -/

/-- The structured record of an import that failed, `ScriptFileImportError.detail`. -/
structure ImportDetail where
  code : PyStr
  message : PyStr
  exceptionType : Option PyStr
  traceback : Option PyStr
  deriving DecidableEq, Repr

/-- The `__cause__` of an import that failed, as far as the classification reads it. -/
inductive ImportCause
  | absent
  | syntaxError
  | importError
  | moduleNotFound (name : PyStr)
  /-- A `StorageError` or an `OSError`. -/
  | hostTrouble
  | other
  deriving DecidableEq, Repr

/-- What importing one file and discovering its scripts comes to. -/
inductive FileOutcome (Cls : Type)
  /-- The classes published, and what `zero_publication_reason` says of the module. -/
  | imported (found : List Cls) (zeroPublicationReason : Except Raised PyStr)
  /-- `DiscoveryError`, `InvalidModulePathError` -/
  | refused (error : MetadataError)
  /-- `ScriptFileImportError` -/
  | importFailed (detail : ImportDetail) (cause : ImportCause)
  /-- Any other exception, those of the passthrough types included. -/
  | raised (error : Raised)

/-- What the storage, the cache and the project's code do during one run. -/
structure ValidationEnv (Cls : Type) where
  storageKey : StorageKey
  /-- `resolve_cache_root()` -/
  cacheRoot : Option PyStr
  /-- `config.get_storage()` -/
  storage : Except Raised Unit
  /-- `_host_resolves(name)` -/
  hostResolves : PyStr → Bool
  /-- What importing and discovering the file at a path comes to. -/
  outcome : PyStr → FileOutcome Cls
  /-- What describing a class reads from it. -/
  facts : Cls → ClassFacts

/-- `classify_script_file_error(error, ...) == 'content'` -/
def isContentFailure (hostResolves : PyStr → Bool) (revisionPrefix : PyStr)
    (revisionModules : List PyStr) : ImportCause → Bool
  | .absent | .syntaxError | .importError | .other => true
  | .moduleNotFound name =>
    let top := (name.splitOn 46).headD []
    name = revisionPrefix ∨ (revisionPrefix ++ [46]).isPrefixOf name ∨ top ∈ revisionModules ∨
      hostResolves top = false
  | .hostTrouble => false

/-- `_top_level_module_names(manifest)` -/
def topLevelModuleNames [Unicode] (manifest : List ManifestEntry) : List PyStr :=
  manifest.filterMap fun entry =>
    match sourcePathToDottedName entry.path with
    | .ok dotted => if dotted = [] then none else (dotted.splitOn 46).head?
    | .error _ => none

/-- `_failure_reason(error)`, or `none` where rendering the error raises. -/
def failureReason (error : Raised) : Option PyStr :=
  match error.inner with
  | some none => none
  | none | some (some []) => error.text.map fun text => error.typeName ++ py ": " ++ text
  | some (some inner) => error.text.map fun text =>
      strip (error.typeName ++ py ": " ++ text ++ py " " ++ inner)

/-- The `ScriptFileImportError` that escapes when a failed import is the environment's. -/
def importErrorRaised (sourcePath : PyStr) (detail : ImportDetail) : Raised :=
  ⟨py "ScriptFileImportError",
    some (py "The script file \"" ++ sourcePath ++ py "\" failed to import."),
    some (some detail.message)⟩

/-! ## The fold -/

/-- What the loop over the files has collected. -/
structure Fold (Cls : Type) where
  failures : List FailureRecord
  outcomes : List (PyStr × FileDiscoveryStatus)
  notes : List (PyStr × PyStr)
  identities : List (ScriptIdentity × Cls)
  records : List ScriptRecord

/-- The loop's state at its start. -/
def Fold.empty {Cls : Type} : Fold Cls := ⟨[], [], [], [], []⟩

/-- `identities.get(identity)` -/
def Fold.publishedAs {Cls : Type} (fold : Fold Cls) (identity : ScriptIdentity) : Option Cls :=
  (fold.identities.find? fun entry => entry.1 = identity).map Prod.snd

/-- The record of a refused file or class. -/
def refusalRecord (sanitize : PyStr → PyStr) (sourcePath : PyStr) (error : MetadataError) :
    FailureRecord :=
  ⟨sourcePath, error.code, sanitize error.message, none, none⟩

/-- The record of an import that failed. -/
def importRecord (sanitize : PyStr → PyStr) (sourcePath : PyStr) (detail : ImportDetail) :
    FailureRecord :=
  ⟨sourcePath, detail.code, sanitize detail.message, detail.exceptionType,
    detail.traceback.map sanitize⟩

/-- The record of two classes under one identity. -/
def duplicateRecord (sanitize : PyStr → PyStr) (sourcePath : PyStr) (identity : ScriptIdentity) :
    FailureRecord :=
  ⟨sourcePath, py "duplicate_identity", sanitize (py "Two script classes publish as \"" ++
    identity.1 ++ py "." ++ identity.2 ++ py "\"."), none, none⟩

section Loop

variable {Cls : Type} [DecidableEq Cls]

/-- One turn of `_collect_publications`, with the outcome of the file so far. -/
def publishStep (facts : Cls → ClassFacts) (sanitize : PyStr → PyStr) (entry : SnapshotEntry)
    (state : Fold Cls × FileDiscoveryStatus) (cls : Cls) :
    Except Raised (Fold Cls × FileDiscoveryStatus) :=
  let (fold, status) := state
  let identity := (facts cls).identity
  match fold.publishedAs identity with
  | some existing =>
    if existing = cls then .ok (fold, status)
    else .ok ({ fold with failures := fold.failures ++
      [duplicateRecord sanitize entry.sourcePath identity] }, .failed)
  | none =>
    match describeScript (facts cls) entry.scriptFile entry.sourcePath fold.records.length with
    | .error (.refused error) =>
      .ok ({ fold with failures := fold.failures ++
        [refusalRecord sanitize entry.sourcePath error] }, .failed)
    | .error (.raised error) => .error error
    | .ok record => .ok ({ fold with
        identities := fold.identities ++ [(identity, cls)], records := fold.records ++ [record] },
        status)

/-- `_collect_publications(failures, identities, records, sanitize, entry, found)` -/
def collectPublications (facts : Cls → ClassFacts) (sanitize : PyStr → PyStr)
    (entry : SnapshotEntry) (fold : Fold Cls) (found : List Cls) :
    Except Raised (Fold Cls × FileDiscoveryStatus) :=
  found.foldlM (publishStep facts sanitize entry) (fold, .discovered)

/-- The loop's state with the outcome of one file recorded. -/
def Fold.conclude (fold : Fold Cls) (sourcePath : PyStr) (status : FileDiscoveryStatus) :
    Fold Cls :=
  { fold with outcomes := fold.outcomes ++ [(sourcePath, status)] }

/-- The loop's state with one failed file recorded. -/
def Fold.fail (fold : Fold Cls) (record : FailureRecord) : Fold Cls :=
  { fold with failures := fold.failures ++ [record] }.conclude record.sourcePath .failed

/-- One turn of the loop over the snapshot's files. -/
def fileStep (env : ValidationEnv Cls) (sanitize : PyStr → PyStr) (isContent : ImportCause → Bool)
    (fold : Fold Cls) (entry : SnapshotEntry) : Except Raised (Fold Cls) :=
  match env.outcome entry.sourcePath with
  | .refused error => .ok (fold.fail (refusalRecord sanitize entry.sourcePath error))
  | .importFailed detail cause =>
    if isContent cause then .ok (fold.fail (importRecord sanitize entry.sourcePath detail))
    else .error (importErrorRaised entry.sourcePath detail)
  | .raised error => .error error
  | .imported [] reason =>
    match reason with
    | .error error => .error error
    | .ok reason => .ok ({ fold with notes := fold.notes ++ [(entry.sourcePath, sanitize reason)]
        }.conclude entry.sourcePath .noScripts)
  | .imported found _ =>
    match collectPublications env.facts sanitize entry fold found with
    | .error error => .error error
    | .ok (fold, status) => .ok (fold.conclude entry.sourcePath status)

/-- The guarded part of `validate_revision`: the storage, then the loop over the files. -/
def runFiles (env : ValidationEnv Cls) (sanitize : PyStr → PyStr) (isContent : ImportCause → Bool)
    (entries : List SnapshotEntry) : Except Raised (Fold Cls) :=
  match env.storage with
  | .error error => .error error
  | .ok () => entries.foldlM (fileStep env sanitize isContent) .empty

/-! ## How a run ends -/

/-- One verdict, with what it leaves for the snapshot's Script File rows. -/
structure Verdict where
  status : RevisionStatus
  failures : List FailureRecord
  published : List ScriptRecord
  persisted : List (SnapshotEntry × FileDiscoveryStatus × PyStr)
  deriving DecidableEq

/-- How a run ends, short of the statement that records it. -/
inductive Examination
  /-- The stored snapshot or manifest is corrupt: the claim is given back without a reason. -/
  | corrupt
  /-- An exception where none is caught, or one whose handler raises in turn. -/
  | unguarded
  /-- An exception was caught: the claim is given back with this reason. -/
  | reverted (reason : PyStr)
  | verdict (verdict : Verdict)
  deriving DecidableEq

/-- `dict.get(key)` of a mapping kept in the order of its assignments. -/
def latest {α : Type} (entries : List (PyStr × α)) (key : PyStr) : Option α :=
  (entries.reverse.find? fun entry => entry.1 = key).map Prod.snd

/-- The failures a run without any failure and without any record is given. -/
def noScriptsPublished (notes : List (PyStr × PyStr)) (entries : List SnapshotEntry) :
    List FailureRecord :=
  entries.map fun entry => ⟨entry.sourcePath, py "no_scripts_published",
    (latest notes entry.sourcePath).getD [], none, none⟩

/-- The text `_persist_script_file_results` writes for one file. -/
def persistedMessage (failures : List FailureRecord) (notes : List (PyStr × PyStr))
    (sourcePath : PyStr) : FileDiscoveryStatus → PyStr
  | .failed => ((failures.find? fun record => record.sourcePath = sourcePath).map
      FailureRecord.message).getD []
  | .noScripts => (latest notes sourcePath).getD []
  | _ => []

/-- The verdict over a completed fold. -/
def settle (entries : List SnapshotEntry) (fold : Fold Cls) : Verdict :=
  let failures := if fold.failures = [] ∧ fold.records = [] then
    noScriptsPublished fold.notes entries else fold.failures
  { status := if failures = [] then .valid else .invalid
    failures
    published := if failures = [] then fold.records else []
    persisted := entries.filterMap fun entry =>
      (latest fold.outcomes entry.sourcePath).map fun status =>
        (entry, status, persistedMessage failures fold.notes entry.sourcePath status) }

/-- The verdict over an empty snapshot. -/
def vacuousVerdict : Verdict := ⟨.valid, [], [], []⟩

variable [Unicode] [Hashing]

/-- The checks of the stored snapshot and manifest; `none` is an exception that is not a
`RevisionCorruptError`. -/
def checkStored (row : RevisionRow) : Option Bool :=
  match validateScriptFileSnapshot (.arr (row.scriptFileSnapshot.map SnapshotEntry.toJson))
      row.scriptFileDigest with
  | .error (.revisionCorrupt ..) => some false
  | .error .unicodeEncodeError => none
  | .ok () =>
    match validateManifest (.arr (row.manifest.map ManifestEntry.toJson)) row.digest with
    | .error (.revisionCorrupt ..) => some false
    | .error .unicodeEncodeError => none
    | .ok () => some true

/-- The classification of a failed import for one revision. -/
def contentTest (env : ValidationEnv Cls) (row : RevisionRow) : ImportCause → Bool :=
  isContentFailure env.hostResolves (revisionModuleName env.storageKey (row.digest.getD []))
    (topLevelModuleNames row.manifest)

/-- What `validate_revision` comes to after its claim, short of the statement that records it. -/
def examineRevision (env : ValidationEnv Cls) (row : RevisionRow) : Examination :=
  match checkStored row with
  | none => .unguarded
  | some false => .corrupt
  | some true =>
    if row.scriptFileSnapshot = [] then .verdict vacuousVerdict
    else
      match buildErrorSanitizer env.cacheRoot env.storageKey (row.digest.getD []) with
      | none => .unguarded
      | some sanitize =>
        match runFiles env sanitize (contentTest env row) row.scriptFileSnapshot with
        | .error error =>
          match failureReason error with
          | none => .unguarded
          | some reason => .reverted (sanitize reason)
        | .ok fold => .verdict (settle row.scriptFileSnapshot fold)

omit [Unicode] [Hashing]

/-! ## Runs without failures -/

/-- The classes the file at an entry publishes. -/
def foundAt (env : ValidationEnv Cls) (entry : SnapshotEntry) : List Cls :=
  match env.outcome entry.sourcePath with
  | .imported found _ => found
  | _ => []

/-- Every class published, in order, with the entry that surfaces it. -/
def publications (env : ValidationEnv Cls) (entries : List SnapshotEntry) :
    List (SnapshotEntry × Cls) :=
  entries.flatMap fun entry => (foundAt env entry).map fun cls => (entry, cls)

/-- Whether a class is described; where it is found plays no part in it. -/
def Describable (facts : ClassFacts) : Prop := ∃ record, describeScript facts 0 [] 0 = .ok record

/-- Two classes published under one identity are one class. -/
def Coherent (facts : Cls → ClassFacts) (pubs : List (SnapshotEntry × Cls)) : Prop :=
  ∀ p ∈ pubs, ∀ q ∈ pubs, (facts p.2).identity = (facts q.2).identity → p.2 = q.2

/-- What a fold without failures has recorded of the publications so far: each class once,
where it first appeared. -/
structure Accumulated (facts : Cls → ClassFacts) (pubs : List (SnapshotEntry × Cls))
    (fold : Fold Cls) : Prop where
  no_failures : fold.failures = []
  identities : fold.identities =
    (keepFirst Prod.snd pubs).map fun p => ((facts p.2).identity, p.2)
  records : (keepFirst Prod.snd pubs).mapIdx (fun i p =>
    describeScript (facts p.2) p.1.scriptFile p.1.sourcePath i) = fold.records.map Except.ok
  describable : ∀ p ∈ pubs, Describable (facts p.2)
  coherent : Coherent facts pubs

theorem Describable.at {facts : ClassFacts} (h : Describable facts) (scriptFile : Id)
    (sourcePath : PyStr) (position : ℕ) :
    ∃ record, describeScript facts scriptFile sourcePath position = .ok record := by
  obtain ⟨record, hrecord⟩ := h
  obtain ⟨-, -, -, -, hat⟩ := describeScript_eq_ok hrecord
  exact ⟨_, hat scriptFile sourcePath position⟩

theorem describable_of_eq_ok {facts : ClassFacts} {scriptFile : Id} {sourcePath : PyStr}
    {position : ℕ} {record : ScriptRecord}
    (h : describeScript facts scriptFile sourcePath position = .ok record) : Describable facts := by
  obtain ⟨-, -, -, -, hat⟩ := describeScript_eq_ok h
  exact ⟨_, hat 0 [] 0⟩

section Accumulated

variable {facts : Cls → ClassFacts} {pubs : List (SnapshotEntry × Cls)} {fold fold' : Fold Cls}
  {sanitize : PyStr → PyStr} {entry : SnapshotEntry} {cls : Cls} {status status' : FileDiscoveryStatus}

theorem Accumulated.empty : Accumulated facts [] (.empty : Fold Cls) :=
  ⟨rfl, rfl, rfl, by simp, by simp [Coherent]⟩

theorem Accumulated.records_length (h : Accumulated facts pubs fold) :
    fold.records.length = (keepFirst Prod.snd pubs).length := by
  have := congrArg List.length h.records
  simpa using this.symm

/-- The identity map knows an identity exactly when a class was published under it. -/
theorem Accumulated.publishedAs_eq_some (h : Accumulated facts pubs fold)
    {identity : ScriptIdentity} :
    fold.publishedAs identity = some cls ↔
      (∃ p ∈ pubs, p.2 = cls) ∧ (facts cls).identity = identity := by
  have hmem : ∀ c, c ∈ (keepFirst Prod.snd pubs).map Prod.snd ↔ ∃ p ∈ pubs, p.2 = c := fun c => by
    rw [mem_map_keepFirst, List.mem_map]
  rw [Fold.publishedAs, h.identities]
  constructor
  · intro hfind
    obtain ⟨found, hfound, rfl⟩ := Option.map_eq_some_iff.mp hfind
    obtain ⟨p, hp, rfl⟩ := List.mem_map.mp (List.mem_of_find?_eq_some hfound)
    exact ⟨(hmem p.2).mp (List.mem_map_of_mem hp), by simpa using List.find?_some hfound⟩
  · rintro ⟨hpub, rfl⟩
    obtain ⟨q, hq, rfl⟩ := List.mem_map.mp ((hmem cls).mpr hpub)
    have hmemIdentity := List.mem_map_of_mem (f := fun p => ((facts p.2).identity, p.2)) hq
    obtain ⟨found, hfound⟩ := Option.isSome_iff_exists.mp (List.find?_isSome
      (p := fun entry => decide (entry.1 = (facts q.2).identity)).mpr
        ⟨_, hmemIdentity, decide_eq_true rfl⟩)
    obtain ⟨p, hp, rfl⟩ := List.mem_map.mp (List.mem_of_find?_eq_some hfound)
    have hidentity : (facts p.2).identity = (facts q.2).identity := by
      simpa using List.find?_some hfound
    rw [hfound, Option.map_some,
      h.coherent p ((keepFirst_sublist _ _).subset hp) q ((keepFirst_sublist _ _).subset hq)
        hidentity]

theorem Accumulated.coherent_concat (h : Accumulated facts pubs fold)
    (hcls : ∀ p ∈ pubs, (facts p.2).identity = (facts cls).identity → p.2 = cls) :
    Coherent facts (pubs ++ [(entry, cls)]) := by
  intro p hp q hq hpq
  rw [List.mem_append, List.mem_singleton] at hp hq
  rcases hp with hp | rfl <;> rcases hq with hq | rfl
  · exact h.coherent p hp q hq hpq
  · exact hcls p hp hpq
  · exact (hcls q hq hpq.symm).symm
  · rfl

/-- A class already published leaves what is recorded as it is. -/
theorem Accumulated.known (h : Accumulated facts pubs fold) (hcls : ∃ p ∈ pubs, p.2 = cls) :
    Accumulated facts (pubs ++ [(entry, cls)]) fold := by
  obtain ⟨q, hq, rfl⟩ := hcls
  have hkept : keepFirst Prod.snd (pubs ++ [(entry, q.2)]) = keepFirst Prod.snd pubs := by
    rw [keepFirst_concat, if_pos ((mem_map_keepFirst _ _ _).mpr (List.mem_map_of_mem hq))]
  refine ⟨h.no_failures, hkept ▸ h.identities, hkept ▸ h.records, ?_, ?_⟩
  · intro p hp
    rcases List.mem_append.mp hp with hp | hp
    · exact h.describable p hp
    · obtain rfl := List.mem_singleton.mp hp
      exact h.describable q hq
  · exact h.coherent_concat fun p hp => h.coherent p hp q hq

/-- A class not published yet is described at the next position. -/
theorem Accumulated.new (h : Accumulated facts pubs fold) (hcls : ¬ ∃ p ∈ pubs, p.2 = cls)
    (hidentity : ∀ p ∈ pubs, (facts p.2).identity ≠ (facts cls).identity) {record : ScriptRecord}
    (hrecord : describeScript (facts cls) entry.scriptFile entry.sourcePath fold.records.length =
      .ok record) :
    Accumulated facts (pubs ++ [(entry, cls)])
      { fold with
        identities := fold.identities ++ [((facts cls).identity, cls)]
        records := fold.records ++ [record] } := by
  have hkept : keepFirst Prod.snd (pubs ++ [(entry, cls)]) =
      keepFirst Prod.snd pubs ++ [(entry, cls)] := by
    rw [keepFirst_concat, if_neg]
    rw [mem_map_keepFirst, List.mem_map]
    exact hcls
  refine ⟨h.no_failures, ?_, ?_, ?_, ?_⟩
  · rw [hkept, List.map_append, ← h.identities, List.map_singleton]
  · rw [hkept, List.mapIdx_append, h.records, List.map_append, List.map_singleton, ← hrecord,
      h.records_length]
    simp
  · intro p hp
    rcases List.mem_append.mp hp with hp | hp
    · exact h.describable p hp
    · obtain rfl := List.mem_singleton.mp hp
      exact describable_of_eq_ok hrecord
  · exact h.coherent_concat fun p hp heq => absurd heq (hidentity p hp)

/-- One class without a failure. -/
theorem publishStep_accumulates (h : Accumulated facts pubs fold)
    (hstep : publishStep facts sanitize entry (fold, status) cls = .ok (fold', status'))
    (hfailures : fold'.failures = []) :
    Accumulated facts (pubs ++ [(entry, cls)]) fold' := by
  simp only [publishStep] at hstep
  split at hstep
  · next existing hexisting =>
    obtain ⟨hpub, hidentity⟩ := h.publishedAs_eq_some.mp hexisting
    split_ifs at hstep with heq
    · cases hstep
      exact h.known (heq ▸ hpub)
    · cases hstep
      simp at hfailures
  · next hnone =>
    have hnew : ∀ p ∈ pubs, (facts p.2).identity ≠ (facts cls).identity := by
      intro p hp heq
      have := h.publishedAs_eq_some.mpr ⟨⟨p, hp, rfl⟩, heq⟩
      rw [hnone] at this
      cases this
    split at hstep
    · cases hstep
      simp at hfailures
    · cases hstep
    · next record hrecord =>
      cases hstep
      exact h.new (fun ⟨p, hp, heq⟩ => hnew p hp (heq ▸ rfl)) hnew hrecord

variable (sanitize entry status) in
/-- A describable class under an identity of its own is recorded without a failure. -/
theorem publishStep_of_describable (h : Accumulated facts pubs fold)
    (hdescribable : Describable (facts cls))
    (hcoherent : ∀ p ∈ pubs, (facts p.2).identity = (facts cls).identity → p.2 = cls) :
    ∃ fold', publishStep facts sanitize entry (fold, status) cls = .ok (fold', status) ∧
      Accumulated facts (pubs ++ [(entry, cls)]) fold' := by
  by_cases hpub : ∃ p ∈ pubs, p.2 = cls
  · have hknown := h.publishedAs_eq_some.mpr ⟨hpub, rfl⟩
    exact ⟨fold, by simp [publishStep, hknown], h.known hpub⟩
  · have hnew : ∀ p ∈ pubs, (facts p.2).identity ≠ (facts cls).identity := fun p hp heq =>
      hpub ⟨p, hp, hcoherent p hp heq⟩
    have hnone : fold.publishedAs (facts cls).identity = none := by
      refine Option.eq_none_iff_forall_ne_some.mpr fun existing hexisting => ?_
      obtain ⟨⟨p, hp, rfl⟩, heq⟩ := h.publishedAs_eq_some.mp hexisting
      exact hnew p hp heq
    obtain ⟨record, hrecord⟩ := hdescribable.at entry.scriptFile entry.sourcePath
      fold.records.length
    exact ⟨_, by simp [publishStep, hnone, hrecord], h.new hpub hnew hrecord⟩

end Accumulated

/-! ## Clean runs -/

section Clean

variable {env : ValidationEnv Cls} {sanitize : PyStr → PyStr} {isContent : ImportCause → Bool}
  {pubs : List (SnapshotEntry × Cls)} {fold fold' : Fold Cls} {entry : SnapshotEntry}
  {entries : List SnapshotEntry}

theorem publishStep_failures {state state' : Fold Cls × FileDiscoveryStatus} {cls : Cls}
    (h : publishStep env.facts sanitize entry state cls = .ok state')
    (hfailures : state.1.failures ≠ []) : state'.1.failures ≠ [] := by
  simp only [publishStep] at h
  split at h
  · split_ifs at h
    · cases h; exact hfailures
    · cases h; simp
  · split at h
    · cases h; simp
    · cases h
    · cases h; exact hfailures

theorem collectPublications_failures {found : List Cls} {status : FileDiscoveryStatus}
    (h : collectPublications env.facts sanitize entry fold found = .ok (fold', status))
    (hfailures : fold.failures ≠ []) : fold'.failures ≠ [] :=
  List.foldlM_preserves (p := fun state : Fold Cls × FileDiscoveryStatus => state.1.failures ≠ [])
    (fun _ _ _ hstep hp => publishStep_failures hstep hp) h hfailures

theorem fileStep_failures (h : fileStep env sanitize isContent fold entry = .ok fold')
    (hfailures : fold.failures ≠ []) : fold'.failures ≠ [] := by
  unfold fileStep at h
  split at h
  · cases h; simp [Fold.fail, Fold.conclude]
  · split_ifs at h
    cases h; simp [Fold.fail, Fold.conclude]
  · cases h
  · split at h
    · cases h
    · cases h; exact hfailures
  · split at h
    · cases h
    · next fold₁ status hcollect =>
      cases h
      show fold₁.failures ≠ []
      exact collectPublications_failures hcollect hfailures

theorem Accumulated.conclude (h : Accumulated env.facts pubs fold) (path : PyStr)
    (status : FileDiscoveryStatus) : Accumulated env.facts pubs (fold.conclude path status) :=
  ⟨h.no_failures, h.identities, h.records, h.describable, h.coherent⟩

/-- One file's classes without a failure. -/
theorem collectPublications_accumulates {found : List Cls}
    (state : Fold Cls × FileDiscoveryStatus) {state' : Fold Cls × FileDiscoveryStatus}
    (h : Accumulated env.facts pubs state.1)
    (hcollect : found.foldlM (publishStep env.facts sanitize entry) state = .ok state')
    (hfailures : state'.1.failures = []) :
    Accumulated env.facts (pubs ++ found.map fun cls => (entry, cls)) state'.1 := by
  induction found generalizing pubs state with
  | nil =>
    obtain rfl : state = state' := by simpa [pure, Except.pure] using hcollect
    simpa using h
  | cons cls found ih =>
    rw [List.foldlM_cons, Except.bind_eq_ok_iff] at hcollect
    obtain ⟨state₁, hstep, hrest⟩ := hcollect
    have hfailures₁ : state₁.1.failures = [] := by
      by_contra hne
      exact List.foldlM_preserves
        (p := fun state : Fold Cls × FileDiscoveryStatus => state.1.failures ≠ [])
        (fun _ _ _ hstep hp => publishStep_failures hstep hp) hrest hne hfailures
    have h₁ := publishStep_accumulates h hstep hfailures₁
    simpa using ih state₁ h₁ hrest

variable (sanitize) in
/-- Describable classes under identities of their own are recorded without a failure. -/
theorem collectPublications_of_describable {found : List Cls}
    (state : Fold Cls × FileDiscoveryStatus) (h : Accumulated env.facts pubs state.1)
    (hdescribable : ∀ cls ∈ found, Describable (env.facts cls))
    (hcoherent : Coherent env.facts (pubs ++ found.map fun cls => (entry, cls))) :
    ∃ fold', found.foldlM (publishStep env.facts sanitize entry) state = .ok (fold', state.2) ∧
      Accumulated env.facts (pubs ++ found.map fun cls => (entry, cls)) fold' := by
  induction found generalizing pubs state with
  | nil => exact ⟨state.1, rfl, by simpa using h⟩
  | cons cls found ih =>
    obtain ⟨hcls, hfound⟩ := List.forall_mem_cons.mp hdescribable
    obtain ⟨fold₁, hstep, h₁⟩ := publishStep_of_describable sanitize entry state.2 h hcls
      fun p hp heq => hcoherent p (by simp [hp]) (entry, cls) (by simp) heq
    rw [List.map_cons, List.append_cons] at hcoherent ⊢
    obtain ⟨fold', hrest, h'⟩ := ih (fold₁, state.2) h₁ hfound hcoherent
    exact ⟨fold', by rw [List.foldlM_cons]; exact Except.bind_eq_ok_iff.mpr ⟨_, hstep, hrest⟩, h'⟩

/-- A file that imports, and whose silence can be explained. -/
def Imports (env : ValidationEnv Cls) (entry : SnapshotEntry) : Prop :=
  ∃ found reason, env.outcome entry.sourcePath = .imported found reason ∧
    (found = [] → ∃ note, reason = .ok note)

/-- One file without a failure. -/
theorem fileStep_accumulates (h : Accumulated env.facts pubs fold)
    (hstep : fileStep env sanitize isContent fold entry = .ok fold')
    (hfailures : fold'.failures = []) :
    Imports env entry ∧
      Accumulated env.facts (pubs ++ (foundAt env entry).map fun cls => (entry, cls)) fold' := by
  unfold fileStep at hstep
  split at hstep
  · cases hstep; simp [Fold.fail, Fold.conclude] at hfailures
  · split_ifs at hstep
    cases hstep; simp [Fold.fail, Fold.conclude] at hfailures
  · cases hstep
  · next reason houtcome =>
    split at hstep
    · cases hstep
    · next note =>
      cases hstep
      refine ⟨⟨[], .ok note, houtcome, fun _ => ⟨note, rfl⟩⟩, ?_⟩
      rw [foundAt, houtcome, List.map_nil, List.append_nil]
      exact ⟨h.no_failures, h.identities, h.records, h.describable, h.coherent⟩
  · next found reason hne houtcome =>
    split at hstep
    · cases hstep
    · next fold₁ status hcollect =>
      cases hstep
      refine ⟨⟨found, reason, houtcome, fun heq => absurd heq hne⟩, ?_⟩
      rw [foundAt, houtcome]
      exact (collectPublications_accumulates (fold, .discovered) h hcollect
        hfailures).conclude _ _

variable (sanitize isContent) in
/-- A file that imports, with describable classes under identities of their own, is recorded
without a failure. -/
theorem fileStep_of_imports (h : Accumulated env.facts pubs fold) (himports : Imports env entry)
    (hdescribable : ∀ cls ∈ foundAt env entry, Describable (env.facts cls))
    (hcoherent : Coherent env.facts
      (pubs ++ (foundAt env entry).map fun cls => (entry, cls))) :
    ∃ fold', fileStep env sanitize isContent fold entry = .ok fold' ∧
      Accumulated env.facts (pubs ++ (foundAt env entry).map fun cls => (entry, cls)) fold' := by
  obtain ⟨found, reason, houtcome, hnote⟩ := himports
  rw [foundAt, houtcome] at hdescribable hcoherent ⊢
  cases found with
  | nil =>
    obtain ⟨note, rfl⟩ := hnote rfl
    refine ⟨Fold.conclude { fold with notes := fold.notes ++ [(entry.sourcePath, sanitize note)] }
      entry.sourcePath .noScripts, by simp [fileStep, houtcome], ?_⟩
    rw [List.map_nil, List.append_nil]
    exact ⟨h.no_failures, h.identities, h.records, h.describable, h.coherent⟩
  | cons cls found =>
    obtain ⟨fold₁, hcollect, h₁⟩ := collectPublications_of_describable sanitize (fold, .discovered) h
      hdescribable hcoherent
    refine ⟨fold₁.conclude entry.sourcePath .discovered, ?_, h₁.conclude _ _⟩
    rw [fileStep, houtcome]
    simp [collectPublications, hcollect]

/-- **A clean run**: the storage answers, every file imports, and every class is describable,
under an identity of its own. -/
structure CleanRun (env : ValidationEnv Cls) (entries : List SnapshotEntry) : Prop where
  storage : env.storage = .ok ()
  imports : ∀ entry ∈ entries, Imports env entry
  describable : ∀ p ∈ publications env entries, Describable (env.facts p.2)
  coherent : Coherent env.facts (publications env entries)

theorem foldFiles_accumulates (h : Accumulated env.facts pubs fold)
    (hfold : entries.foldlM (fileStep env sanitize isContent) fold = .ok fold')
    (hfailures : fold'.failures = []) :
    (∀ entry ∈ entries, Imports env entry) ∧
      Accumulated env.facts (pubs ++ publications env entries) fold' := by
  induction entries generalizing pubs fold with
  | nil =>
    obtain rfl : fold = fold' := by simpa [pure, Except.pure] using hfold
    exact ⟨by simp, by simpa [publications] using h⟩
  | cons entry entries ih =>
    rw [List.foldlM_cons, Except.bind_eq_ok_iff] at hfold
    obtain ⟨fold₁, hstep, hrest⟩ := hfold
    have hfailures₁ : fold₁.failures = [] := by
      by_contra hne
      exact List.foldlM_preserves (p := fun fold : Fold Cls => fold.failures ≠ [])
        (fun _ _ _ hstep hp => fileStep_failures hstep hp) hrest hne hfailures
    obtain ⟨himports, h₁⟩ := fileStep_accumulates h hstep hfailures₁
    obtain ⟨hall, h'⟩ := ih h₁ hrest
    exact ⟨List.forall_mem_cons.mpr ⟨himports, hall⟩, by simpa [publications] using h'⟩

variable (sanitize isContent) in
theorem foldFiles_of_clean (h : Accumulated env.facts pubs fold)
    (himports : ∀ entry ∈ entries, Imports env entry)
    (hdescribable : ∀ p ∈ publications env entries, Describable (env.facts p.2))
    (hcoherent : Coherent env.facts (pubs ++ publications env entries)) :
    ∃ fold', entries.foldlM (fileStep env sanitize isContent) fold = .ok fold' ∧
      Accumulated env.facts (pubs ++ publications env entries) fold' := by
  induction entries generalizing pubs fold with
  | nil => exact ⟨fold, rfl, by simpa [publications] using h⟩
  | cons entry entries ih =>
    obtain ⟨hentry, hrest⟩ := List.forall_mem_cons.mp himports
    have hcons : publications env (entry :: entries) =
        ((foundAt env entry).map fun cls => (entry, cls)) ++ publications env entries := by
      simp [publications]
    rw [hcons] at hdescribable hcoherent ⊢
    rw [← List.append_assoc] at hcoherent ⊢
    obtain ⟨fold₁, hstep, h₁⟩ := fileStep_of_imports sanitize isContent h hentry
      (fun cls hcls => hdescribable (entry, cls) (by simp [hcls]))
      (fun p hp q hq => hcoherent p (List.mem_append_left _ hp) q (List.mem_append_left _ hq))
    obtain ⟨fold', hfold, h'⟩ := ih h₁ hrest
      (fun p hp => hdescribable p (List.mem_append_right _ hp)) hcoherent
    exact ⟨fold', by rw [List.foldlM_cons]; exact Except.bind_eq_ok_iff.mpr ⟨_, hstep, hfold⟩, h'⟩

/-- What a run without failures has recorded. -/
theorem runFiles_accumulates (hrun : runFiles env sanitize isContent entries = .ok fold)
    (hfailures : fold.failures = []) :
    CleanRun env entries ∧ Accumulated env.facts (publications env entries) fold := by
  unfold runFiles at hrun
  split at hrun
  · cases hrun
  · next u hstorage =>
    obtain ⟨himports, h⟩ := foldFiles_accumulates Accumulated.empty hrun hfailures
    rw [List.nil_append] at h
    exact ⟨⟨hstorage, himports, h.describable, h.coherent⟩, h⟩

/-- **A run records no failure** exactly when it is clean. -/
theorem runFiles_clean_iff :
    (∃ fold, runFiles env sanitize isContent entries = .ok fold ∧ fold.failures = []) ↔
      CleanRun env entries := by
  constructor
  · rintro ⟨fold, hrun, hfailures⟩
    exact (runFiles_accumulates hrun hfailures).1
  · rintro ⟨hstorage, himports, hdescribable, hcoherent⟩
    obtain ⟨fold, hfold, h⟩ := foldFiles_of_clean sanitize isContent Accumulated.empty himports
      hdescribable (by simpa using hcoherent)
    exact ⟨fold, by simp [runFiles, hstorage, hfold], h.no_failures⟩

end Clean

end Loop

end NetBoxScripts
