import NetBoxScripts.Concurrency.Trace
import NetBoxScripts.Database.Updates
import NetBoxScripts.Storage.StoredText

/-!
# Identities of staged revisions

`storage/service.py` on one project, call after call: a call stages a source tree, or the stored
content of a revision, under the declarations as they are. Each call holds the project's lock
throughout.

## Main definitions

* `getOrCreate`: the row of an identity
* `stageRevision`, `refreshRevisionScriptFiles`: the calls
* `RevisionState`, `revisionStep`: the machine, which records what calls return
* `Identified`: the invariant
* `StagedApart`: calls return one row exactly for one tree under one set of enabled declarations,
  and each rejected tree a new one

## Main results

* `revisionStep_identified`: every event keeps the invariant
* `stageRevision_anew`, `stageRevision_raises`: which rejected trees get a row
* `stagedRevisions_apart_iff`: the runs that end so
-/

namespace NetBoxScripts

section Revisions

variable [Unicode] [Hashing]

/-! ## Calls -/

/-- How a call raises. -/
inductive StagingFailure
  | unicodeEncodeError
  | revisionCorrupt
  | storageError
  /-- `ValueError`: there is no stored content to refresh. -/
  | noDigest
  | revisionVanished
  /-- `DataError`: a text that the column does not take. -/
  | dataError
  deriving DecidableEq, Repr

/-- `StagedRevision` -/
structure StagedRevision where
  revision : Id
  created : Bool
  deriving DecidableEq, Repr

/-- What a call returned, for which tree and under which declarations; a rejected tree is none. -/
structure RevisionCall where
  revision : Id
  created : Bool
  tree : Option Tree
  files : Table ScriptFileRow

/-- A call on a rejected tree: what it raised or returned, with the rows before and after. -/
structure Refusal where
  files : SourceFiles
  before : Table RevisionRow
  outcome : Except StagingFailure StagedRevision
  after : Table RevisionRow

/-- The rows, what the project's keys hold by digest and path, the project's source columns, the
calls that returned so far, and those on rejected trees. -/
structure RevisionState where
  revisions : Table RevisionRow
  files : Table ScriptFileRow
  content : PyStr → Tree
  sourceRevision : Option Id
  sourceActivationPending : Bool
  calls : List RevisionCall
  refusals : List Refusal

/-- What raised or was returned, and the state after. -/
abbrev StagingResult := Except StagingFailure StagedRevision × RevisionState

/-- What the storage backend makes of a call: what it is asked, or it raises while a tree is read,
or at a write, whose key it may have deleted before. -/
inductive StorageFault
  | none
  | reads
  | writes (index : ℕ) (deleted : Bool)
  deriving DecidableEq, Repr

/-- The rows that one identity finds. -/
def RevisionRow.SameIdentity (a b : RevisionRow) : Prop :=
  a.project = b.project ∧ a.digest = b.digest ∧ a.scriptFileDigest = b.scriptFileDigest

instance (a b : RevisionRow) : Decidable (a.SameIdentity b) := by
  unfold RevisionRow.SameIdentity
  infer_instance

/-- `get_or_create(project=…, digest=…, script_file_digest=…, defaults=…)`, for the row that is to
be created. -/
def getOrCreate (revisions : Table RevisionRow) (row : RevisionRow) :
    Table RevisionRow × StagedRevision :=
  match revisions.entries.find? fun revision => revision.2.SameIdentity row with
  | some (pk, _) => (revisions, ⟨pk, false⟩)
  | none => (revisions.insert row, ⟨revisions.next, true⟩)

/-- `_validated_manifest(revision)` -/
def validatedManifest (revision : RevisionRow) : Except StagingFailure Unit :=
  match validateManifest (.arr (revision.manifest.map ManifestEntry.toJson)) revision.digest with
  | .error .unicodeEncodeError => .error .unicodeEncodeError
  | .error (.revisionCorrupt _ _) => .error .revisionCorrupt
  | .ok () =>
    if revision.fileCount ≠ revision.manifest.length ∨
        revision.totalSize ≠ (revision.manifest.map ManifestEntry.size).sum then
      .error .revisionCorrupt
    else .ok ()

/-- `_verify_tree`: every entry is stored as recorded. -/
def verifyStored (fault : StorageFault) (manifest : List ManifestEntry) (content : Tree) :
    Except StagingFailure Unit :=
  if fault = .reads then .error .storageError
  else if manifest.all fun entry => (content entry.path).any fun bytes => Intact bytes entry then
    .ok ()
  else .error .revisionCorrupt

/-- `_write_one` of each entry: a key that holds the recorded content is left alone. -/
def writeEntries (source : Tree) :
    StorageFault → List ManifestEntry → Tree → Except StagingFailure Unit × Tree
  | _, [], content => (.ok (), content)
  | fault, entry :: entries, content =>
    match source entry.path with
    | none => (.error .storageError, content)
    | some bytes =>
      if (content entry.path).any fun stored => Intact stored entry then
        writeEntries source fault entries content
      else
        let written := Function.update content entry.path (some bytes)
        match fault with
        | .writes 0 deleted =>
          (.error .storageError,
            if deleted then Function.update content entry.path none else content)
        | .writes (index + 1) deleted => writeEntries source (.writes index deleted) entries written
        | fault => writeEntries source fault entries written

/-- The status and the errors of a row are written. -/
def RevisionState.settle (s : RevisionState) (pk : Id) (status : RevisionStatus)
    (errors : List ErrorRecord) : RevisionState :=
  { s with revisions := s.revisions.modify pk fun row =>
      { row with status, validationErrors := errors } }

/-- The write of a retryable revision, from `STAGING` to `MATERIALIZED` or `STORAGE_FAILED`. A path
that cannot be encoded raises what the handler does not catch. -/
def writeStaged (files : SourceFiles) (fault : StorageFault) (staged : StagedRevision)
    (revision : RevisionRow) (s : RevisionState) : StagingResult :=
  let s := s.settle staged.revision .staging revision.validationErrors
  let digest := revision.digest.getD []
  match validatedManifest revision with
  | .error .unicodeEncodeError => (.error .unicodeEncodeError, s)
  | .error failure =>
    (.error failure, s.settle staged.revision .storageFailed [.storageWriteFailed])
  | .ok () =>
    let (written, content) :=
      writeEntries (canonicalTree files) fault revision.manifest (s.content digest)
    let s := { s with content := Function.update s.content digest content }
    match written, verifyStored fault revision.manifest content with
    | .ok (), .ok () => (.ok staged, s.settle staged.revision .materialized [])
    | .error failure, _ | .ok (), .error failure =>
      (.error failure, s.settle staged.revision .storageFailed [.storageWriteFailed])

/-- The loop of `_stage_revision` over the row as it was found. -/
def settleStaged (files : SourceFiles) (fault : StorageFault) (staged : StagedRevision)
    (s : RevisionState) : StagingResult :=
  match s.revisions.row staged.revision with
  | none => (.error .revisionVanished, s)
  | some revision =>
    if revision.status.stored then
      match validatedManifest revision,
          verifyStored fault revision.manifest (s.content (revision.digest.getD [])) with
      | .ok (), .ok () => (.ok staged, s)
      | .error failure, _ | .ok (), .error failure => (.error failure, s)
    else if revision.status.retryable = false then (.ok staged, s)
    else writeStaged files fault staged revision s

/-- A row as a call creates it. -/
def stagedRow (project : Id) (manifest : List ManifestEntry) (snapshot : List SnapshotEntry)
    (now : Time) : RevisionRow where
  project
  digest := none
  status := .invalid
  manifest
  fileCount := manifest.length
  totalSize := (manifest.map ManifestEntry.size).sum
  validationErrors := []
  discoveredScripts := []
  scriptFileSnapshot := snapshot
  scriptFileDigest := snapshotDigest snapshot
  validationJob := none
  validationStarted := none
  lastValidationFailure := []
  activated := none
  created := now

/-- `_stage_revision(project, files)` -/
def stageRevision (project : Id) (files : SourceFiles) (limits : StorageLimits)
    (fault : StorageFault) (now : Time) (s : RevisionState) : StagingResult :=
  match buildManifest files limits with
  | .error _ => (.error .unicodeEncodeError, s)
  | .ok (entries, errors) =>
    let row := stagedRow project entries (projectSnapshot project s.files) now
    if errors ≠ [] then
      match storedErrors errors with
      | none => (.error .dataError, s)
      | some stored =>
        let rejected := { row with validationErrors := stored.map ErrorRecord.rejected }
        (.ok ⟨s.revisions.next, true⟩, { s with revisions := s.revisions.insert rejected })
    else
      let (revisions, staged) := getOrCreate s.revisions
        { row with digest := some (manifestDigest entries), status := .staging }
      settleStaged files fault staged { s with revisions }

/-- A revision whose content has been verified needs no retry of its write. -/
def settleVerified (staged : StagedRevision) (s : RevisionState) : StagingResult :=
  match s.revisions.row staged.revision with
  | none => (.error .revisionVanished, s)
  | some candidate =>
    if candidate.status.retryable then (.ok staged, s.settle staged.revision .materialized [])
    else (.ok staged, s)

/-- `_refresh_revision_script_files(revision)` -/
def refreshRevisionScriptFiles (pk : Id) (fault : StorageFault) (now : Time) (s : RevisionState) :
    StagingResult :=
  match s.revisions.row pk with
  | none => (.error .revisionVanished, s)
  | some source =>
    match source.digest with
    | none => (.error .noDigest, s)
    | some digest =>
      match validatedManifest source, verifyStored fault source.manifest (s.content digest) with
      | .error failure, _ | .ok (), .error failure => (.error failure, s)
      | .ok (), .ok () =>
        let row := stagedRow source.project source.manifest
          (projectSnapshot source.project s.files) now
        let (revisions, staged) := getOrCreate s.revisions
          { row with
            digest := some digest
            status := .materialized
            fileCount := source.fileCount
            totalSize := source.totalSize }
        settleVerified staged { s with revisions }

/-- `_accept_source(revision, activate_once=activate_once)` -/
def RevisionState.acceptSource (s : RevisionState) (pk : Id) (activateOnce : Bool) :
    RevisionState :=
  match s.revisions.row pk with
  | none => s
  | some revision =>
    if revision.digest.isSome ∧ revision.status.unstored = false then
      let pending := activateOnce ||
        (decide (s.sourceRevision = some pk) && s.sourceActivationPending)
      { s with
        sourceRevision := some pk
        sourceActivationPending := pending && decide (revision.status ≠ .active) }
    else s

/-! ## The machine -/

/-- A call, or what happens between calls. -/
inductive RevisionEvent
  /-- `stage_revision(project, files, activate_once=…)` -/
  | stage (files : SourceFiles) (limits : StorageLimits) (activateOnce : Bool)
    (fault : StorageFault) (now : Time)
  /-- `refresh_revision_script_files(revision)` -/
  | refresh (pk : Id) (fault : StorageFault) (now : Time)
  /-- The declarations change. -/
  | declare (files : Table ScriptFileRow)
  /-- The lifecycle of revisions moves on. -/
  | lifecycle (change : Id → RevisionRow → RevisionRow)
  /-- A revision of another project. -/
  | elsewhere (row : RevisionRow)
  /-- The stored content changes. -/
  | backend (content : PyStr → Tree)

/-- The canonical tree of a source that is not rejected. -/
def acceptedTree (files : SourceFiles) (limits : StorageLimits) : Option Tree :=
  match buildManifest files limits with
  | .ok (_, []) => some (canonicalTree files)
  | _ => none

/-- The tree a revision's keys hold. -/
def RevisionState.storedTree (s : RevisionState) (pk : Id) : Option Tree :=
  (s.revisions.row pk).map fun row path =>
    if path ∈ row.manifest.map ManifestEntry.path then s.content (row.digest.getD []) path else none

/-- A call that returned accepts the revision and is recorded. -/
def recordCall (tree : Option Tree) (activateOnce : Bool) : StagingResult → RevisionState
  | (.ok staged, s) =>
    { s.acceptSource staged.revision activateOnce with
      calls := s.calls ++ [⟨staged.revision, staged.created, tree, s.files⟩] }
  | (.error _, s) => s

/-- A call on a rejected tree is recorded, whether it returned or raised. -/
def recordRefusal (files : SourceFiles) (before : RevisionState) (result : StagingResult)
    (s : RevisionState) : Option Tree → RevisionState
  | none => { s with
      refusals := s.refusals ++ [⟨files, before.revisions, result.1, result.2.revisions⟩] }
  | some _ => s

/-- One event. -/
def revisionStep (project : Id) (s : RevisionState) : RevisionEvent → Option RevisionState
  | .stage files limits activateOnce fault now =>
    let tree := acceptedTree files limits
    let result := stageRevision project files limits fault now s
    some (recordRefusal files s result (recordCall tree activateOnce result) tree)
  | .refresh pk fault now =>
    some (recordCall (s.storedTree pk) false (refreshRevisionScriptFiles pk fault now s))
  | .declare files => some { s with files }
  | .lifecycle change => some { s with revisions := s.revisions.modifyAll change }
  | .elsewhere row => some { s with revisions := s.revisions.insert row }
  | .backend content => some { s with content }

/-! ## Identities -/

/-- What no lifecycle changes of a revision. -/
structure RevisionIdentity where
  project : Id
  digest : Option PyStr
  scriptFileDigest : PyStr
  manifest : List ManifestEntry

/-- The identity of a row. -/
def RevisionRow.identity (row : RevisionRow) : RevisionIdentity :=
  ⟨row.project, row.digest, row.scriptFileDigest, row.manifest⟩

/-- The identities of the revisions there are. -/
def RevisionState.identities (s : RevisionState) (i : Id) : Option RevisionIdentity :=
  (s.revisions.row i).map RevisionRow.identity

/-- What may happen between the calls on a project: declarations are as saves leave them, no
revision is deleted or becomes another, and the refreshed ones are the project's. -/
def Permitted (project : Id) (s : RevisionState) : RevisionEvent → Prop
  | .stage _ _ _ _ _ => True
  | .refresh pk _ _ => ∀ row, s.revisions.row pk = some row → row.project = project
  | .declare files => Declarations files
  | .lifecycle change => ∀ i row, (change i row).identity = row.identity
  | .elsewhere row => row.project ≠ project
  | .backend _ => True

/-! ## The invariant -/

/-- A project has one revision for a digest and a snapshot, and each digest is that of a manifest
of some tree. -/
structure DistinctIdentities (project : Id) (identities : Id → Option RevisionIdentity) :
    Prop where
  unique : ∀ i j a b, identities i = some a → identities j = some b → a.project = project →
    b.project = project → a.digest ≠ none → a.digest = b.digest →
      a.scriptFileDigest = b.scriptFileDigest → i = j
  described : ∀ i a digest, identities i = some a → a.project = project → a.digest = some digest →
    digest = manifestDigest a.manifest ∧ ∃ tree, Describes a.manifest tree

/-- What an identity says of the call that returned its row. -/
structure RevisionCall.Returned (call : RevisionCall) (project : Id) (identity : RevisionIdentity) :
    Prop where
  project_eq : identity.project = project
  declarations : Declarations call.files
  frozen : identity.scriptFileDigest = snapshotDigest (projectSnapshot project call.files)
  accepted : ∀ tree, call.tree = some tree →
    ∃ manifest, Describes manifest tree ∧ identity.digest = some (manifestDigest manifest)
  rejected : call.tree = none → identity.digest = none ∧ call.created = true

/-- The rows stand for what the calls that returned them were given, and a call that returned a
row once more did not create it. -/
structure Identified (project : Id) (s : RevisionState) : Prop where
  distinct : DistinctIdentities project s.identities
  declarations : Declarations s.files
  returned : ∀ call ∈ s.calls, ∃ identity, s.identities call.revision = some identity ∧
    call.Returned project identity
  later : s.calls.Pairwise fun call call' =>
    call.revision = call'.revision → call'.created = false

section Steps

variable {project pk : Id} {s s' : RevisionState} {row : RevisionRow} {staged : StagedRevision}
  {result : StagingResult} {digest : Option PyStr}

omit [Unicode] [Hashing] in
theorem identities_insert {i : Id} :
    ({ s with revisions := s.revisions.insert row } : RevisionState).identities i =
      if i = s.revisions.next then some row.identity else s.identities i := by
  simp only [RevisionState.identities, Table.row_insert]
  split_ifs <;> rfl

omit [Unicode] [Hashing] in
theorem identities_next : s.identities s.revisions.next = none := by
  rw [RevisionState.identities, Table.row_next, Option.map_none]

omit [Unicode] [Hashing] in
/-- A row that was there is there after an insertion. -/
theorem identities_insert_of_some {i : Id} {identity : RevisionIdentity}
    (h : s.identities i = some identity) :
    ({ s with revisions := s.revisions.insert row } : RevisionState).identities i =
      some identity := by
  rw [identities_insert, if_neg, h]
  rintro rfl
  rw [identities_next] at h
  cases h

omit [Unicode] [Hashing] in
/-- A status is no part of an identity. -/
theorem identities_settle {status : RevisionStatus} {errors : List ErrorRecord} :
    (s.settle pk status errors).identities = s.identities := by
  funext i
  simp only [RevisionState.identities, RevisionState.settle, Table.modify, Table.row_modifyAll,
    Option.map_map]
  congr 1
  funext row
  simp only [Function.comp_apply]
  split_ifs <;> rfl

omit [Unicode] [Hashing] in
theorem acceptSource_frame {activateOnce : Bool} :
    (s.acceptSource pk activateOnce).identities = s.identities ∧
      (s.acceptSource pk activateOnce).files = s.files := by
  unfold RevisionState.acceptSource
  split
  · exact ⟨rfl, rfl⟩
  · split_ifs
    · exact ⟨rfl, rfl⟩
    · exact ⟨rfl, rfl⟩

omit [Unicode] in
/-- A new row with an identity of its own. -/
theorem DistinctIdentities.insert (h : DistinctIdentities project s.identities)
    (hrow : row.project = project → ∀ digest, row.digest = some digest →
      (digest = manifestDigest row.manifest ∧ ∃ tree, Describes row.manifest tree) ∧
      ∀ i identity, s.identities i = some identity → identity.project = project →
        identity.digest = some digest → identity.scriptFileDigest ≠ row.scriptFileDigest) :
    DistinctIdentities project
      ({ s with revisions := s.revisions.insert row } : RevisionState).identities := by
  constructor
  · intro i j a b ha hb hap hbp hne hdigest hfrozen
    rw [identities_insert] at ha hb
    obtain ⟨digest, hsome⟩ := Option.ne_none_iff_exists'.mp hne
    split_ifs at ha hb with hi hj
    · exact hi.trans hj.symm
    · obtain rfl := Option.some.inj ha
      exact absurd hfrozen.symm ((hrow hap digest hsome).2 j b hb hbp (hdigest.symm.trans hsome))
    · obtain rfl := Option.some.inj hb
      exact absurd hfrozen ((hrow hbp digest (hdigest.symm.trans hsome)).2 i a ha hap hsome)
    · exact h.unique i j a b ha hb hap hbp hne hdigest hfrozen
  · intro i a digest ha hap hsome
    rw [identities_insert] at ha
    split_ifs at ha with hi
    · obtain rfl := Option.some.inj ha
      exact (hrow hap digest hsome).1
    · exact h.described i a digest ha hap hsome

omit [Unicode] [Hashing] in
/-- The row of an identity is found, or there was none and it is created. -/
theorem getOrCreate_cases (revisions : Table RevisionRow) (row : RevisionRow) :
    (∃ pk found, getOrCreate revisions row = (revisions, ⟨pk, false⟩) ∧
        revisions.row pk = some found ∧ found.SameIdentity row) ∨
      getOrCreate revisions row = (revisions.insert row, ⟨revisions.next, true⟩) ∧
        ∀ i found, revisions.row i = some found → ¬ found.SameIdentity row := by
  rw [getOrCreate]
  cases hfind : revisions.entries.find? fun revision => revision.2.SameIdentity row with
  | some found =>
    have hrow := Table.mem_entries.mp (List.mem_of_find?_eq_some hfind)
    exact .inl ⟨found.1, found.2, rfl, hrow, by simpa using List.find?_some hfind⟩
  | none =>
    refine .inr ⟨rfl, fun i found hrow hsame => ?_⟩
    have hnot := List.find?_eq_none.mp hfind (i, found) (Table.mem_entries.mpr hrow)
    exact hnot (decide_eq_true hsame)

/-- What a call leaves: the rows it found with at most one more, and for what it returns the
project's row of a digest and the present declarations. -/
structure CallOutcome (project : Id) (digest : Option PyStr) (s : RevisionState)
    (result : StagingResult) : Prop where
  files : result.2.files = s.files
  calls : result.2.calls = s.calls
  refusals : result.2.refusals = s.refusals
  distinct : DistinctIdentities project result.2.identities
  kept : ∀ i identity, s.identities i = some identity → result.2.identities i = some identity
  fresh : ∀ staged, result.1 = .ok staged → staged.created = true →
    s.identities staged.revision = none
  created : ∀ staged, result.1 = .ok staged → digest = none → staged.created = true
  returned : ∀ staged, result.1 = .ok staged →
    ∃ identity, result.2.identities staged.revision = some identity ∧
      identity.project = project ∧ identity.digest = digest ∧
      identity.scriptFileDigest = snapshotDigest (projectSnapshot project s.files)

omit [Unicode] in
/-- A call that raises at once. -/
theorem CallOutcome.raised (h : DistinctIdentities project s.identities)
    (failure : StagingFailure) : CallOutcome project digest s (.error failure, s) :=
  ⟨rfl, rfl, rfl, h, fun _ _ h => h, nofun, nofun, nofun⟩

/-- What settling a row leaves: only statuses and content change. -/
structure SettledAs (staged : StagedRevision) (s : RevisionState) (result : StagingResult) :
    Prop where
  ok : ∀ staged', result.1 = .ok staged' → staged' = staged
  files : result.2.files = s.files
  calls : result.2.calls = s.calls
  refusals : result.2.refusals = s.refusals
  identities : result.2.identities = s.identities

theorem writeStaged_settled (files : SourceFiles) (fault : StorageFault) :
    SettledAs staged s (writeStaged files fault staged row s) := by
  have hcontent : ∀ (s : RevisionState) (content : PyStr → Tree),
      ({ s with content } : RevisionState).identities = s.identities := fun _ _ => rfl
  unfold writeStaged
  dsimp only
  split
  · exact ⟨nofun, rfl, rfl, rfl, identities_settle⟩
  · exact ⟨nofun, rfl, rfl, rfl, by simp only [identities_settle]⟩
  · split
    · refine ⟨fun _ h => (Except.ok.inj h).symm, rfl, rfl, rfl, ?_⟩
      simp only [identities_settle, hcontent]
    · exact ⟨nofun, rfl, rfl, rfl, by simp only [identities_settle, hcontent]⟩
    · exact ⟨nofun, rfl, rfl, rfl, by simp only [identities_settle, hcontent]⟩

theorem settleStaged_settled (files : SourceFiles) (fault : StorageFault) :
    SettledAs staged s (settleStaged files fault staged s) := by
  unfold settleStaged
  split
  · exact ⟨nofun, rfl, rfl, rfl, rfl⟩
  · split_ifs
    · split
      · exact ⟨fun _ h => (Except.ok.inj h).symm, rfl, rfl, rfl, rfl⟩
      · exact ⟨nofun, rfl, rfl, rfl, rfl⟩
      · exact ⟨nofun, rfl, rfl, rfl, rfl⟩
    · exact ⟨fun _ h => (Except.ok.inj h).symm, rfl, rfl, rfl, rfl⟩
    · exact writeStaged_settled files fault

omit [Unicode] [Hashing] in
theorem settleVerified_settled : SettledAs staged s (settleVerified staged s) := by
  unfold settleVerified
  split
  · exact ⟨nofun, rfl, rfl, rfl, rfl⟩
  · split_ifs
    · exact ⟨fun _ h => (Except.ok.inj h).symm, rfl, rfl, rfl, identities_settle⟩
    · exact ⟨fun _ h => (Except.ok.inj h).symm, rfl, rfl, rfl, rfl⟩

omit [Unicode] in
/-- A row found or created for an identity, and then settled. -/
theorem CallOutcome.of_getOrCreate (h : DistinctIdentities project s.identities)
    {manifest : List ManifestEntry} {tree : Tree} (hdescribes : Describes manifest tree)
    (hproject : row.project = project) (hdigest : row.digest = some (manifestDigest manifest))
    (hmanifest : row.manifest = manifest)
    (hfrozen : row.scriptFileDigest = snapshotDigest (projectSnapshot project s.files))
    (hsettled : SettledAs (getOrCreate s.revisions row).2
      { s with revisions := (getOrCreate s.revisions row).1 } result) :
    CallOutcome project (some (manifestDigest manifest)) s result := by
  rcases getOrCreate_cases s.revisions row with ⟨pk, found, heq, hfound, hsame⟩ | ⟨heq, hnone⟩
  · rw [heq] at hsettled
    have hids : result.2.identities = s.identities := hsettled.identities
    refine ⟨hsettled.files, hsettled.calls, hsettled.refusals, hids ▸ h,
      fun i identity hi => hids ▸ hi,
      fun staged hok hcreated => ?_, fun _ _ => nofun, fun staged hok => ?_⟩
    · rw [hsettled.ok staged hok] at hcreated
      cases hcreated
    · rw [hsettled.ok staged hok, hids]
      refine ⟨found.identity, ?_, hsame.1.trans hproject, hsame.2.1.trans hdigest,
        hsame.2.2.trans hfrozen⟩
      rw [RevisionState.identities, hfound, Option.map_some]
  · rw [heq] at hsettled
    have hids := hsettled.identities
    have hdistinct : DistinctIdentities project
        ({ s with revisions := s.revisions.insert row } : RevisionState).identities := by
      refine h.insert fun _ digest hsome => ?_
      rw [hdigest, Option.some_inj] at hsome
      subst hsome
      refine ⟨⟨by rw [hmanifest], tree, hmanifest ▸ hdescribes⟩, ?_⟩
      intro i identity hi hp hd hf
      obtain ⟨other, hother, rfl⟩ := Option.map_eq_some_iff.mp hi
      exact hnone i other hother ⟨hp.trans hproject.symm, hd.trans hdigest.symm, hf⟩
    refine ⟨hsettled.files, hsettled.calls, hsettled.refusals, hids ▸ hdistinct,
      fun i identity hi => ?_,
      fun staged hok _ => ?_, fun _ _ => nofun, fun staged hok => ?_⟩
    · rw [hids]
      exact identities_insert_of_some hi
    · rw [hsettled.ok staged hok]
      exact identities_next
    · rw [hsettled.ok staged hok, hids, identities_insert, if_pos rfl]
      exact ⟨_, rfl, hproject, hdigest, hfrozen⟩

/-- A staging call: a rejected tree gets a row of its own, any other the row of its digest. -/
theorem stageRevision_outcome (h : Identified project s) (files : SourceFiles)
    (limits : StorageLimits) (fault : StorageFault) (now : Time) :
    ∃ digest, CallOutcome project digest s (stageRevision project files limits fault now s) ∧
      ((acceptedTree files limits = none ∧ digest = none) ∨
        ∃ tree manifest, acceptedTree files limits = some tree ∧ Describes manifest tree ∧
          digest = some (manifestDigest manifest)) := by
  unfold stageRevision acceptedTree
  cases hbuild : buildManifest files limits with
  | error failure => exact ⟨none, CallOutcome.raised h.distinct _, .inl ⟨rfl, rfl⟩⟩
  | ok built =>
    obtain ⟨entries, errors⟩ := built
    cases errors with
    | nil =>
      have hdescribes := (buildManifest_builtFrom hbuild).describes
      refine ⟨some (manifestDigest entries), ?_, .inr ⟨_, entries, rfl, hdescribes, rfl⟩⟩
      exact CallOutcome.of_getOrCreate h.distinct hdescribes rfl rfl rfl rfl
        (settleStaged_settled files fault)
    | cons error errors =>
      refine ⟨none, ?_, .inl ⟨rfl, rfl⟩⟩
      dsimp only
      rw [if_pos (List.cons_ne_nil _ _)]
      cases storedErrors (error :: errors) with
      | none => exact CallOutcome.raised h.distinct _
      | some stored =>
        refine ⟨rfl, rfl, rfl, h.distinct.insert fun _ _ => nofun, fun i identity hi => ?_,
          fun staged hok _ => ?_, fun staged hok _ => ?_, fun staged hok => ?_⟩
        · exact identities_insert_of_some hi
        · obtain rfl := Except.ok.inj hok
          exact identities_next
        · obtain rfl := Except.ok.inj hok
          rfl
        · obtain rfl := Except.ok.inj hok
          rw [identities_insert, if_pos rfl]
          exact ⟨_, rfl, rfl, rfl, rfl⟩

omit [Unicode] in
/-- A verified tree holds what the manifest records. -/
theorem verifyStored_intact {fault : StorageFault} {manifest : List ManifestEntry} {content : Tree}
    (hverified : verifyStored fault manifest content = .ok ()) :
    ∀ entry ∈ manifest, ∃ bytes, content entry.path = some bytes ∧ Intact bytes entry := by
  intro entry hentry
  rw [verifyStored] at hverified
  split_ifs at hverified with hfault hall
  have hentry' := List.all_eq_true.mp hall entry hentry
  rw [Option.any_eq_true] at hentry'
  obtain ⟨bytes, hbytes, hok⟩ := hentry'
  exact ⟨bytes, hbytes, of_decide_eq_true hok⟩

omit [Unicode] in
/-- A tree that holds what the manifest records is verified. -/
theorem verifyStored_of_intact {manifest : List ManifestEntry} {content : Tree}
    (h : ∀ entry ∈ manifest, ∃ bytes, content entry.path = some bytes ∧ Intact bytes entry) :
    verifyStored .none manifest content = .ok () := by
  rw [verifyStored, if_neg (by decide), if_pos]
  rw [List.all_eq_true]
  intro entry hentry
  obtain ⟨bytes, hbytes, hintact⟩ := h entry hentry
  rw [hbytes, Option.any_some]
  exact decide_eq_true hintact

omit [Unicode] in
/-- A verified tree is the one the manifest describes. -/
theorem verifyStored_describes {fault : StorageFault} {manifest : List ManifestEntry}
    {tree content : Tree} (h : Describes manifest tree)
    (hverified : verifyStored fault manifest content = .ok ()) :
    Describes manifest fun path =>
      if path ∈ manifest.map ManifestEntry.path then content path else none := by
  have hintact := verifyStored_intact hverified
  refine ⟨h.readable, h.nodup, fun path => ?_⟩
  split_ifs with hpath
  · obtain ⟨entry, hentry, rfl⟩ := List.mem_map.mp hpath
    obtain ⟨bytes, hbytes, hsize, hsha⟩ := hintact entry hentry
    rw [hbytes]
    refine (fileAt_eq_some_iff h.nodup).mpr ⟨entry, hentry, rfl, ?_⟩
    rw [← hsize, ← hsha]
    rfl
  · rw [Option.map_none, Option.eq_none_iff_forall_ne_some]
    intro data hdata
    obtain ⟨entry, hentry, rfl, -⟩ := (fileAt_eq_some_iff h.nodup).mp hdata
    exact hpath (List.mem_map_of_mem hentry)

/-- A refreshing call: the row of the source's digest, whose content it has verified. -/
theorem refreshRevision_outcome (h : Identified project s)
    (hproject : ∀ row, s.revisions.row pk = some row → row.project = project)
    (fault : StorageFault) (now : Time) :
    ∃ digest, CallOutcome project digest s (refreshRevisionScriptFiles pk fault now s) ∧
      ∀ staged, (refreshRevisionScriptFiles pk fault now s).1 = .ok staged →
        ∃ tree manifest, s.storedTree pk = some tree ∧ Describes manifest tree ∧
          digest = some (manifestDigest manifest) := by
  have hraised : ∀ failure : StagingFailure, ∃ digest,
      CallOutcome project digest s (.error failure, s) ∧
      ∀ staged, (Except.error failure : Except StagingFailure StagedRevision) = .ok staged →
        ∃ tree manifest, s.storedTree pk = some tree ∧ Describes manifest tree ∧
          digest = some (manifestDigest manifest) :=
    fun failure => ⟨none, CallOutcome.raised h.distinct failure, nofun⟩
  unfold refreshRevisionScriptFiles
  cases hrow : s.revisions.row pk with
  | none => exact hraised _
  | some source =>
    dsimp only
    cases hdigest : source.digest with
    | none => exact hraised _
    | some digest =>
      have hids : s.identities pk = some source.identity := by
        rw [RevisionState.identities, hrow, Option.map_some]
      obtain ⟨hsource, tree, hdescribes⟩ := h.distinct.described pk source.identity digest hids
        (hproject source hrow) hdigest
      dsimp only
      cases hvalid : validatedManifest source with
      | error failure => exact hraised _
      | ok =>
        cases hverified : verifyStored fault source.manifest (s.content digest) with
        | error failure => exact hraised _
        | ok =>
          refine ⟨some (manifestDigest source.manifest), ?_, fun _ _ => ⟨_, source.manifest, ?_,
            verifyStored_describes hdescribes hverified, rfl⟩⟩
          · obtain rfl := hproject source hrow
            apply CallOutcome.of_getOrCreate h.distinct hdescribes ?_ ?_ ?_ ?_ settleVerified_settled
            · rfl
            · exact congrArg some hsource
            · rfl
            · rfl
          · rw [RevisionState.storedTree, hrow, Option.map_some, hdigest]
            rfl

/-- A call that returned is recorded with what its row says of it. -/
theorem CallOutcome.recordCall (h : Identified project s) {tree : Option Tree} (activateOnce : Bool)
    (houtcome : CallOutcome project digest s result)
    (htree : ∀ staged, result.1 = .ok staged → (tree = none ∧ digest = none) ∨
      ∃ described manifest, tree = some described ∧ Describes manifest described ∧
        digest = some (manifestDigest manifest)) :
    Identified project (recordCall tree activateOnce result) := by
  have hreturned : ∀ call ∈ s.calls, ∃ identity,
      result.2.identities call.revision = some identity ∧ call.Returned project identity := by
    intro call hcall
    obtain ⟨identity, hidentity, hreturned⟩ := h.returned call hcall
    exact ⟨identity, houtcome.kept _ _ hidentity, hreturned⟩
  obtain ⟨outcome, s'⟩ := result
  have hdeclarations : Declarations s'.files := houtcome.files ▸ h.declarations
  cases outcome with
  | error failure =>
    exact ⟨houtcome.distinct, hdeclarations, houtcome.calls ▸ hreturned, houtcome.calls ▸ h.later⟩
  | ok staged =>
    have hframe := @acceptSource_frame staged.revision s' activateOnce
    obtain ⟨identity, hidentity, hproject, hdigest, hfrozen⟩ := houtcome.returned staged rfl
    have hids : (NetBoxScripts.recordCall tree activateOnce (.ok staged, s')).identities =
        s'.identities := hframe.1
    have hcalls : (NetBoxScripts.recordCall tree activateOnce (.ok staged, s')).calls =
        s.calls ++ [⟨staged.revision, staged.created, tree, s.files⟩] := by
      rw [← houtcome.calls, ← houtcome.files]
      rfl
    refine ⟨hids ▸ houtcome.distinct, hframe.2 ▸ hdeclarations, ?_, ?_⟩
    · rw [hcalls, hids]
      intro call hcall
      rcases List.mem_append.mp hcall with hcall | hcall
      · exact hreturned call hcall
      · obtain rfl := List.mem_singleton.mp hcall
        refine ⟨identity, hidentity, hproject, h.declarations, hfrozen, ?_, ?_⟩
        · intro described hdescribed
          rcases htree staged rfl with ⟨hnone, -⟩ | ⟨described', manifest, hsome, hdescribes, heq⟩
          · cases hdescribed.symm.trans hnone
          · obtain rfl := Option.some.inj (hdescribed.symm.trans hsome)
            exact ⟨manifest, hdescribes, hdigest.trans heq⟩
        · intro hnone
          rcases htree staged rfl with ⟨-, heq⟩ | ⟨described, manifest, hsome, -, -⟩
          · exact ⟨hdigest.trans heq, houtcome.created staged rfl heq⟩
          · cases hnone.symm.trans hsome
    · rw [hcalls, List.pairwise_append]
      refine ⟨h.later, List.pairwise_singleton _ _, fun call hcall call' hcall' hsame => ?_⟩
      obtain rfl := List.mem_singleton.mp hcall'
      -- the row of an earlier call was there before this one
      obtain ⟨earlier, hearlier, -⟩ := h.returned call hcall
      rw [Bool.eq_false_iff]
      intro hcreated
      have hnone := houtcome.fresh staged rfl hcreated
      rw [show call.revision = staged.revision from hsame, hnone] at hearlier
      cases hearlier

/-- **Every event** keeps the identities told apart. -/
theorem revisionStep_identified {event : RevisionEvent} (h : Identified project s)
    (hpermitted : Permitted project s event) (hstep : revisionStep project s event = some s') :
    Identified project s' := by
  cases event with
  | stage files limits activateOnce fault now =>
    obtain rfl := Option.some.inj hstep
    obtain ⟨digest, houtcome, htree⟩ := stageRevision_outcome h files limits fault now
    have hrecorded := houtcome.recordCall h activateOnce fun _ _ => htree
    cases htree : acceptedTree files limits with
    | none =>
      rw [htree] at hrecorded
      exact ⟨hrecorded.distinct, hrecorded.declarations, hrecorded.returned, hrecorded.later⟩
    | some tree =>
      rw [htree] at hrecorded
      exact hrecorded
  | refresh pk fault now =>
    obtain rfl := Option.some.inj hstep
    obtain ⟨digest, houtcome, htree⟩ := refreshRevision_outcome h hpermitted fault now
    exact houtcome.recordCall h false fun staged hok => .inr (htree staged hok)
  | declare files =>
    obtain rfl := Option.some.inj hstep
    exact ⟨h.distinct, hpermitted, h.returned, h.later⟩
  | lifecycle change =>
    obtain rfl := Option.some.inj hstep
    have hids : ({ s with revisions := s.revisions.modifyAll change } :
        RevisionState).identities = s.identities := by
      funext i
      simp only [RevisionState.identities, Table.row_modifyAll, Option.map_map]
      congr 1
      funext row
      exact hpermitted i row
    exact ⟨hids ▸ h.distinct, h.declarations, hids ▸ h.returned, h.later⟩
  | elsewhere row =>
    obtain rfl := Option.some.inj hstep
    refine ⟨h.distinct.insert fun heq => absurd heq hpermitted, h.declarations, ?_, h.later⟩
    intro call hcall
    obtain ⟨identity, hidentity, hreturned⟩ := h.returned call hcall
    exact ⟨identity, identities_insert_of_some hidentity, hreturned⟩
  | backend content =>
    obtain rfl := Option.some.inj hstep
    exact ⟨h.distinct, h.declarations, h.returned, h.later⟩

/-! ## Runs -/

/-- A project without revisions and without calls. -/
theorem Identified.start (hcalls : s.calls = []) (hfiles : Declarations s.files)
    (hrows : ∀ i row, s.revisions.row i = some row → row.project ≠ project) :
    Identified project s := by
  have hnone : ∀ i identity, s.identities i = some identity → identity.project ≠ project := by
    intro i identity hi
    obtain ⟨row, hrow, rfl⟩ := Option.map_eq_some_iff.mp hi
    exact hrows i row hrow
  refine ⟨⟨?_, ?_⟩, hfiles, ?_, ?_⟩
  · exact fun i j a b ha _ hap => absurd hap (hnone i a ha)
  · exact fun i a digest ha hap => absurd hap (hnone i a ha)
  · simp [hcalls]
  · simp [hcalls]

/-- Two calls in the order they were made: their rows are one exactly for one tree under one set
of enabled declarations, and then the later one created none; the row of a rejected tree is
returned once. -/
structure ToldApart (project : Id) (earlier later : RevisionCall) : Prop where
  same_iff : ∀ tree tree', earlier.tree = some tree → later.tree = some tree' →
    (earlier.revision = later.revision ↔
      tree = tree' ∧ declaredIn project earlier.files = declaredIn project later.files)
  not_created : ∀ tree, earlier.tree = some tree → later.tree = some tree →
    declaredIn project earlier.files = declaredIn project later.files → later.created = false
  rejected : earlier.tree = none ∨ later.tree = none → earlier.revision ≠ later.revision

/-- The rows of accepted trees are one exactly for one tree and one set of declarations. -/
theorem Identified.same_iff (hfree : CollisionFree) (h : Identified project s)
    {earlier later : RevisionCall} (hearlier : earlier ∈ s.calls) (hlater : later ∈ s.calls)
    {tree tree' : Tree} (htree : earlier.tree = some tree) (htree' : later.tree = some tree') :
    earlier.revision = later.revision ↔
      tree = tree' ∧ declaredIn project earlier.files = declaredIn project later.files := by
  obtain ⟨a, ha, hreturned⟩ := h.returned earlier hearlier
  obtain ⟨b, hb, hreturned'⟩ := h.returned later hlater
  obtain ⟨manifest, hdescribes, hdigest⟩ := hreturned.accepted tree htree
  obtain ⟨manifest', hdescribes', hdigest'⟩ := hreturned'.accepted tree' htree'
  have hfrozen := @projectSnapshot_digest_eq_iff _ _ project _ _ hfree
    hreturned.declarations hreturned'.declarations
  rw [← hdescribes.manifestDigest_eq_iff hfree hdescribes', ← hfrozen, ← hreturned.frozen,
    ← hreturned'.frozen]
  constructor
  · intro heq
    obtain rfl : a = b := by
      rw [heq, hb] at ha
      exact (Option.some.inj ha).symm
    exact ⟨Option.some.inj (hdigest.symm.trans hdigest'), rfl⟩
  · rintro ⟨hsame, hfrozen⟩
    apply h.distinct.unique _ _ a b ha hb hreturned.project_eq hreturned'.project_eq
    · simp [hdigest]
    · rw [hdigest, hdigest', hsame]
    · exact hfrozen

/-- The row of a rejected tree is no other call's. -/
theorem Identified.rejected (h : Identified project s) {earlier later : RevisionCall}
    (hearlier : earlier ∈ s.calls) (hlater : later ∈ s.calls)
    (hcreated : earlier.revision = later.revision → later.created = false)
    (hnone : earlier.tree = none ∨ later.tree = none) : earlier.revision ≠ later.revision := by
  intro heq
  obtain ⟨a, ha, hreturned⟩ := h.returned earlier hearlier
  obtain ⟨b, hb, hreturned'⟩ := h.returned later hlater
  obtain rfl : a = b := by
    rw [heq, hb] at ha
    exact (Option.some.inj ha).symm
  -- the later tree is not a rejected one, which is created
  cases htree : later.tree with
  | none => exact Bool.false_ne_true ((hcreated heq).symm.trans (hreturned'.rejected htree).2)
  | some tree =>
    obtain ⟨manifest, -, hdigest⟩ := hreturned'.accepted tree htree
    rcases hnone with hnone | hnone
    · cases (hreturned.rejected hnone).1.symm.trans hdigest
    · cases hnone.symm.trans htree

/-- A rejected tree whose paths can be recorded gets a row of its own. -/
theorem stageRevision_anew (laws : UnicodeLaws) (hkeeps : NfcKeeps) {files : SourceFiles}
    {limits : StorageLimits} (hrejected : acceptedTree files limits = none)
    (hrecordable : Recordable files) (project : Id) (fault : StorageFault) (now : Time)
    (s : RevisionState) :
    ∃ row, row.digest = none ∧ row.status = .invalid ∧
      stageRevision project files limits fault now s =
        (.ok ⟨s.revisions.next, true⟩, { s with revisions := s.revisions.insert row }) := by
  obtain ⟨entries, errors, hbuild, hstored⟩ := (recordable_iff laws hkeeps).mp hrecordable
  obtain ⟨stored, hstored⟩ := Option.isSome_iff_exists.mp hstored
  have herrors : errors ≠ [] := by
    rintro rfl
    rw [acceptedTree, hbuild] at hrejected
    cases hrejected
  rw [stageRevision, hbuild]
  dsimp only
  rw [if_pos herrors, hstored]
  exact ⟨_, rfl, rfl, rfl⟩

/-- A rejected tree with a path that cannot be recorded gets none: the call raises. -/
theorem stageRevision_raises (laws : UnicodeLaws) (hkeeps : NfcKeeps) {files : SourceFiles}
    {limits : StorageLimits} (hrejected : acceptedTree files limits = none)
    (hnot : ¬ Recordable files) (project : Id) (fault : StorageFault) (now : Time)
    (s : RevisionState) :
    ∃ failure, stageRevision project files limits fault now s = (.error failure, s) := by
  rw [stageRevision]
  cases hbuild : buildManifest files limits with
  | error failure => exact ⟨_, rfl⟩
  | ok built =>
    obtain ⟨entries, errors⟩ := built
    have herrors : errors ≠ [] := by
      rintro rfl
      rw [acceptedTree, hbuild] at hrejected
      cases hrejected
    dsimp only
    rw [if_pos herrors]
    cases hstored : storedErrors errors with
    | none => exact ⟨_, rfl⟩
    | some stored =>
      refine absurd ?_ hnot
      exact (recordable_iff laws hkeeps).mpr ⟨entries, errors, hbuild, by rw [hstored]; rfl⟩

/-- The call is one of those that returned, and its row is new and without a digest. -/
def Refusal.Anew (refusal : Refusal) (calls : List RevisionCall) : Prop :=
  ∃ call ∈ calls, call.tree = none ∧ refusal.outcome = .ok ⟨call.revision, true⟩ ∧
    refusal.before.row call.revision = none ∧
    ∃ row, refusal.after.row call.revision = some row ∧ row.digest = none ∧ row.status = .invalid

/-- Each rejected tree so far has a row of its own, or its call raised. -/
def RefusalsKept (s : RevisionState) : Prop :=
  ∀ refusal ∈ s.refusals, (Recordable refusal.files → refusal.Anew s.calls) ∧
    (¬ Recordable refusal.files → ∃ failure, refusal.outcome = .error failure)

omit [Unicode] [Hashing] in
theorem Refusal.Anew.mono {refusal : Refusal} {calls calls' : List RevisionCall}
    (h : refusal.Anew calls) (hsub : calls ⊆ calls') : refusal.Anew calls' := by
  obtain ⟨call, hcall, hanew⟩ := h
  exact ⟨call, hsub hcall, hanew⟩

omit [Hashing] in
/-- Calls that return leave the earlier rejected trees as they are. -/
theorem RefusalsKept.mono (h : RefusalsKept s) (hrefusals : s'.refusals = s.refusals)
    (hcalls : s.calls ⊆ s'.calls) : RefusalsKept s' := by
  intro refusal hrefusal
  rw [hrefusals] at hrefusal
  exact (h refusal hrefusal).imp_left fun hanew hrecordable => (hanew hrecordable).mono hcalls

omit [Unicode] in
/-- A call adds to the calls that returned, and to no rejected trees. -/
theorem CallOutcome.record (h : CallOutcome project digest s result) (tree : Option Tree)
    (activateOnce : Bool) :
    (NetBoxScripts.recordCall tree activateOnce result).refusals = s.refusals ∧
      s.calls ⊆ (NetBoxScripts.recordCall tree activateOnce result).calls := by
  have hcalls := h.calls
  have hrefusals := h.refusals
  obtain ⟨outcome, s'⟩ := result
  cases outcome with
  | error failure => exact ⟨hrefusals, hcalls ▸ List.Subset.refl _⟩
  | ok staged =>
    have hframe : ∀ pk, (s'.acceptSource pk activateOnce).refusals = s'.refusals := by
      intro pk
      unfold RevisionState.acceptSource
      split
      · rfl
      · split_ifs <;> rfl
    refine ⟨(hframe _).trans hrefusals, ?_⟩
    rw [← hcalls]
    exact List.subset_append_left _ _

/-- **Every event** keeps the rows of the rejected trees. -/
theorem revisionStep_refused (laws : UnicodeLaws) (hkeeps : NfcKeeps) {event : RevisionEvent}
    (hidentified : Identified project s) (h : RefusalsKept s) (hpermitted : Permitted project s event)
    (hstep : revisionStep project s event = some s') : RefusalsKept s' := by
  cases event with
  | stage files limits activateOnce fault now =>
    obtain rfl := Option.some.inj hstep
    obtain ⟨digest, houtcome, -⟩ := stageRevision_outcome hidentified files limits fault now
    obtain ⟨hrefusals, hcalls⟩ := houtcome.record (acceptedTree files limits) activateOnce
    cases htree : acceptedTree files limits with
    | some tree =>
      rw [htree] at hrefusals hcalls
      exact h.mono hrefusals hcalls
    | none =>
      rw [htree] at hrefusals hcalls
      intro refusal hrefusal
      rcases List.mem_append.mp hrefusal with hrefusal | hrefusal
      · obtain ⟨hanew, hlost⟩ := h refusal (hrefusals ▸ hrefusal)
        exact ⟨fun hrecordable => (hanew hrecordable).mono hcalls, hlost⟩
      · obtain rfl := List.mem_singleton.mp hrefusal
        constructor
        · intro hrecordable
          obtain ⟨row, hdigest, hstatus, hcall⟩ :=
            stageRevision_anew laws hkeeps htree hrecordable project fault now s
          refine ⟨⟨s.revisions.next, true, none, s.files⟩, ?_, rfl, ?_, Table.row_next, row, ?_,
            hdigest, hstatus⟩
          · rw [hcall]
            exact List.mem_append_right _ List.mem_cons_self
          · rw [hcall]
          · rw [hcall]
            exact Table.row_insert_next
        · intro hnot
          obtain ⟨failure, hcall⟩ := stageRevision_raises laws hkeeps htree hnot project fault now s
          exact ⟨failure, by rw [hcall]⟩
  | refresh pk fault now =>
    obtain rfl := Option.some.inj hstep
    obtain ⟨digest, houtcome, -⟩ := refreshRevision_outcome hidentified hpermitted fault now
    obtain ⟨hrefusals, hcalls⟩ := houtcome.record (s.storedTree pk) false
    exact h.mono hrefusals hcalls
  | declare files | lifecycle change | elsewhere row | backend content =>
    obtain rfl := Option.some.inj hstep
    exact h

/-- **Calls told apart**: one row is returned exactly for one tree under one set of enabled
declarations, the rows without a digest are those of rejected trees, and each rejected tree has a
new one. -/
structure StagedApart (project : Id) (s : RevisionState) : Prop where
  told_apart : s.calls.Pairwise (ToldApart project)
  digests : ∀ call ∈ s.calls, ∃ row, s.revisions.row call.revision = some row ∧
    (row.digest = none ↔ call.tree = none)
  anew : ∀ refusal ∈ s.refusals, refusal.Anew s.calls

/-- **Identities of staged revisions**: a run tells its calls apart exactly where the paths of every
rejected tree can be recorded. -/
theorem stagedRevisions_apart_iff (laws : UnicodeLaws) (hkeeps : NfcKeeps) (hfree : CollisionFree)
    {project : Id} {start s : RevisionState} (hcalls : start.calls = [])
    (hrefusals : start.refusals = []) (hfiles : Declarations start.files)
    (hrows : ∀ i row, start.revisions.row i = some row → row.project ≠ project)
    (h : Trace (revisionStep project) (Permitted project) start s) :
    StagedApart project s ↔ ∀ refusal ∈ s.refusals, Recordable refusal.files := by
  have hstart : Identified project start ∧ RefusalsKept start := by
    refine ⟨Identified.start hcalls hfiles hrows, ?_⟩
    rw [RefusalsKept, hrefusals]
    exact List.forall_mem_nil _
  obtain ⟨hidentified, hrefused⟩ := h.invariant
    (I := fun s => Identified project s ∧ RefusalsKept s)
    hstart fun _ _ _ h hpermitted hstep => ⟨revisionStep_identified h.1 hpermitted hstep,
      revisionStep_refused laws hkeeps h.1 h.2 hpermitted hstep⟩
  constructor
  · intro hapart refusal hrefusal
    by_contra hnot
    obtain ⟨failure, hfailure⟩ := (hrefused refusal hrefusal).2 hnot
    obtain ⟨call, -, -, hok, -⟩ := hapart.anew refusal hrefusal
    cases hfailure.symm.trans hok
  · intro hrecordable
    refine ⟨hidentified.later.imp_of_mem fun hearlier hlater hcreated => ⟨?_, ?_, ?_⟩,
      fun call hcall => ?_, fun refusal hrefusal =>
        (hrefused refusal hrefusal).1 (hrecordable refusal hrefusal)⟩
    · intro tree tree' htree htree'
      exact hidentified.same_iff hfree hearlier hlater htree htree'
    · intro tree htree htree' hdeclared
      exact hcreated ((hidentified.same_iff hfree hearlier hlater htree htree').mpr
        ⟨rfl, hdeclared⟩)
    · exact hidentified.rejected hearlier hlater hcreated
    · obtain ⟨identity, hidentity, hreturned⟩ := hidentified.returned call hcall
      obtain ⟨row, hrow, rfl⟩ := Option.map_eq_some_iff.mp hidentity
      refine ⟨row, hrow, fun hdigest => ?_, fun hnone => (hreturned.rejected hnone).1⟩
      rw [Option.eq_none_iff_forall_ne_some]
      intro tree htree
      obtain ⟨manifest, -, hsome⟩ := hreturned.accepted tree htree
      cases hdigest.symm.trans hsome

end Steps

/-! ## Two spellings of one tree -/

/-- A hash that tells all contents apart, with the real one of `x`. -/
@[reducible] def spelledHashing : Hashing where
  sha256 content := if content = [120] then py hashOfX
    else 120 :: content.flatMap fun b => [b.toNat / 16, b.toNat % 16]

omit [Unicode] [Hashing] in
theorem collisionFree_spelledHashing : @CollisionFree spelledHashing := by
  have hspelled : ∀ a b : Bytes, (a.flatMap fun b => [b.toNat / 16, b.toNat % 16]) =
      b.flatMap (fun b => [b.toNat / 16, b.toNat % 16]) → a = b := by
    intro a
    induction a with
    | nil =>
      intro b h
      cases b with
      | nil => rfl
      | cons y b => simp at h
    | cons x a ih =>
      intro b h
      cases b with
      | nil => simp at h
      | cons y b =>
        simp only [List.flatMap_cons, List.cons_append, List.nil_append, List.cons.injEq] at h
        obtain ⟨hhigh, hlow, hrest⟩ := h
        have hbyte : x.toNat = y.toNat := by omega
        rw [ih b hrest, UInt8.toNat_inj.mp hbyte]
  have hhead : ∀ rest : PyStr, py hashOfX ≠ 120 :: rest := by
    intro rest heq
    have hfirst : (py hashOfX).head? = some 50 := by decide
    rw [heq] at hfirst
    cases hfirst
  refine @CollisionFree.mk spelledHashing (fun a b h => ?_) fun content c hc => ?_
  · change ite _ _ _ = ite _ _ _ at h
    split_ifs at h with ha hb hb
    · rw [ha, hb]
    · exact absurd h (hhead _)
    · exact absurd h.symm (hhead _)
    · exact hspelled a b (List.cons.inj h).2
  · change c ∈ ite _ _ _ at hc
    split_ifs at hc with hx
    · revert c
      decide
    · simp only [List.mem_cons, List.mem_flatMap, List.not_mem_nil, or_false] at hc
      rcases hc with rfl | ⟨b, -, rfl | rfl⟩
      · decide
      · have := b.toNat_lt
        omega
      · omega

/-- A project before its first call. -/
def unstagedProject : RevisionState :=
  ⟨.startingAt 1, .startingAt 1, fun _ _ => none, none, false, [], []⟩

/-- Stages a mapping of one path to the byte `x`. -/
def stageOne (path : PyStr) (now : Time) : RevisionEvent :=
  .stage (oneFile path) ⟨10, 10, 10⟩ false .none now

omit [Unicode] [Hashing] in
/-- `a.py`, the same file as `./a.py`, and a source that is rejected. -/
theorem stagedRevisions_apart_iff_spellings :
    ∃ s : RevisionState, s.calls.map (fun call => (call.revision, call.created)) =
        [(1, true), (1, false), (2, true)] ∧ StagedApart 7 s := by
  let step := @revisionStep asciiUnicode spelledHashing 7
  have hfiles : @Declarations asciiUnicode (.startingAt 1) :=
    @Declarations.mk asciiUnicode _ Nat.one_pos nofun nofun nofun
  have hrun : ∃ s, Trace step (@Permitted asciiUnicode 7) unstagedProject s ∧
      s.calls.map (fun call => (call.revision, call.created)) =
        [(1, true), (1, false), (2, true)] ∧
      s.refusals.map (fun refusal => refusal.files.items) = [[(py "..", [120])]] := by
    refine ⟨_, ((Trace.start.next (e := stageOne (py "a.py") 0) trivial rfl).next
      (e := stageOne (py "./a.py") 1) trivial rfl).next (e := stageOne (py "..") 2) trivial rfl,
      ?_, ?_⟩
    · decide +kernel
    · decide +kernel
  obtain ⟨s, hs, hcalls, hrefusals⟩ := hrun
  refine ⟨s, hcalls, (@stagedRevisions_apart_iff asciiUnicode spelledHashing unicodeLaws_ascii
    nfcKeeps_ascii collisionFree_spelledHashing 7 unstagedProject s rfl rfl hfiles nofun hs).mpr ?_⟩
  intro refusal hrefusal
  obtain ⟨refusal', heq, hitems⟩ := List.map_eq_singleton_iff.mp hrefusals
  obtain rfl : refusal = refusal' := by simpa [heq] using hrefusal
  refine @Recordable.mk asciiUnicode _ ?_ ?_
  · rw [hitems]
    decide
  · rw [hitems]
    decide

omit [Unicode] [Hashing] in
/-- U+0000 in a path: the tree is rejected, and has no row. -/
theorem stagedRevisions_not_apart :
    ∃ s : RevisionState, Trace (@revisionStep asciiUnicode spelledHashing 7)
        (@Permitted asciiUnicode 7) unstagedProject s ∧ ¬ StagedApart 7 s := by
  have hrun : ∃ s, Trace (@revisionStep asciiUnicode spelledHashing 7)
      (@Permitted asciiUnicode 7) unstagedProject s ∧
      s.refusals.map Refusal.outcome = [.error .dataError] := by
    refine ⟨_, Trace.start.next (e := stageOne [0] 0) trivial rfl, ?_⟩
    decide +kernel
  obtain ⟨s, hs, hrefusals⟩ := hrun
  refine ⟨s, hs, fun hapart => ?_⟩
  obtain ⟨refusal, heq, houtcome⟩ := List.map_eq_singleton_iff.mp hrefusals
  obtain ⟨call, -, -, hok, -⟩ := hapart.anew refusal (heq ▸ List.mem_singleton_self refusal)
  cases houtcome.symm.trans hok

end Revisions

end NetBoxScripts
