import NetBoxScripts.Services.Requests

/-!
# Deleting and reclaiming

A revision is deleted by itself or with its project (`signals.py`). The deletion records a cleanup
Job with its commit, unless another revision names the content, and the Job removes the content
later (`jobs.py`), unless a revision names it by then.

## Main definitions

* `capture`, `cleanupRevisionStorage`: what the receivers of a deletion do
* `deleteRevisions`, `deleteProject`: the deletions
* `cleanupJob`: the job
* `Task`, `storehouse`: everything that stores, names or removes content, and the system of it
-/

namespace NetBoxScripts

namespace Storehouse

/-! ## Deletions -/

/-- What `capture_revision_storage` reads of a row that is being deleted. -/
structure Captured where
  digest : Option PyStr
  storageKey : StorageKey
  manifest : List ManifestEntry
  deriving DecidableEq

/-- `capture_revision_storage`: `values_list('digest', 'project__storage_key', 'manifest').first()` -/
def capture (r : Id) : Service (Option Captured) := .query fun s => do
  let row ← s.revisions.row r
  let storageKey ← s.storageKeyOf row
  pure ⟨row.digest, storageKey, row.manifest⟩

/-- The rows that a transaction deletes. -/
def markDeleted (t : ThreadId) (rows : List Id) (s : World) : World :=
  { s.lockRows t (fun ref => rows.any fun r => ref == .revision r) with
    deleting := fun r => if r ∈ rows then some t else s.deleting r
    deletion := Function.update s.deletion t .empty }

/-- `DELETE ... WHERE id IN rows`: it waits while another transaction has locked one of the rows, and
others see them until the commit. -/
def deleteRows (rows : List Id) : Service Unit := .stmt fun t c s =>
  if rows.all fun r => s.rowFree t (.revision r) then
    if c = .fail then some (.error .escaped, s) else some (.ok (), markDeleted t rows s)
  else none

/-- The reference check of `cleanup_revision_storage`, and the Job that is recorded where no other
revision is seen. It is noted whether another transaction is deleting one with the same content. -/
def checkReferences (t : ThreadId) (r : Id) (payload : CleanupPayload) (s : World) : World :=
  { s with
    deletion := Function.update s.deletion t
      { checked := (payload.storageKey, payload.digest) :: (s.deletion t).checked
        cleanups :=
          if s.SiblingVisible t r payload.storageKey payload.digest then (s.deletion t).cleanups
          else (s.deletion t).cleanups ++ [payload] }
    record := { s.record with
      overlapped := s.record.overlapped ||
        s.OverlapsDeletion t payload.storageKey payload.digest } }

/-- The rest of `cleanup_revision_storage`. -/
def recordCleanup (r : Id) (payload : CleanupPayload) : Service Unit := .stmt fun t c s =>
  if c = .fail then some (.error .escaped, s) else some (.ok (), checkReferences t r payload s)

/-- The commit. A revision of the project that was created meanwhile keeps its row, and with it all
the others. -/
def commitDelete (project : Option Id) : Service Unit := .stmt fun t c s =>
  if c = .fail then some (.error .escaped, s)
  else if s.revisions.entries.any fun revision =>
      project == some revision.2.project && s.deleting revision.1 != some t then
    some (.error .integrity, s)
  else some (.ok (), s.commitDeletion t project)

variable [Unicode] [Hashing]

/-- `cleanup_revision_storage`, where routing is safe. -/
def cleanupRevisionStorage (r : Id) : Option Captured → Service Unit
  | none => pure ()
  | some captured =>
    match captured.digest with
    | none => pure ()
    | some digest =>
      if digest = [] then pure ()
      else do
        requireManifest captured.manifest digest
        if captured.manifest = [] then pure ()
        else
          let paths := captured.manifest.map ManifestEntry.path
          recordCleanup r ⟨captured.storageKey, digest, paths⟩

/-- The deletion of the collected rows, with the receivers of both signals. -/
def deleteCollected (rows : List Id) (project : Option Id) : Service Unit := do
  let captured ← rows.foldlM (fun captured r => do
    let found ← capture r
    pure (captured ++ [(r, found)])) ([] : List (Id × Option Captured))
  deleteRows rows
  captured.forM fun found => cleanupRevisionStorage found.1 found.2
  commitDelete project

/-- `ScriptProjectRevision.objects.filter(pk__in=rows).delete()`, of the rows that are there. -/
def deleteRevisions (rows : List Id) : Service Unit := do
  let found ← Prog.query fun s => rows.filter fun r => (s.revisions.row r).isSome
  transaction (deleteCollected found none)

/-- `project.delete()`: its revisions go with it. `lock_declaration_delete` takes the write lock for
the transaction, where the project has declarations. -/
def deleteProject (p : Id) : Service Unit := do
  match ← Prog.query fun s => s.projects.row p with
  | none => pure ()
  | some project =>
    let rows ← Prog.query fun s =>
      (s.revisions.entries.filter fun revision => revision.2.project == p).map Prod.fst
    if ← Prog.query fun s => s.files.entries.any fun file => file.2.project == p then
      projectWriteLock project.storageKey (deleteCollected rows (some p))
    else transaction (deleteCollected rows (some p))

/-! ## Reclaiming -/

/-- A revision names the content. -/
def referenced (s : World) (payload : CleanupPayload) : Bool :=
  s.revisions.entries.any fun revision =>
    decide (s.Addresses revision.2 payload.storageKey payload.digest)

/-- A run of the job found the content referenced, or removed it. -/
def settle (s : World) (j : Id) : World :=
  { s with jobs := s.jobs.modify j fun job => { job with settled := true } }

omit [Hashing] in
/-- `ProjectStorageCleanupJob.run(storage_key, digest, paths)`, where routing is safe and the storage
is configured. -/
def runCleanup (j : Id) (payload : CleanupPayload) : Service Unit :=
  projectLock payload.storageKey do
    let found ← (.stmt fun _ _ s => some (.ok (referenced s payload),
      if referenced s payload then settle s j else s) : Service Bool)
    if found then pure ()
    else do
      match ← (deleteRevision payload.storageKey payload.digest payload.paths).attempt with
      -- what is noted here is no column: the status of the row follows when the job returns
      | .ok () => .stmt fun _ _ s => some (.ok (), settle s j)
      | .error _ => .raise .jobFailed

omit [Hashing] in
/-- The job of a recorded cleanup, which may be run any number of times. -/
def cleanupJob (j : Id) : Service Unit := do
  match ← Prog.query fun s => s.jobs.row j with
  | none => pure ()
  | some job => do
    runCleanup j job.payload
    .stmt fun _ _ s =>
      some (.ok (), { s with jobs := s.jobs.modify j fun job => { job with completed := true } })

/-! ## Tasks -/

/-- What stores content, names it, or removes it, and what is done to the rows beside. A partial save
of a project does not name its pointer. -/
inductive Task (Cls : Type)
  | stage (project : Id) (files : SourceFiles) (limits : StorageLimits) (activateOnce : Bool)
    (now : Time) (turns : ℕ)
  | refresh (project : Id) (now : Time)
  | validate (env : ValidationEnv Cls) (r job : Id)
  | activate (r : Id) (revision : RevisionRow) (isRepair : Bool)
  | deactivate (project r : Id)
  | saveProject (p : Id) (fields : ProjectRow) (authorized : Option (List GatedField))
    (updateFields : Option (List ProjectField))
    (hfields : ∀ named, updateFields = some named → ProjectField.activeRevision ∉ named)
  | saveFile (file : ScriptFileInstance) (fields : SavedFields)
  | deleteFile (project f : Id)
  | deleteRevisions (rows : List Id)
  | deleteProject (p : Id)
  | cleanup (j : Id)

variable {Cls : Type} [DecidableEq Cls]

/-- What is done. -/
def Task.body : Task Cls → Service Unit
  | .stage project files limits activateOnce now turns =>
    Requests.stageRevision project files limits activateOnce now turns
  | .refresh project now => Requests.refreshSource project now
  | .validate env r job => Requests.validationJob env r job
  | .activate r revision isRepair => Requests.activateRevision r revision false isRepair
  | .deactivate project r => Lifecycle.deactivateRevision project r
  | .saveProject p fields authorized updateFields _ =>
    Publication.saveProject p fields authorized updateFields
  | .saveFile file fields => Requests.saveScriptFile file fields
  | .deleteFile project f => Requests.deleteScriptFile project f
  | .deleteRevisions rows => Storehouse.deleteRevisions rows
  | .deleteProject p => Storehouse.deleteProject p
  | .cleanup j => cleanupJob j

/-- Any number of tasks, any of which may end at any point, while the clock goes on. -/
def storehouse : System World Choice Failure (Task Cls) where
  body := Task.body
  reap t s := s.reap t
  tick s := { s with now := s.now + 1 }

end Storehouse

end NetBoxScripts
