import Mathlib.Logic.Function.Basic
import NetBoxScripts.Activation.Scripts
import NetBoxScripts.Database.World

/-!
# Updates

What the statements and storage calls of the services make of the shared state, and what they ask
of it.

## Main definitions

* `Intact`, `EntryStored`, `TreeStored`: content that matches its manifest
* `promote`, `deactivate`, `commitDeletion`: the rows of a transaction
* `SiblingVisible`, `OverlapsDeletion`: who else addresses a content
* `Addressed`, `HasTree`: what a revision row says of its content
-/

namespace NetBoxScripts

/-! ## Stored content -/

section Content

variable [Hashing]

/-- The bytes have the size and the hash of a manifest entry. -/
def Intact (content : Bytes) (entry : ManifestEntry) : Prop :=
  content.length = entry.size ∧ sha256 content = entry.sha256

instance (content : Bytes) (entry : ManifestEntry) : Decidable (Intact content entry) := by
  unfold Intact
  infer_instance

/-- A file of a manifest is stored as recorded. -/
def World.EntryStored (s : World) (k : StorageKey) (digest : PyStr) (entry : ManifestEntry) : Prop :=
  ∃ content, s.objects (.revision k digest entry.path) = some content ∧ Intact content entry

/-- Every file of a manifest is stored as recorded. -/
def World.TreeStored (s : World) (k : StorageKey) (digest : PyStr)
    (manifest : List ManifestEntry) : Prop :=
  ∀ entry ∈ manifest, s.EntryStored k digest entry

end Content

/-! ## Updates -/

namespace World

variable (s : World)

/-- The project lock with another owner. -/
def setLock (k : StorageKey) (owner : Option (ThreadId × ℕ)) : World :=
  { s with locks := Function.update s.locks k owner }

/-- One project row rewritten. -/
def modifyProject (p : Id) (f : ProjectRow → ProjectRow) : World :=
  { s with projects := s.projects.modify p f }

/-- One revision row rewritten. -/
def modifyRevision (r : Id) (f : RevisionRow → RevisionRow) : World :=
  { s with revisions := s.revisions.modify r f }

/-- One object written or removed. -/
def setObject (key : ObjectKey) (content : Option Bytes) : World :=
  { s with objects := Function.update s.objects key content }

/-- The row locks and the deletion of a transaction that ended. -/
def closeTransaction (t : ThreadId) : World :=
  { s with
    rowLocks := fun ref => if s.rowLocks ref = some t then none else s.rowLocks ref
    deleting := fun r => if s.deleting r = some t then none else s.deleting r
    deletion := Function.update s.deletion t .empty }

/-- The locks of a process that ended: its connection and its open transaction are gone. -/
def reap (t : ThreadId) : World :=
  { s.closeTransaction t with
    locks := fun k => if (s.locks k).any (·.1 == t) then none else s.locks k }

/-- The row locks of a statement. -/
def lockRows (t : ThreadId) (refs : RowRef → Bool) : World :=
  { s with rowLocks := fun ref => if refs ref then some t else s.rowLocks ref }

/-- The rows of a promotion. -/
def promote (p r : Id) (row : RevisionRow) (project : ProjectRow) : World :=
  { s with
    scripts := synchronizeScripts p r row.discoveredScripts s.scripts
    revisions :=
      if row.status = .active ∧ project.activeRevision = some r then s.revisions
      else s.revisions.modifyAll fun q other =>
        if q = r then { other with status := .active, activated := some s.now }
        else if project.activeRevision = some q then { other with status := .retired }
        else other
    projects := s.projects.modify p fun project =>
      { project with
        activeRevision := some r
        sourceActivationPending :=
          project.sourceActivationPending && project.sourceRevision != some r } }

/-- The rows of a deactivation. -/
def deactivate (p r : Id) : World :=
  { s with
    scripts := synchronizeScripts p r [] s.scripts
    revisions := s.revisions.modify r fun row => { row with status := .retired }
    projects := s.projects.modify p fun project => { project with activeRevision := none } }

/-- `on_delete=SET_NULL` of a reference to a revision. -/
def nullify (gone : Id → Bool) (reference : Option Id) : Option Id := reference.filter (! gone ·)

/-- The commit of a deletion: the rows and, for a project, everything of it are gone, the
references to them are null, and the cleanups are recorded. -/
def commitDeletion (t : ThreadId) (project : Option Id) : World :=
  let gone := fun r => s.deleting r == some t
  { s with
    projects := (s.projects.eraseAll fun p => project == some p).modifyAll fun _ row =>
      { row with
        activeRevision := nullify gone row.activeRevision
        sourceRevision := nullify gone row.sourceRevision }
    revisions := s.revisions.eraseAll gone
    files := (s.files.eraseAll fun f =>
        (s.files.row f).any fun file => project == some file.project).modifyAll fun _ row =>
      { row with lastDiscoveredRevision := nullify gone row.lastDiscoveredRevision }
    scripts := (s.scripts.eraseAll fun i =>
        (s.scripts.row i).any fun script => project == some script.project).modifyAll fun _ row =>
      { row with lastSeenRevision := nullify gone row.lastSeenRevision }
    jobs := (s.deletion t).cleanups.foldl (fun jobs payload => jobs.insert ⟨payload, false, false⟩)
      s.jobs
    deleting := fun r => if s.deleting r = some t then none else s.deleting r
    deletion := Function.update s.deletion t .empty }

/-- The filter of the update that records an outcome on a Script File row. -/
def outcomeIsNewer (file : ScriptFileRow) (r : Id) (started : Option Time) : Bool :=
  match file.lastDiscoveredRevision with
  | none => true
  | some q => q == r ||
    ((s.revisions.row q).bind RevisionRow.validationStarted).any fun a => started.any (a < ·)

/-- Another revision than `r` that is visible to `t` addresses the content. -/
def SiblingVisible (t : ThreadId) (r : Id) (k : StorageKey) (digest : PyStr) : Prop :=
  ∃ other ∈ s.revisions.entries, other.1 ≠ r ∧ s.deleting other.1 ≠ some t ∧
    s.Addresses other.2 k digest

/-- A transaction other than that of `t` has deleted a revision that addresses the content. -/
def OverlapsDeletion (t : ThreadId) (k : StorageKey) (digest : PyStr) : Prop :=
  ∃ other ∈ s.revisions.entries, s.Addresses other.2 k digest ∧
    s.deleting other.1 ≠ none ∧ s.deleting other.1 ≠ some t

instance (t : ThreadId) (r : Id) (k : StorageKey) (digest : PyStr) :
    Decidable (s.SiblingVisible t r k digest) := by
  unfold SiblingVisible
  infer_instance

instance (t : ThreadId) (k : StorageKey) (digest : PyStr) :
    Decidable (s.OverlapsDeletion t k digest) := by
  unfold OverlapsDeletion
  infer_instance

end World

/-! ## Revision rows -/

/-- A verdict was recorded, or the content was rejected: the row is not written by a stager or a
validation any more. -/
def RevisionStatus.settled : RevisionStatus → Bool
  | .valid | .invalid | .active | .retired => true
  | _ => false

section Rows

variable [Unicode] [Hashing]

/-- A revision with a digest has the digest of its manifest, and its manifest can be told by it. -/
def RevisionRow.Addressed (row : RevisionRow) : Prop :=
  ∀ digest ∈ row.digest,
    digest = manifestDigest row.manifest ∧ ∀ entry ∈ row.manifest, entry.Readable

/-- Every revision with a digest has the digest of its manifest. -/
def World.RowsAddressed (s : World) : Prop :=
  ∀ r row, s.revisions.row r = some row → row.Addressed

/-- The whole tree of a revision is to be in storage: all but those that were never written, or
whose write is not finished. -/
def RevisionRow.HasTree (row : RevisionRow) : Prop :=
  row.status.unstored = false ∧ row.digest.isSome

/-- An automatic promotion is current and permitted: the revision is the accepted source, its
activation was requested or is the policy, and its declarations are the enabled ones. -/
structure AutomaticGround (s : World) (p r : Id) (row : RevisionRow) (project : ProjectRow) :
    Prop where
  source : project.sourceRevision = some r
  permitted : project.sourceActivationPending = true ∨ project.activationPolicy = .automaticIfValid
  declarations : snapshotDigest (buildScriptFileSnapshot (s.declarations p)) = row.scriptFileDigest

end Rows

end NetBoxScripts
