import NetBoxScripts.Concurrency.EachStep
import NetBoxScripts.Services.Vanishing
import NetBoxScripts.Validation.Verdict

/-!
# The life of a revision

Stagers, refreshers, validation workers, activators and deactivators on the revisions of any
projects, in any interleaving (`storage/service.py`, `validation.py`, `activation.py`). Each of them
writes the status of a revision, by an update that is conditional on the status it finds, or in a
transaction that has locked the rows it read.

## Main definitions

* `validateRevision`, `activateRevision`, `deactivateRevision`: the services
* `Call`, `lifecycle`: the calls, and the system of any number of them
* `Advance`: what one statement makes of a revision row
* `StatusEdge`: the status table
* `Served`: the revision that a project serves is its own, and active

## Main results

* `lawful_promote`, `lawful_deactivate`: the transactions retire only what is active
* `Call.body_eachStep`: every action of every call makes lawful changes
* `statuses_follow_table`: every change of a status is an edge of the table, and a verdict stands
-/

namespace NetBoxScripts

namespace Lifecycle

open Vanishing (hasDigest rowManifest)

section Services

/-! ## Validation -/

/-- `UPDATE ... WHERE id = r AND ...`; the answer is whether it found the row. -/
def updateWhere (r : Id) (found : RevisionRow → Bool) (change : RevisionRow → RevisionRow) :
    Service Bool := .stmt fun _ _ s =>
  match s.revisions.row r with
  | none => some (.ok false, s)
  | some row =>
    if found row then some (.ok true, s.modifyRevision r change) else some (.ok false, s)

/-- The claim of `validate_revision`. -/
def claimValidation (r job : Id) (now : Time) : Service Bool :=
  updateWhere r (fun row => Claimable row now) fun row => claimRevision row job now

/-- `_finalize(revision, job, ...)` -/
def finalize (r job : Id) (verdict : Verdict) : Service Bool :=
  if verdict.Storable then
    updateWhere r (fun row => OwnedBy row job) fun row => finalizeRevision row verdict
  else .raise .dataError

/-- `_revert_to_materialized(revision, job, reason)` -/
def revertToMaterialized (r job : Id) (reason : PyStr) : Service Bool :=
  if Plain (reason.take maxValidationFailureLength) then
    updateWhere r (fun row => OwnedBy row job) fun row => revertRevision row reason
  else .raise .dataError

/-- One update of `_persist_script_file_results`. -/
def persistResult (r : Id) (row : RevisionRow)
    (result : SnapshotEntry × FileDiscoveryStatus × PyStr) : Service Unit :=
  if Plain result.2.2 then .stmt fun _ _ s =>
    match s.files.row result.1.scriptFile with
    | none => some (.ok (), s)
    | some file =>
      if s.outcomeIsNewer file r row.validationStarted ∧ file.project = row.project ∧
          file.sourcePath = result.1.sourcePath then
        some (.ok (), { s with files := s.files.modify result.1.scriptFile fun file =>
          { file with
            discoveryStatus := result.2.1
            discoveryError := result.2.2
            lastDiscoveredRevision := some r } })
      else some (.ok (), s)
  else .raise .dataError

variable [Unicode] [Hashing]

/-- The `RevisionCorruptError` of a stored snapshot or manifest. -/
def corruptFailure (row : RevisionRow) : Failure :=
  match validateScriptFileSnapshot (.arr (row.scriptFileSnapshot.map SnapshotEntry.toJson))
      row.scriptFileDigest with
  | .error failure => .snapshot failure
  | .ok () =>
    match validateManifest (.arr (row.manifest.map ManifestEntry.toJson)) row.digest with
    | .error failure => .manifest failure
    | .ok () => .escaped

/-- `validate_revision(revision, job=job)`, with what the storage and the project's code do during
the run. -/
def validateRevision {Cls : Type} [DecidableEq Cls] (env : ValidationEnv Cls) (r job : Id) :
    Service Unit := do
  let now ← timezoneNow
  if ← claimValidation r job now then do
    let row ← getRevision r .doesNotExist
    match examineRevision env row with
    | .unguarded => .raise .escaped
    | .corrupt => do
      let _ ← revertToMaterialized r job []
      .raise (corruptFailure row)
    | .reverted reason => do
      let _ ← revertToMaterialized r job reason
      .raise .escaped
    | .verdict verdict => do
      if ← finalize r job verdict then verdict.persisted.forM (persistResult r row)
      let _ ← getRevision r .doesNotExist
  else .raise .notClaimable

/-! ## Activation -/

omit [Unicode] [Hashing] in
/-- `_require_activatable(revision, already_active)` -/
def requireActivatable (row : RevisionRow) (already : Bool) : Except Failure Unit :=
  if already = false ∧ row.status.activatable = false then .error .activationRefused
  else if hasDigest row = false then .error .activationRefused
  else .ok ()

omit [Unicode] [Hashing] in
/-- `_validated_records(revision)` -/
def validatedRecords (row : RevisionRow) : Except Failure Unit :=
  match validateDiscoveredScripts (.arr (row.discoveredScripts.map ScriptRecord.toJson)) with
  | .ok () => .ok ()
  | .error _ => .error .activationRefused

/-- Whether an automatic request is current and permitted. -/
def isCurrent (s : World) (p r : Id) (project : ProjectRow) (row : RevisionRow) : Bool :=
  project.sourceRevision = some r ∧
    (project.sourceActivationPending ∨ project.activationPolicy = .automaticIfValid) ∧
    snapshotDigest (buildScriptFileSnapshot (s.declarations p)) = row.scriptFileDigest

omit [Unicode] [Hashing] in
/-- What must not have changed since the tree was verified. -/
def SameInputs (a b : RevisionRow) : Prop :=
  a.digest = b.digest ∧ a.manifest = b.manifest ∧ a.scriptFileDigest = b.scriptFileDigest ∧
    a.scriptFileSnapshot = b.scriptFileSnapshot ∧ a.discoveredScripts = b.discoveredScripts

instance (a b : RevisionRow) : Decidable (SameInputs a b) := by
  unfold SameInputs
  infer_instance

/-- `_promote(snapshot, revision_pk, ...)` with the callback of `activate_revision`. The rows are
locked as they are read, so that the transaction is one step; an exception of the callback or of
the commit rolls it back. -/
def promote (snapshot : RevisionRow) (r : Id) (automatic isRepair : Bool) : Service Unit :=
  .stmt fun _ c s =>
    match s.projects.row snapshot.project with
    | none => some (.error .projectVanished, s)
    | some project =>
      match s.revisions.row r with
      | none => some (.error .revisionVanished, s)
      | some locked =>
        if locked.project ≠ snapshot.project then some (.error .revisionVanished, s)
        else if automatic ∧ isCurrent s snapshot.project r project locked = false then
          some (.ok (), s)
        else if ¬ SameInputs locked snapshot then some (.error .activationRefused, s)
        else
          let already := locked.status = .active ∧ project.activeRevision = some r
          match requireActivatable locked already with
          | .error failure => some (.error failure, s)
          | .ok () =>
            -- the callback
            if isRepair ∧ project.activeRevision ≠ some r then some (.error .activationRefused, s)
            else
              match validatedRecords locked with
              | .error failure => some (.error failure, s)
              | .ok () =>
                if c = .fail then some (.error .escaped, s)
                else if already then some (.ok (), s.promote snapshot.project r locked project)
                else
                  match project.activeRevision with
                  | none => some (.ok (), s.promote snapshot.project r locked project)
                  | some q =>
                    match s.revisions.row q with
                    | none => some (.error .revisionVanished, s)
                    | some previous =>
                      if previous.project ≠ snapshot.project then
                        some (.error .revisionVanished, s)
                      else some (.ok (), s.promote snapshot.project r locked project)

/-- `activate_revision(revision, automatic=…, repair=…)`, with `promote_revision`. -/
def activateRevision (r : Id) (revision : RevisionRow) (automatic isRepair : Bool) :
    Service Unit := do
  Prog.ofExcept (validatedRecords revision)
  let snapshot ← getRevision r .revisionVanished
  let project ← getProject snapshot.project .projectVanished
  Prog.ofExcept (requireActivatable snapshot
    (snapshot.status = .active ∧ project.activeRevision = some r))
  check .snapshot (validateScriptFileSnapshot
    (.arr (snapshot.scriptFileSnapshot.map SnapshotEntry.toJson)) snapshot.scriptFileDigest)
  projectLock project.storageKey do
    Prog.ofExcept (rowManifest snapshot)
    verifyRevisionTree project.storageKey (snapshot.digest.getD []) snapshot.manifest
    promote snapshot r automatic isRepair

omit [Unicode] [Hashing] in
/-- The transaction of `deactivate_revision`. -/
def deactivate (p r : Id) : Service Unit := .stmt fun _ c s =>
  match s.projects.row p with
  | none => some (.error .projectVanished, s)
  | some project =>
    match s.revisions.row r with
    | none => some (.error .revisionVanished, s)
    | some locked =>
      if locked.project ≠ p then some (.error .revisionVanished, s)
      else if project.activeRevision ≠ some r then some (.error .activationRefused, s)
      else if c = .fail then some (.error .escaped, s)
      else some (.ok (), s.deactivate p r)

omit [Unicode] [Hashing] in
/-- `deactivate_revision(revision)`, for a revision of which the caller knows the project. -/
def deactivateRevision (p r : Id) : Service Unit := do
  let project ← getProject p .projectVanished
  projectLock project.storageKey (deactivate p r)

end Services

/-! ## Calls -/

/-- A call of a service. A staging call that is cut off after some turns of its loop stands for all
its runs of so many turns. -/
inductive Call (Cls : Type)
  | stage (project : Id) (files : SourceFiles) (limits : StorageLimits) (activateOnce : Bool)
    (now : Time) (turns : ℕ)
  | refresh (project pk : Id) (now : Time)
  | validate (env : ValidationEnv Cls) (r job : Id)
  | activate (r : Id) (revision : RevisionRow) (automatic isRepair : Bool)
  | deactivate (project r : Id)

variable {Cls : Type} [DecidableEq Cls] [Unicode] [Hashing]

/-- What a call does. -/
def Call.body : Call Cls → Service Unit
  | .stage project files limits activateOnce now turns => do
    let _ ← (Vanishing.stageRevision project files limits activateOnce now turns).prog
      Vanishing.execute
    pure ()
  | .refresh project pk now => do
    let _ ← (Vanishing.refreshRevisionScriptFiles project pk now).prog Vanishing.execute
    pure ()
  | .validate env r job => validateRevision env r job
  | .activate r revision automatic isRepair => activateRevision r revision automatic isRepair
  | .deactivate project r => deactivateRevision project r

/-- Any number of calls, any of which may end at any point, while the clock goes on. -/
def lifecycle : System World Choice Failure (Call Cls) where
  body := Call.body
  reap t s := s.reap t
  tick s := { s with now := s.now + 1 }

/-! ## Rows -/

/-- What one statement makes of a revision row. -/
inductive Advance (row : RevisionRow) : RevisionRow → Prop
  | same : Advance row row
  | retry (h : row.status.retryable = true) : Advance row { row with status := .staging }
  | failed (h : row.status = .staging) :
    Advance row { row with status := .storageFailed, validationErrors := [.storageWriteFailed] }
  | written (h : row.status.retryable = true) :
    Advance row { row with status := .materialized, validationErrors := [] }
  | claimed (job : Id) (now : Time) (h : row.status = .materialized ∨ row.status = .validating) :
    Advance row (claimRevision row job now)
  | reverted (reason : PyStr) (h : row.status = .validating) : Advance row (revertRevision row reason)
  | judged (verdict : Verdict) (h : row.status = .validating)
    (hverdict : verdict.status = .valid ∨ verdict.status = .invalid) :
    Advance row (finalizeRevision row verdict)
  | activated (now : Time) (h : row.status.activatable = true) :
    Advance row { row with status := .active, activated := some now }
  | retired (h : row.status = .active) : Advance row { row with status := .retired }

/-- The status table. -/
inductive StatusEdge : RevisionStatus → RevisionStatus → Prop
  | stored : StatusEdge .staging .materialized
  | storageFailed : StatusEdge .staging .storageFailed
  | resumed : StatusEdge .storageFailed .staging
  | refreshed : StatusEdge .storageFailed .materialized
  | claimed : StatusEdge .materialized .validating
  | judgedValid : StatusEdge .validating .valid
  | judgedInvalid : StatusEdge .validating .invalid
  | released : StatusEdge .validating .materialized
  | reclaimed : StatusEdge .validating .validating
  | activated : StatusEdge .valid .active
  | reactivated : StatusEdge .retired .active
  | retired : StatusEdge .active .retired

omit [DecidableEq Cls] [Unicode] [Hashing] in
theorem Advance.edge {row row' : RevisionRow} (h : Advance row row')
    (hne : row'.status ≠ row.status) : StatusEdge row.status row'.status := by
  cases h with
  | same => exact absurd rfl hne
  | retry h =>
    dsimp only at hne ⊢
    revert h hne
    cases row.status <;> simp [RevisionStatus.retryable, StatusEdge.resumed]
  | failed h =>
    dsimp only
    rw [h]
    exact .storageFailed
  | written h =>
    dsimp only
    revert h
    cases row.status <;> simp [RevisionStatus.retryable, StatusEdge.stored, StatusEdge.refreshed]
  | claimed job now h =>
    rcases h with h | h
    · rw [h]
      exact .claimed
    · exact absurd h.symm hne
  | reverted reason h =>
    rw [h]
    exact .released
  | judged verdict h hverdict =>
    have hstatus : (finalizeRevision row verdict).status = verdict.status := rfl
    rw [h, hstatus]
    rcases hverdict with hv | hv
    · rw [hv]
      exact .judgedValid
    · rw [hv]
      exact .judgedInvalid
  | activated now h =>
    dsimp only
    revert h
    cases row.status <;> simp [RevisionStatus.activatable, StatusEdge.activated,
      StatusEdge.reactivated]
  | retired h =>
    dsimp only
    rw [h]
    exact .retired

/-- The verdict of a row stands in a later one. -/
structure Upheld (row row' : RevisionRow) : Prop where
  settled : row'.status.settled = true
  validationErrors : row'.validationErrors = row.validationErrors
  discoveredScripts : row'.discoveredScripts = row.discoveredScripts
  manifest : row'.manifest = row.manifest
  digest : row'.digest = row.digest
  scriptFileSnapshot : row'.scriptFileSnapshot = row.scriptFileSnapshot

omit [DecidableEq Cls] [Unicode] [Hashing] in
theorem Upheld.refl {row : RevisionRow} (h : row.status.settled = true) : Upheld row row :=
  ⟨h, rfl, rfl, rfl, rfl, rfl⟩

omit [DecidableEq Cls] [Unicode] [Hashing] in
/-- **One statement** leaves a verdict standing. -/
theorem Upheld.advance {row row' row'' : RevisionRow} (h : Upheld row row')
    (hadvance : Advance row' row'') : Upheld row row'' := by
  have hsettled := h.settled
  cases hadvance with
  | same => exact h
  | retry hstatus | written hstatus =>
    revert hsettled hstatus
    cases row'.status <;> simp [RevisionStatus.settled, RevisionStatus.retryable]
  | failed hstatus | reverted _ hstatus | judged _ hstatus =>
    rw [hstatus] at hsettled
    cases hsettled
  | claimed job now hstatus =>
    rcases hstatus with hstatus | hstatus
    all_goals
      rw [hstatus] at hsettled
      cases hsettled
  | activated now _ => exact { h with settled := rfl }
  | retired _ => exact { h with settled := rfl }

/-! ## Changes -/

/-- The revision that a project serves is its own, and active. -/
def Served (s : World) : Prop :=
  ∀ p project r, s.projects.row p = some project → project.activeRevision = some r →
    ∃ row, s.revisions.row r = some row ∧ row.project = p ∧ row.status = .active

/-- Every row is still there, and at most one statement further. -/
def Evolves (s s' : World) : Prop :=
  ∀ r row, s.revisions.row r = some row → ∃ row', s'.revisions.row r = some row' ∧ Advance row row'

omit [DecidableEq Cls] [Unicode] [Hashing] in
theorem Evolves.refl {s : World} : Evolves s s := fun _ row hrow => ⟨row, hrow, .same⟩

/-- What every action does, where the projects serve what they should. -/
def Lawful (s s' : World) : Prop := Served s → Served s' ∧ Evolves s s'

/-- The revision that a project points to. -/
def pointer (s : World) (p : Id) : Option Id := (s.projects.row p).bind ProjectRow.activeRevision

/-- The storage key of a project. -/
def keyOf (s : World) (p : Id) : Option StorageKey := (s.projects.row p).map ProjectRow.storageKey

/-- The locks of others are as they were. -/
def OwnLocks (t : ThreadId) (s s' : World) : Prop :=
  ∀ k u n, u ≠ t → (s'.locks k = some (u, n) ↔ s.locks k = some (u, n))

/-- **What an action does that publishes nothing**: what is served, the rows in service and the
locks of others are as they were. -/
structure Quiet (t : ThreadId) (s s' : World) : Prop where
  pointer : pointer s' = pointer s
  keyOf : keyOf s' = keyOf s
  scripts : s'.scripts = s.scripts
  active : ∀ r row, row.status = .active →
    (s'.revisions.row r = some row ↔ s.revisions.row r = some row)
  rows : Evolves s s'
  locks : OwnLocks t s s'

/-- A revision that is not active becomes no active one. -/
structure Progress (row row' : RevisionRow) : Prop where
  before : row.status ≠ .active
  after : row'.status ≠ .active
  advance : Advance row row'

section Changes

omit [DecidableEq Cls] [Unicode] [Hashing]

variable {t : ThreadId} {s s' : World} {r : Id}

theorem OwnLocks.refl : OwnLocks t s s := fun _ _ _ _ => .rfl

/-- A lock that no other thread holds is taken, or given back. -/
theorem ownLocks_setLock {k : StorageKey} {owner : Option (ThreadId × ℕ)}
    (hfree : ∀ u ∈ (s.locks k).map Prod.fst, u = t) (howner : ∀ u ∈ owner.map Prod.fst, u = t) :
    OwnLocks t s (s.setLock k owner) := by
  intro k' u n hne
  by_cases hk : k' = k
  · subst hk
    show Function.update s.locks k' owner k' = _ ↔ _
    rw [Function.update_self]
    refine iff_of_false (fun h => hne (howner u ?_)) fun h => hne (hfree u ?_)
    · simp [h]
    · simp [h]
  · show Function.update s.locks k owner k' = _ ↔ _
    rw [Function.update_of_ne hk]

theorem Quiet.of_rows_eq (hprojects : s'.projects = s.projects)
    (hrevisions : s'.revisions = s.revisions) (hscripts : s'.scripts = s.scripts)
    (hlocks : OwnLocks t s s') : Quiet t s s' where
  pointer := by
    unfold Lifecycle.pointer
    rw [hprojects]
  keyOf := by
    unfold Lifecycle.keyOf
    rw [hprojects]
  scripts := hscripts
  active r row _ := by rw [hrevisions]
  rows r row hrow := ⟨row, hrevisions ▸ hrow, .same⟩
  locks := hlocks

theorem Quiet.refl : Quiet t s s := .of_rows_eq rfl rfl rfl .refl

theorem Lawful.refl : Lawful s s := fun hserved => ⟨hserved, .refl⟩

/-- Where nothing is published the projects serve what they did. -/
theorem Quiet.lawful (h : Quiet t s s') : Lawful s s' := by
  refine fun hserved => ⟨fun p project' r hproject' hserves => ?_, h.rows⟩
  have hpointer : Lifecycle.pointer s p = some r := by
    rw [← h.pointer, Lifecycle.pointer, hproject']
    exact hserves
  obtain ⟨project, hproject, hactive⟩ := Option.bind_eq_some_iff.mp hpointer
  obtain ⟨row, hrow, howner, hstatus⟩ := hserved p project r hproject hactive
  exact ⟨row, (h.active r row hstatus).mpr hrow, howner, hstatus⟩

/-- **A conditional update** of a row that is not active. -/
theorem Quiet.modify {change : RevisionRow → RevisionRow}
    (h : ∀ row, s.revisions.row r = some row → Progress row (change row)) :
    Quiet t s (s.modifyRevision r change) where
  pointer := rfl
  keyOf := rfl
  scripts := rfl
  active q row hstatus := by
    show (s.revisions.modify r change).row q = _ ↔ _
    by_cases hq : q = r
    · subst hq
      rw [Table.row_modify_self]
      refine iff_of_false (fun hrow => ?_) fun hrow => (h row hrow).before hstatus
      obtain ⟨old, hold, rfl⟩ := Option.map_eq_some_iff.mp hrow
      exact (h old hold).after hstatus
    · rw [Table.row_modify_of_ne hq]
  rows q row hrow := by
    by_cases hq : q = r
    · subst hq
      refine ⟨change row, ?_, (h row hrow).advance⟩
      show (s.revisions.modify q change).row q = some (change row)
      rw [Table.row_modify_self, hrow, Option.map_some]
    · refine ⟨row, ?_, .same⟩
      show (s.revisions.modify r change).row q = some row
      rwa [Table.row_modify_of_ne hq]
  locks := .refl

theorem Quiet.insert {row : RevisionRow} (h : row.status ≠ .active) :
    Quiet t s { s with revisions := s.revisions.insert row } where
  pointer := rfl
  keyOf := rfl
  scripts := rfl
  active q other hstatus := by
    refine ⟨fun hrow => ?_, Table.row_insert_of_row⟩
    rcases Table.row_insert_eq_some hrow with ⟨-, rfl⟩ | hold
    · exact absurd hstatus h
    · exact hold
  rows _ other hrow := ⟨other, Table.row_insert_of_row hrow, .same⟩
  locks := .refl

/-- An update of a project row that leaves its pointer and its storage key. -/
theorem Quiet.modifyProject {p : Id} {change : ProjectRow → ProjectRow}
    (h : ∀ project, s.projects.row p = some project →
      (change project).activeRevision = project.activeRevision ∧
        (change project).storageKey = project.storageKey) :
    Quiet t s (s.modifyProject p change) := by
  have hrow : ∀ q, (s.modifyProject p change).projects.row q =
      (s.projects.row q).map fun project => if q = p then change project else project :=
    fun q => Table.row_modifyAll
  refine ⟨funext fun q => ?_, funext fun q => ?_, rfl, fun _ _ _ => .rfl, .refl, .refl⟩
  · rw [Lifecycle.pointer, Lifecycle.pointer, hrow]
    cases hq : s.projects.row q with
    | none => rfl
    | some project =>
      rw [Option.map_some, Option.bind_some, Option.bind_some]
      split_ifs with heq
      · exact (h project (heq ▸ hq)).1
      · rfl
  · rw [Lifecycle.keyOf, Lifecycle.keyOf, hrow]
    cases hq : s.projects.row q with
    | none => rfl
    | some project =>
      rw [Option.map_some, Option.map_some, Option.map_some, Option.some_inj]
      split_ifs with heq
      · exact (h project (heq ▸ hq)).2
      · rfl

/-- The pointers of other projects, and the rows they name, stay. -/
theorem Served.of_other {p : Id} (hserved : Served s)
    (hprojects : ∀ q, q ≠ p → s'.projects.row q = s.projects.row q)
    (hrows : ∀ r row, s.revisions.row r = some row → row.project ≠ p →
      s'.revisions.row r = some row)
    (hown : ∀ project' r, s'.projects.row p = some project' → project'.activeRevision = some r →
      ∃ row, s'.revisions.row r = some row ∧ row.project = p ∧ row.status = .active) :
    Served s' := by
  intro q project' r hproject' hserves
  by_cases hq : q = p
  · subst hq
    exact hown project' r hproject' hserves
  · rw [hprojects q hq] at hproject'
    obtain ⟨row, hrow, howner, hstatus⟩ := hserved q project' r hproject' hserves
    exact ⟨row, hrows r row hrow (howner ▸ hq), howner, hstatus⟩

/-- The revisions after a promotion of one that was not served. -/
theorem row_promote {p : Id} {row : RevisionRow} {project : ProjectRow}
    (h : ¬ (row.status = .active ∧ project.activeRevision = some r)) (q : Id) :
    (s.promote p r row project).revisions.row q = (s.revisions.row q).map fun other =>
      if q = r then { other with status := .active, activated := some s.now }
      else if project.activeRevision = some q then { other with status := .retired }
      else other := by
  show (ite _ _ _ : Table RevisionRow).row q = _
  rw [if_neg h, Table.row_modifyAll]

/-- **A promotion** retires the revision that was served, which is active. -/
theorem lawful_promote {p : Id} {row : RevisionRow} {project : ProjectRow}
    (hproject : s.projects.row p = some project) (hrow : s.revisions.row r = some row)
    (howner : row.project = p)
    (hactivatable : row.status.activatable = true ∨
      (row.status = .active ∧ project.activeRevision = some r)) :
    Lawful s (s.promote p r row project) := by
  intro hserved
  have hprojects : ∀ q, q ≠ p → (s.promote p r row project).projects.row q = s.projects.row q :=
    fun q hq => Table.row_modify_of_ne hq
  have hpointer : ∀ project', (s.promote p r row project).projects.row p = some project' →
      project'.activeRevision = some r := by
    intro project' h
    obtain ⟨old, -, rfl⟩ := Table.row_modify_eq_some h
    rw [if_pos rfl]
  by_cases halready : row.status = .active ∧ project.activeRevision = some r
  · -- the revision is served already, and no row is written
    have hrevisions : (s.promote p r row project).revisions = s.revisions := if_pos halready
    refine ⟨hserved.of_other hprojects (fun q other h _ => hrevisions ▸ h) ?_,
      fun q other h => ⟨other, hrevisions ▸ h, .same⟩⟩
    intro project' q hproject' hserves
    obtain rfl : q = r := Option.some.inj (hserves.symm.trans (hpointer project' hproject'))
    exact ⟨row, hrevisions ▸ hrow, howner, halready.1⟩
  · have hvalid := hactivatable.resolve_right halready
    have hrows := row_promote (s := s) (p := p) halready
    refine ⟨hserved.of_other hprojects (fun q other h hne => ?_) ?_, fun q other h => ?_⟩
    · -- a row of another project is neither activated nor retired
      have hq : q ≠ r := by
        rintro rfl
        obtain rfl := Option.some.inj (h.symm.trans hrow)
        exact hne howner
      have hprevious : project.activeRevision ≠ some q := by
        intro hserves
        obtain ⟨previous, hprevious, howner', -⟩ := hserved p project q hproject hserves
        obtain rfl := Option.some.inj (h.symm.trans hprevious)
        exact hne howner'
      rw [hrows, h, Option.map_some, if_neg hq, if_neg hprevious]
    · intro project' q hproject' hserves
      obtain rfl : q = r := Option.some.inj (hserves.symm.trans (hpointer project' hproject'))
      refine ⟨{ row with status := .active, activated := some s.now }, ?_, howner, rfl⟩
      rw [hrows, hrow, Option.map_some, if_pos rfl]
    · rw [hrows, h, Option.map_some]
      refine ⟨_, rfl, ?_⟩
      split_ifs with hq hserves
      · subst hq
        obtain rfl := Option.some.inj (h.symm.trans hrow)
        exact .activated s.now hvalid
      · obtain ⟨previous, hprevious, -, hstatus⟩ := hserved p project q hproject hserves
        obtain rfl := Option.some.inj (h.symm.trans hprevious)
        exact .retired hstatus
      · exact .same

/-- **A deactivation** retires the revision that is served, which is active. -/
theorem lawful_deactivate {p : Id} {project : ProjectRow}
    (hproject : s.projects.row p = some project) (hactive : project.activeRevision = some r) :
    Lawful s (s.deactivate p r) := by
  intro hserved
  obtain ⟨row, hrow, howner, hstatus⟩ := hserved p project r hproject hactive
  have hprojects : ∀ q, q ≠ p → (s.deactivate p r).projects.row q = s.projects.row q :=
    fun q hq => Table.row_modify_of_ne hq
  refine ⟨hserved.of_other hprojects (fun q other h hne => ?_) ?_, fun q other h => ?_⟩
  · have hq : q ≠ r := by
      rintro rfl
      obtain rfl := Option.some.inj (h.symm.trans hrow)
      exact hne howner
    exact (Table.row_modify_of_ne hq).trans h
  · intro project' q hproject' hserves
    obtain ⟨old, -, rfl⟩ := Table.row_modify_eq_some hproject'
    rw [if_pos rfl] at hserves
    cases hserves
  · by_cases hq : q = r
    · subst hq
      obtain rfl := Option.some.inj (h.symm.trans hrow)
      refine ⟨{ other with status := .retired }, ?_, .retired hstatus⟩
      show (s.revisions.modify q _).row q = _
      rw [Table.row_modify_self, h, Option.map_some]
    · exact ⟨other, (Table.row_modify_of_ne hq).trans h, .same⟩

end Changes

/-! ## Calls by their actions -/

section Actions

omit [DecidableEq Cls]

variable {r job : Id} {k : StorageKey}

omit [Unicode] [Hashing] in
theorem eachStep_updateWhere {found : RevisionRow → Bool} {change : RevisionRow → RevisionRow}
    (h : ∀ row, found row = true → Progress row (change row)) :
    (updateWhere r found change).EachStep Quiet := by
  refine eachStep_stmt fun t c s answer s' hstep => ?_
  split at hstep
  · cases hstep
    exact .refl
  · next row hrow =>
    split_ifs at hstep with hfound
    · cases hstep
      refine .modify fun row' hrow' => ?_
      obtain rfl := Option.some.inj (hrow.symm.trans hrow')
      exact h row hfound
    · cases hstep
      exact .refl

omit [Unicode] [Hashing] in
theorem eachStep_claimValidation {now : Time} : (claimValidation r job now).EachStep Quiet := by
  refine eachStep_updateWhere fun row hfound => ?_
  have hstatus : row.status = .materialized ∨ row.status = .validating :=
    (of_decide_eq_true hfound).imp_right And.left
  refine ⟨fun hactive => ?_, by simp [claimRevision], .claimed job now hstatus⟩
  rw [hactive] at hstatus
  simp at hstatus

omit [Unicode] [Hashing] in
/-- The fence of a worker's last statement lets no active row through. -/
theorem eachStep_owned {change : RevisionRow → RevisionRow}
    (hafter : ∀ row, (change row).status ≠ .active)
    (h : ∀ row, row.status = .validating → Advance row (change row)) :
    (updateWhere r (fun row => OwnedBy row job) change).EachStep Quiet := by
  refine eachStep_updateWhere fun row hfound => ?_
  have howned : OwnedBy row job := of_decide_eq_true hfound
  refine ⟨fun hactive => ?_, hafter row, h row howned.1⟩
  have hstatus := howned.1
  rw [hactive] at hstatus
  cases hstatus

omit [Unicode] [Hashing] in
theorem eachStep_finalize {verdict : Verdict}
    (hverdict : verdict.status = .valid ∨ verdict.status = .invalid) :
    (finalize r job verdict).EachStep Quiet := by
  unfold finalize
  split_ifs
  · refine eachStep_owned (fun row => ?_) fun row h => .judged verdict h hverdict
    show verdict.status ≠ .active
    rcases hverdict with hv | hv
    · simp [hv]
    · simp [hv]
  · exact eachStep_raise

omit [Unicode] [Hashing] in
theorem eachStep_revertToMaterialized {reason : PyStr} :
    (revertToMaterialized r job reason).EachStep Quiet := by
  unfold revertToMaterialized
  split_ifs
  · exact eachStep_owned (fun row => by simp [revertRevision]) fun row h => .reverted reason h
  · exact eachStep_raise

omit [Unicode] [Hashing] in
theorem eachStep_persistResult {row : RevisionRow}
    {result : SnapshotEntry × FileDiscoveryStatus × PyStr} :
    (persistResult r row result).EachStep Quiet := by
  unfold persistResult
  split_ifs
  · refine eachStep_stmt fun t c s answer s' hstep => ?_
    split at hstep
    · cases hstep
      exact .refl
    · split_ifs at hstep
      all_goals
        cases hstep
        exact .of_rows_eq rfl rfl rfl .refl
  · exact eachStep_raise

omit [Unicode] [Hashing] in
theorem eachStep_getRevision {failure : Failure} : (getRevision r failure).EachStep Quiet := by
  refine eachStep_bind (eachStep_query fun _ _ => .refl) fun answer => ?_
  split
  · exact eachStep_pure
  · exact eachStep_raise

omit [Unicode] [Hashing] in
theorem eachStep_getProject {p : Id} {failure : Failure} :
    (getProject p failure).EachStep Quiet := by
  refine eachStep_bind (eachStep_query fun _ _ => .refl) fun answer => ?_
  split
  · exact eachStep_pure
  · exact eachStep_raise

/-- The verdict of a run is one of the two. -/
theorem examineRevision_status [DecidableEq Cls] {env : ValidationEnv Cls} {row : RevisionRow}
    {verdict : Verdict} (h : examineRevision env row = .verdict verdict) :
    verdict.status = .valid ∨ verdict.status = .invalid := by
  unfold examineRevision at h
  split at h
  · cases h
  · cases h
  · split_ifs at h
    · cases h
      exact .inl rfl
    · split at h
      · cases h
      · split at h
        · split at h
          · cases h
          · cases h
        · next fold hrun =>
          cases h
          exact (settle_status row.scriptFileSnapshot fold).imp And.left And.left

/-- **A validation** by its actions. -/
theorem eachStep_validateRevision [DecidableEq Cls] {env : ValidationEnv Cls} :
    (validateRevision env r job).EachStep Quiet := by
  refine eachStep_bind (eachStep_query fun _ _ => .refl) fun now => ?_
  refine eachStep_bind eachStep_claimValidation fun claimed => ?_
  split_ifs
  · refine eachStep_bind eachStep_getRevision fun row => ?_
    split
    · exact eachStep_raise
    · exact eachStep_bind eachStep_revertToMaterialized fun _ => eachStep_raise
    · exact eachStep_bind eachStep_revertToMaterialized fun _ => eachStep_raise
    · next verdict hverdict =>
      have hlast : (do
          let _ ← getRevision r .doesNotExist
          pure () : Service Unit).EachStep Quiet :=
        eachStep_bind eachStep_getRevision fun _ => eachStep_pure
      refine eachStep_bind (eachStep_finalize (examineRevision_status hverdict)) fun owned => ?_
      dsimp only
      split_ifs
      · exact eachStep_bind (eachStep_forM fun _ => eachStep_persistResult) fun _ => hlast
      · exact hlast
  · exact eachStep_raise

omit [Unicode] [Hashing] in
theorem eachStep_acquireLock : (acquireLock k).EachStep Quiet := by
  refine eachStep_stmt fun t c s answer s' hstep => ?_
  split at hstep
  · next hlock =>
    cases hstep
    exact .of_rows_eq rfl rfl rfl (ownLocks_setLock (by simp [hlock]) (by simp))
  · next u n hlock =>
    split_ifs at hstep with hu
    cases hstep
    exact .of_rows_eq rfl rfl rfl (ownLocks_setLock (by simp [hlock, hu]) (by simp))
  · cases hstep

omit [Unicode] [Hashing] in
theorem eachStep_releaseLock : (releaseLock k).EachStep Quiet := by
  refine eachStep_stmt fun t c s answer s' hstep => ?_
  split at hstep
  · next u n hlock =>
    split_ifs at hstep with hu hn
    · cases hstep
      exact .of_rows_eq rfl rfl rfl (ownLocks_setLock (by simp [hlock, hu]) (by simp))
    · cases hstep
      exact .of_rows_eq rfl rfl rfl (ownLocks_setLock (by simp [hlock, hu]) (by simp))
    · cases hstep
      exact .refl
  · cases hstep
    exact .refl

omit [Unicode] in
theorem eachStep_verifyEntry {key : ObjectKey} {entry : ManifestEntry} :
    (verifyEntry key entry).EachStep fun _ s s' => s' = s := by
  have hsize : (storageSize key).EachStep fun _ s s' => s' = s := by
    refine eachStep_stmt fun t c s answer s' hstep => ?_
    cases c <;> cases hstep
    all_goals rfl
  have hopen : (storageOpen key).EachStep fun _ s s' => s' = s := by
    refine eachStep_stmt fun t c s answer s' hstep => ?_
    cases c <;> cases hstep
    all_goals rfl
  have hread : (readVerified key entry).EachStep fun _ s s' => s' = s := by
    refine eachStep_bind hsize fun size => ?_
    split
    · exact eachStep_raise
    · split_ifs
      · exact eachStep_raise
      · refine eachStep_bind hopen fun content => ?_
        split
        · exact eachStep_raise
        · dsimp only
          split_ifs
          · exact eachStep_raise
          · exact eachStep_raise
          · exact eachStep_pure
  refine eachStep_bind (eachStep_attempt hread) fun result => ?_
  split
  · exact eachStep_pure
  · exact eachStep_pure
  · exact eachStep_raise

/-- Verifying a tree changes nothing. -/
theorem eachStep_verifyRevisionTree {digest : PyStr} {manifest : List ManifestEntry} :
    (verifyRevisionTree k digest manifest).EachStep fun _ s s' => s' = s := by
  have hcheck : (requireManifest manifest digest).EachStep fun _ s s' => s' = s := by
    unfold requireManifest
    cases validateManifest (.arr (manifest.map ManifestEntry.toJson)) (some digest) with
    | ok u => exact eachStep_pure
    | error failure => exact eachStep_raise
  have hprefix : (revisionPrefix digest).EachStep fun _ s s' => s' = s := by
    unfold revisionPrefix
    split_ifs
    · exact eachStep_pure
    · exact eachStep_raise
  refine eachStep_bind hcheck fun _ => eachStep_bind hprefix fun _ => ?_
  refine eachStep_bind (eachStep_foldlM (fun reasons entry =>
    eachStep_bind eachStep_verifyEntry fun _ => eachStep_pure) _) fun reasons => ?_
  split_ifs
  · exact eachStep_raise
  · exact eachStep_raise
  · exact eachStep_pure

omit [Unicode] [Hashing] in
theorem requireActivatable_ok {row : RevisionRow} {already : Bool}
    (h : requireActivatable row already = .ok ()) :
    (row.status.activatable = true ∨ already = true) ∧ hasDigest row = true := by
  unfold requireActivatable at h
  split_ifs at h with hrefused hdigest
  refine ⟨?_, by simpa using hdigest⟩
  cases already with
  | true => exact .inr rfl
  | false => exact .inl (by simpa using hrefused)

/-- What the transaction of a promotion leaves. -/
inductive Promotion (p r : Id) (s : World) : World → Prop
  | refused : Promotion p r s s
  | done {project : ProjectRow} {row : RevisionRow} (hproject : s.projects.row p = some project)
    (hrow : s.revisions.row r = some row) (howner : row.project = p)
    (hactivatable : row.status.activatable = true ∨
      (row.status = .active ∧ project.activeRevision = some r))
    (hdigest : hasDigest row = true) (hrecords : validatedRecords row = .ok ()) :
    Promotion p r s (s.promote p r row project)

omit [Unicode] [Hashing] in
theorem Promotion.lawful {p : Id} {s s' : World} (h : Promotion p r s s') : Lawful s s' := by
  cases h with
  | refused => exact .refl
  | done hproject hrow howner hactivatable => exact lawful_promote hproject hrow howner hactivatable

omit [Unicode] in
/-- **The transaction of a promotion** by its outcomes. -/
theorem eachStep_promote {snapshot : RevisionRow} {automatic isRepair : Bool} :
    (promote snapshot r automatic isRepair).EachStep fun _ => Promotion snapshot.project r := by
  refine eachStep_stmt fun t c s answer s' hstep => ?_
  split at hstep
  · cases hstep
    exact .refused
  · next project hproject =>
    split at hstep
    · cases hstep
      exact .refused
    · next locked hrow =>
      by_cases howner : locked.project = snapshot.project
      · rw [if_neg (not_not_intro howner)] at hstep
        split at hstep
        · cases hstep
          exact .refused
        · split at hstep
          · cases hstep
            exact .refused
          · dsimp only at hstep
            split at hstep
            · cases hstep
              exact .refused
            · next hactivatable =>
              split at hstep
              · cases hstep
                exact .refused
              · split at hstep
                · cases hstep
                  exact .refused
                · next hrecords =>
                  have hdone : Promotion snapshot.project r s
                      (s.promote snapshot.project r locked project) := by
                    obtain ⟨hstatus, hdigest⟩ := requireActivatable_ok hactivatable
                    exact .done hproject hrow howner (hstatus.imp_right of_decide_eq_true) hdigest
                      hrecords
                  -- from here on it commits the promotion or rolls back
                  repeat' split at hstep
                  all_goals cases hstep
                  all_goals first | exact hdone | exact .refused
      · rw [if_pos howner] at hstep
        cases hstep
        exact .refused

omit [Unicode] [Hashing] in
theorem eachStep_projectLock {α : Type} {body : Service α} (h : body.EachStep fun _ => Lawful) :
    (projectLock k body).EachStep fun _ => Lawful :=
  eachStep_bind (eachStep_acquireLock.mono fun _ _ _ => Quiet.lawful) fun _ =>
    eachStep_finallyDo h (eachStep_releaseLock.mono fun _ _ _ => Quiet.lawful)

/-- What an activation has checked before it takes the lock. -/
theorem eachStep_checkSnapshot {snapshot : RevisionRow} :
    (check Failure.snapshot (validateScriptFileSnapshot
      (.arr (snapshot.scriptFileSnapshot.map SnapshotEntry.toJson))
      snapshot.scriptFileDigest)).EachStep Quiet := by
  cases validateScriptFileSnapshot
      (.arr (snapshot.scriptFileSnapshot.map SnapshotEntry.toJson)) snapshot.scriptFileDigest with
  | ok u => exact eachStep_pure
  | error failure => exact eachStep_raise

/-- **An activation** by its actions. -/
theorem eachStep_activateRevision {revision : RevisionRow} {automatic isRepair : Bool} :
    (activateRevision r revision automatic isRepair).EachStep fun _ => Lawful := by
  refine eachStep_bind eachStep_ofExcept fun _ => ?_
  refine eachStep_bind (eachStep_getRevision.mono fun _ _ _ => Quiet.lawful) fun snapshot => ?_
  refine eachStep_bind (eachStep_getProject.mono fun _ _ _ => Quiet.lawful) fun project => ?_
  refine eachStep_bind eachStep_ofExcept fun _ => ?_
  refine eachStep_bind (eachStep_checkSnapshot.mono fun _ _ _ => Quiet.lawful) fun _ => ?_
  refine eachStep_projectLock (eachStep_bind eachStep_ofExcept fun _ => ?_)
  refine eachStep_bind (eachStep_verifyRevisionTree.mono fun t s s' heq => ?_) fun _ =>
    eachStep_promote.mono fun _ _ _ => Promotion.lawful
  rw [heq]
  exact .refl

/-- What the transaction of a deactivation leaves. -/
inductive Deactivation (p r : Id) (s : World) : World → Prop
  | refused : Deactivation p r s s
  | done {project : ProjectRow} (hproject : s.projects.row p = some project)
    (hactive : project.activeRevision = some r) : Deactivation p r s (s.deactivate p r)

omit [Unicode] [Hashing] in
theorem Deactivation.lawful {p : Id} {s s' : World} (h : Deactivation p r s s') : Lawful s s' := by
  cases h with
  | refused => exact .refl
  | done hproject hactive => exact lawful_deactivate hproject hactive

omit [Unicode] [Hashing] in
/-- **The transaction of a deactivation** by its outcomes. -/
theorem eachStep_deactivate {p : Id} :
    (deactivate p r).EachStep fun _ => Deactivation p r := by
  refine eachStep_stmt fun t c s answer s' hstep => ?_
  split at hstep
  · cases hstep
    exact .refused
  · next project hproject =>
    split at hstep
    · cases hstep
      exact .refused
    · next locked hrow =>
      split_ifs at hstep with howner hserves
      · cases hstep
        exact .refused
      · cases hstep
        exact .refused
      · cases hstep
        exact .refused
      · cases hstep
        exact .done hproject (by simpa using hserves)

omit [Unicode] [Hashing] in
/-- **A deactivation** by its actions. -/
theorem eachStep_deactivateRevision {p : Id} :
    (deactivateRevision p r).EachStep fun _ => Lawful :=
  eachStep_bind (eachStep_getProject.mono fun _ _ _ => Quiet.lawful) fun _ =>
    eachStep_projectLock (eachStep_deactivate.mono fun _ _ _ => Deactivation.lawful)

end Actions

/-! ## Staging and refreshing -/

section Sources

omit [DecidableEq Cls]

variable {r p pk : Id} {k : StorageKey} {α β : Type} {prog : Vanishing.Session α}
  {row : RevisionRow} {files : SourceFiles} {created activateOnce : Bool} {turns : ℕ} {now : Time}
  {limits : StorageLimits}

/-- No action of the program publishes anything. -/
abbrev Obeys {α : Type} (prog : Vanishing.Session α) : Prop :=
  (prog.prog Vanishing.execute).EachStep Quiet

/-- The updates of a row that stagers and refreshers settle. -/
inductive Settles : List RevisionStatus → RevisionStatus → List ErrorRecord → Prop
  | failed : Settles [.staging] .storageFailed [.storageWriteFailed]
  | written : Settles [.staging] .materialized []
  | refreshed : Settles [.staging, .storageFailed] .materialized []

/-- A statement of stagers and refreshers: it settles what they settle, and no row that it inserts
is active. -/
def Orderly : Vanishing.Statement → Prop
  | .insert row => row.status ≠ .active
  | .settle _ found status errors => Settles found status errors
  | _ => True

omit [Unicode] [Hashing] in
theorem Settles.progress {found : List RevisionStatus} {status : RevisionStatus}
    {errors : List ErrorRecord} (h : Settles found status errors) (hfound : row.status ∈ found) :
    Progress row { row with status, validationErrors := errors } := by
  cases h with
  | failed =>
    have hstatus : row.status = .staging := List.mem_singleton.mp hfound
    exact ⟨by simp [hstatus], by simp, .failed hstatus⟩
  | written =>
    have hstatus : row.status = .staging := List.mem_singleton.mp hfound
    exact ⟨by simp [hstatus], by simp, .written (by rw [hstatus]; rfl)⟩
  | refreshed =>
    have hstatus : row.status = .staging ∨ row.status = .storageFailed := by simpa using hfound
    rcases hstatus with hstatus | hstatus
    · exact ⟨by simp [hstatus], by simp, .written (by rw [hstatus]; rfl)⟩
    · exact ⟨by simp [hstatus], by simp, .written (by rw [hstatus]; rfl)⟩

omit [Unicode] [Hashing] in
theorem quiet_updateRevision {t : ThreadId} {s : World} {found : RevisionStatus → Bool}
    {change : RevisionRow → RevisionRow}
    (h : ∀ row, found row.status = true → Progress row (change row)) :
    Quiet t s (Vanishing.updateRevision r found change s).2 := by
  unfold Vanishing.updateRevision
  split
  · exact .refl
  · next row hrow =>
    split_ifs with hfound
    · refine .modify fun row' hrow' => ?_
      obtain rfl := Option.some.inj (hrow.symm.trans hrow')
      exact h row hfound
    · exact .refl

omit [Unicode] [Hashing] in
theorem status_storedRow {stored : RevisionRow} (h : Vanishing.storedRow row = some stored) :
    stored.status = row.status := by
  obtain ⟨manifest, -, h⟩ := Option.bind_eq_some_iff.mp h
  obtain ⟨errors, -, rfl⟩ := Option.map_eq_some_iff.mp h
  rfl

omit [Unicode] [Hashing] in
/-- **Each statement** of stagers and refreshers publishes nothing. -/
theorem quiet_execute {statement : Vanishing.Statement} (horderly : Orderly statement)
    {t : ThreadId} {c : Choice} {s s' : World} {b : Vanishing.Answer statement}
    (h : Vanishing.execute t statement c s = some (b, s')) : Quiet t s s' := by
  cases statement with
  | project p | previousSource p | revision r | declarations p | find row =>
    cases h
    exact .refl
  | insert row =>
    rw [Vanishing.execute] at h
    obtain rfl : (Vanishing.insertRevision row s).2 = s' := congrArg Prod.snd (Option.some.inj h)
    unfold Vanishing.insertRevision
    split
    · exact .refl
    · next stored hstored =>
      split_ifs
      · exact .refl
      · exact .refl
      · exact .insert (status_storedRow hstored ▸ horderly)
  | claim r =>
    rw [Vanishing.execute] at h
    obtain rfl := congrArg Prod.snd (Option.some.inj h)
    refine quiet_updateRevision fun row hfound => ⟨fun hactive => ?_, by simp, .retry hfound⟩
    rw [hactive] at hfound
    cases hfound
  | settle r found status errors =>
    cases h
    exact quiet_updateRevision fun row hfound => Settles.progress horderly (of_decide_eq_true hfound)
  | acceptSource p r pending =>
    rw [Vanishing.execute] at h
    split at h
    · cases h
      exact .refl
    · split_ifs at h
      · cases h
        exact .refl
      · cases h
        exact .modifyProject fun _ _ => ⟨rfl, rfl⟩
  | lock k =>
    rw [Vanishing.execute] at h
    split at h
    · next hlock =>
      cases h
      exact .of_rows_eq rfl rfl rfl (ownLocks_setLock (by simp [hlock]) (by simp))
    · next u n hlock =>
      split_ifs at h with hu
      cases h
      exact .of_rows_eq rfl rfl rfl (ownLocks_setLock (by simp [hlock, hu]) (by simp))
    · cases h
  | unlock k =>
    rw [Vanishing.execute] at h
    split at h
    · next u n hlock =>
      split_ifs at h with hu hn
      · cases h
        exact .of_rows_eq rfl rfl rfl (ownLocks_setLock (by simp [hlock, hu]) (by simp))
      · cases h
        exact .of_rows_eq rfl rfl rfl (ownLocks_setLock (by simp [hlock, hu]) (by simp))
      · cases h
        exact .refl
    · cases h
      exact .refl

omit [Unicode] [Hashing] in
theorem obeys_bind {f : α → Vanishing.Session β} (h : Obeys prog) (hf : ∀ a, Obeys (f a)) :
    Obeys (prog >>= f) := by
  rw [Obeys, Labelled.prog_bind]
  exact eachStep_bind h hf

omit [Unicode] [Hashing] in
theorem obeys_done {result : Except Failure α} : Obeys (.done result) := trivial

omit [Unicode] [Hashing] in
theorem obeys_ask {statement : Vanishing.Statement} (h : Orderly statement) :
    Obeys (Vanishing.ask statement) :=
  Labelled.eachStep_ask fun _ _ _ _ _ hstep => quiet_execute h hstep

omit [Unicode] [Hashing] in
theorem obeys_projectLock (h : Obeys prog) : Obeys (Vanishing.projectLock k prog) := by
  refine obeys_bind (obeys_ask trivial) fun _ => ?_
  rw [Obeys, Labelled.prog_finallyDo]
  exact eachStep_finallyDo h (obeys_ask trivial)

omit [Unicode] [Hashing] in
/-- A program of the store changes objects only. -/
theorem obeys_store {program : Service α} : Obeys (Vanishing.store program) := by
  induction program with
  | done result => trivial
  | act step next ih =>
    refine ⟨fun t c s b s' h => ?_, ih⟩
    obtain ⟨answer, -, heq⟩ := Option.map_eq_some_iff.mp h
    cases heq
    exact .of_rows_eq rfl rfl rfl .refl

omit [Unicode] [Hashing] in
theorem obeys_projectOrVanished : Obeys (Vanishing.projectOrVanished p) := by
  refine obeys_bind (obeys_ask trivial) fun answer => ?_
  split
  · exact obeys_done
  · exact obeys_done

omit [Unicode] [Hashing] in
theorem obeys_revisionOrVanished : Obeys (Vanishing.revisionOrVanished r) := by
  refine obeys_bind (obeys_ask trivial) fun answer => ?_
  split
  · exact obeys_done
  · exact obeys_done

omit [Unicode] [Hashing] in
theorem obeys_createRevision (h : row.status ≠ .active) :
    Obeys (Vanishing.createRevision row) := by
  refine obeys_bind (obeys_ask h) fun answer => ?_
  split
  · exact obeys_done
  · exact obeys_done

omit [Unicode] [Hashing] in
theorem obeys_getOrCreate (h : row.status ≠ .active) : Obeys (Vanishing.getOrCreate row) := by
  refine obeys_bind (obeys_ask trivial) fun answer => ?_
  split
  · exact obeys_done
  · refine obeys_bind (obeys_ask h) fun inserted => ?_
    split
    · exact obeys_done
    · refine obeys_bind (obeys_ask trivial) fun again => ?_
      split
      · exact obeys_done
      · exact obeys_done
    · exact obeys_done

omit [Unicode] [Hashing] in
theorem obeys_acceptSource : Obeys (Vanishing.acceptSource r row activateOnce) := by
  unfold Vanishing.acceptSource
  split_ifs
  · refine obeys_bind (obeys_ask trivial) fun previous => ?_
    split
    · exact obeys_done
    · refine obeys_bind (obeys_ask trivial) fun answer => ?_
      split
      · exact obeys_done
      · exact obeys_done
  · exact obeys_done

theorem obeys_writeClaimed : Obeys (Vanishing.writeClaimed k files r row created) := by
  have hwrite : Obeys (do
      Labelled.ofExcept (rowManifest row)
      Vanishing.store (writeRevision k (row.digest.getD []) files row.manifest) :
        Vanishing.Session Unit) :=
    obeys_bind obeys_done fun _ => obeys_store
  have hattempt : Obeys (do
      Labelled.ofExcept (rowManifest row)
      Vanishing.store (writeRevision k (row.digest.getD []) files row.manifest) :
        Vanishing.Session Unit).attempt := by
    rw [Obeys, Labelled.prog_attempt]
    exact eachStep_attempt hwrite
  refine obeys_bind hattempt fun written => ?_
  split
  · split_ifs
    · exact obeys_bind (obeys_ask Settles.failed) fun _ => obeys_done
    · exact obeys_done
  · refine obeys_bind (obeys_ask Settles.written) fun _ => ?_
    exact obeys_bind obeys_revisionOrVanished fun _ => obeys_done

theorem obeys_settleLoop : Obeys (Vanishing.settleLoop k files r created turns row) := by
  induction turns generalizing row with
  | zero => exact obeys_done
  | succ turns ih =>
    unfold Vanishing.settleLoop
    split_ifs
    · refine obeys_bind obeys_done fun _ => ?_
      exact obeys_bind obeys_store fun _ => obeys_done
    · exact obeys_done
    · refine obeys_bind (obeys_ask trivial) fun claimed => ?_
      cases claimed with
      | true => exact obeys_writeClaimed
      | false => exact obeys_bind obeys_revisionOrVanished fun row => ih

/-- **A staging call** by its actions. -/
theorem obeys_stageRevision :
    Obeys (Vanishing.stageRevision p files limits activateOnce now turns) := by
  have hlocked : Obeys (Vanishing.stageLocked p files limits now turns) := by
    unfold Vanishing.stageLocked
    split
    · exact obeys_done
    · refine obeys_bind (obeys_ask trivial) fun snapshot => ?_
      dsimp only
      split_ifs
      · exact obeys_bind (obeys_createRevision (by simp [stagedRow])) fun _ => obeys_done
      · refine obeys_bind obeys_projectOrVanished fun key => obeys_projectLock ?_
        exact obeys_bind (obeys_getOrCreate (by simp)) fun found => obeys_settleLoop
  refine obeys_bind obeys_projectOrVanished fun key => obeys_projectLock ?_
  refine obeys_bind hlocked fun staged => ?_
  exact obeys_bind obeys_acceptSource fun _ => obeys_done

/-- **A refreshing call** by its actions. -/
theorem obeys_refreshRevisionScriptFiles :
    Obeys (Vanishing.refreshRevisionScriptFiles p pk now) := by
  have hlocked : Obeys (Vanishing.refreshLocked pk now) := by
    refine obeys_bind obeys_revisionOrVanished fun source => ?_
    split_ifs
    · exact obeys_done
    · refine obeys_bind obeys_done fun _ => obeys_bind (obeys_ask trivial) fun snapshot => ?_
      refine obeys_bind obeys_projectOrVanished fun key => obeys_projectLock ?_
      refine obeys_bind obeys_store fun _ => ?_
      refine obeys_bind (obeys_getOrCreate (by simp)) fun found => ?_
      dsimp only
      split_ifs
      · refine obeys_bind (obeys_ask Settles.refreshed) fun _ => ?_
        exact obeys_bind obeys_revisionOrVanished fun _ => obeys_done
      · exact obeys_done
  refine obeys_bind obeys_projectOrVanished fun key => obeys_projectLock ?_
  refine obeys_bind hlocked fun staged => ?_
  exact obeys_bind obeys_acceptSource fun _ => obeys_done

end Sources

/-! ## Runs -/

/-- **Every call** by its actions. -/
theorem Call.body_eachStep (call : Call Cls) : call.body.EachStep fun _ => Lawful := by
  have hquiet : ∀ {prog : Service Unit}, prog.EachStep Quiet → prog.EachStep fun _ => Lawful :=
    fun h => h.mono fun _ _ _ => Quiet.lawful
  cases call with
  | stage project files limits activateOnce now turns =>
    exact hquiet (eachStep_bind obeys_stageRevision fun _ => eachStep_pure)
  | refresh project pk now =>
    exact hquiet (eachStep_bind obeys_refreshRevisionScriptFiles fun _ => eachStep_pure)
  | validate env r job => exact hquiet eachStep_validateRevision
  | activate r revision automatic isRepair => exact eachStep_activateRevision
  | deactivate project r => exact eachStep_deactivateRevision

theorem verified_lifecycle : (lifecycle : System World Choice Failure (Call Cls)).Verified
    (fun _ => Lawful) (fun _ _ => Lawful) (fun _ _ => True) :=
  Prog.EachStep.verified Call.body_eachStep (fun _ _ hserved => ⟨hserved, .refl⟩)
    fun _ _ hserved => ⟨hserved, .refl⟩

section Runs

variable {pool pool' : Pool World Choice Failure (Call Cls)} {s₀ : World} {next : ThreadId}

theorem lawful_step {event : Event Choice (Call Cls)}
    (hsound : Sound (fun _ => Lawful) (fun _ _ => Lawful) (fun _ _ => True) pool)
    (h : pool.step lifecycle event = some pool') : Lawful pool.world pool'.world := by
  rcases (verified_lifecycle.step hsound h).1.world_change verified_lifecycle with heq | ⟨_, h⟩
  · exact heq ▸ .refl
  · exact h

/-- **One step of a run** advances every row, and keeps what the projects serve. -/
theorem sound_served (hserved : Served s₀)
    (hrun : Run lifecycle (fun _ _ => True) (Pool.start s₀ next) pool) :
    Sound (fun _ => Lawful) (fun _ _ => Lawful) (fun _ _ => True) pool ∧ Served pool.world := by
  have hstart : Sound (fun _ => Lawful) (fun _ _ => Lawful) (fun _ _ => True)
      (Pool.start s₀ next : Pool World Choice Failure (Call Cls)) := .start fun _ _ => trivial
  refine ⟨verified_lifecycle.run_sound hstart hrun, ?_⟩
  exact verified_lifecycle.run_invariant (fun _ _ _ hlawful hs => (hlawful hs).1) hstart hserved hrun

/-- **The status table is followed**: every change of a revision's status is an edge of it, and a
verdict that is recorded stands whatever is called afterwards. -/
theorem statuses_follow_table (hserved : Served s₀)
    (hrun : Run lifecycle (fun _ _ => True) (Pool.start s₀ next) pool) :
    (∀ event pool', pool.step lifecycle event = some pool' →
      ∀ r row, pool.world.revisions.row r = some row →
        ∃ row', pool'.world.revisions.row r = some row' ∧
          (row'.status ≠ row.status → StatusEdge row.status row'.status)) ∧
    ∀ pool', Run lifecycle (fun _ _ => True) pool pool' →
      ∀ r row, pool.world.revisions.row r = some row →
        row.status = .valid ∨ row.status = .invalid →
        ∃ row', pool'.world.revisions.row r = some row' ∧ Upheld row row' := by
  obtain ⟨hsound, hs⟩ := sound_served hserved hrun
  refine ⟨fun event pool' hstep r row hrow => ?_, fun pool' hlater r row hrow hverdict => ?_⟩
  · obtain ⟨row', hrow', hadvance⟩ := (lawful_step hsound hstep hs).2 r row hrow
    exact ⟨row', hrow', hadvance.edge⟩
  · have hsettled : row.status.settled = true := by
      rcases hverdict with h | h
      · rw [h]
        rfl
      · rw [h]
        rfl
    -- each step of the later run keeps the verdict
    induction hlater with
    | refl => exact ⟨row, hrow, .refl hsettled⟩
    | tail hprefix hstep ih =>
      obtain ⟨event, -, hstep⟩ := hstep
      obtain ⟨row₁, hrow₁, hupheld⟩ := ih
      obtain ⟨hsound₁, hs₁⟩ := sound_served hserved (hrun.trans hprefix)
      obtain ⟨row₂, hrow₂, hadvance⟩ := (lawful_step hsound₁ hstep hs₁).2 r row₁ hrow₁
      exact ⟨row₂, hrow₂, hupheld.advance hadvance⟩

end Runs

omit [DecidableEq Cls] [Unicode] [Hashing] in
/-- A revision that validation rejected is staged again. -/
theorem statuses_follow_table_restaged :
    let S := @lifecycle Unit _ asciiUnicode (tableHashing exampleTable)
    let start : Pool World Choice Failure (Call Unit) := Pool.start Vanishing.rejectedWorld 1
    let call := Call.stage 1 (oneFile (py "a.py")) ⟨10, 10, 10⟩ false 0 1
    ∃ row', ((start.spawn S call).drive S 1 .proceed 20).world.revisions.row 1 = some row' ∧
      Upheld Vanishing.rejectedRow row' := by
  intro S start call
  have hserved : Served Vanishing.rejectedWorld := by
    intro p project r hproject hserves
    rcases Table.row_insert_eq_some hproject with ⟨-, rfl⟩ | hold
    · cases hserves
    · cases hold
  have hstart : Vanishing.rejectedWorld.revisions.row 1 = some Vanishing.rejectedRow :=
    Table.row_insert_next
  have hrejected : Vanishing.rejectedRow.status = .invalid := rfl
  have hrun : Run S (fun _ _ => True) start ((start.spawn S call).drive S 1 .proceed 20) :=
    @run_drive World Choice Failure (Call Unit) S start (start.spawn S call) 1 .proceed 20
      (run_spawn call .refl)
  obtain ⟨-, hupheld⟩ := @statuses_follow_table Unit _ asciiUnicode (tableHashing exampleTable)
    start Vanishing.rejectedWorld 1 hserved .refl
  exact hupheld _ hrun 1 _ hstart (.inr hrejected)

end Lifecycle

end NetBoxScripts
