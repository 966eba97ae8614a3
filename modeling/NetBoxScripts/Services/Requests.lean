import NetBoxScripts.Models.Declarations
import NetBoxScripts.Services.Publication

/-!
# Requested activations

A source may be accepted with a request to activate it once. The validation job activates what was
requested, or what the policy of the project asks for (`jobs.py`), if it is still the accepted
source and its declarations are the enabled ones. Every write of a project row, and of what is
declared, is made under the project lock.

## Main definitions

* `acceptSource`: the acceptance of a source, with a record of it
* `promote`, `activateRevision`: the promotion, statement by statement
* `validationJob`, `refreshSource`: the jobs
* `Work`, `requests`: what is done, and the system of any number of it
* `Requested`: the request that a project has not answered yet
* `Warranted`: what a project row says of its source
* `Mindful`: what a thread may change

## Main results

* `Warranted.accept`, `Warranted.promote`: an acceptance and a promotion keep it
-/

namespace NetBoxScripts

namespace Requests

open Lifecycle (pointer keyOf OwnLocks Quiet Advance)

/-! ## Accepting a source -/

section Services

variable {Cls : Type} [DecidableEq Cls] [Unicode] [Hashing]

/-- The rows of an acceptance, and the record of it. -/
def accept (s : World) (p r : Id) (activateOnce pending : Bool) : World :=
  { s.modifyProject p fun project =>
      { project with sourceRevision := some r, sourceActivationPending := pending } with
    record := { s.record with
      acceptances := s.record.acceptances ++ [⟨p, r, activateOnce⟩] } }

/-- `projects.update(source_revision=…, source_activation_pending=…)`, with its commit. -/
def updateSource (p r : Id) (activateOnce pending : Bool) : Service Unit := .stmt fun _ _ s =>
  match s.projects.row p with
  | none => some (.ok (), s)
  | some _ =>
    if (s.revisions.row r).isNone then some (.error .integrity, s)
    else some (.ok (), accept s p r activateOnce pending)

/-- `_accept_source(revision, using=…, activate_once=…)` -/
def acceptSource (r : Id) (row : RevisionRow) (activateOnce : Bool) : Service Unit :=
  if Vanishing.hasDigest row ∧ row.status.unstored = false then do
    match ← Prog.query fun s => s.projects.row row.project with
    | none => .raise .doesNotExist
    | some previous =>
      let pending := activateOnce ||
        (decide (previous.sourceRevision = some r) && previous.sourceActivationPending)
      updateSource row.project r activateOnce (pending && decide (row.status ≠ .active))
  else pure ()

/-- `stage_revision(project, files, activate_once=…)`, of an upload or a reconciliation, with the
files it comes to. Its callers hold the lock around it too, which only leaves fewer runs. Where
nobody else writes it ends as `stageSource` (`Serial.stageRevision_alone`). -/
def stageRevision (project : Id) (files : SourceFiles) (limits : StorageLimits)
    (activateOnce : Bool) (now : Time) (turns : ℕ) : Service Unit := do
  let key ← getProject project .projectVanished
  projectLock key.storageKey do
    let staged ← (Vanishing.stageLocked project files limits now turns).prog Vanishing.execute
    acceptSource staged.1.revision staged.2 activateOnce

/-- `refresh_revision_script_files(revision)` -/
def refreshRevisionScriptFiles (project pk : Id) (now : Time) : Service Unit := do
  let key ← getProject project .projectVanished
  projectLock key.storageKey do
    let staged ← (Vanishing.refreshLocked pk now).prog Vanishing.execute
    acceptSource staged.1.revision staged.2 false

/-- `ProjectScriptFileRefreshJob.run(project_id)` -/
def refreshSource (project : Id) (now : Time) : Service Unit := do
  match ← Prog.query fun s => s.projects.row project with
  | none => pure ()
  | some found =>
    projectLock found.storageKey do
      match ← Prog.query fun s => s.latestStoredRevision project with
      | none => pure ()
      | some (pk, source) => refreshRevisionScriptFiles source.project pk now

/-! ## Activations -/

omit [Unicode] in
/-- The question `_promote` asks of an automatic activation, under the locks. -/
def isCurrent (r : Id) (project : ProjectRow) (locked : RevisionRow) : Service Bool :=
  if project.sourceRevision ≠ some r then pure false
  else if project.sourceActivationPending = false ∧
      project.activationPolicy ≠ .automaticIfValid then pure false
  else do
    let selection ← Prog.query fun s => buildScriptFileSnapshot (s.declarations locked.project)
    pure (decide (snapshotDigest selection = locked.scriptFileDigest))

/-- The rest of `_promote`, with the callback and the commit, for the rows that were read. -/
def commitPromotion (snapshot : RevisionRow) (r : Id) (project : ProjectRow) (locked : RevisionRow)
    (isRepair : Bool) : Service Unit := .stmt fun _ c s =>
  if ¬ Lifecycle.SameInputs locked snapshot then some (.error .activationRefused, s)
  else
    let already := locked.status = .active ∧ project.activeRevision = some r
    match Lifecycle.requireActivatable locked already with
    | .error failure => some (.error failure, s)
    | .ok () =>
      if isRepair ∧ project.activeRevision ≠ some r then some (.error .activationRefused, s)
      else
        match Lifecycle.validatedRecords locked with
        | .error failure => some (.error failure, s)
        | .ok () =>
          if c = .fail then some (.error .escaped, s)
          else if already then some (.ok (), s.promote locked.project r locked project)
          else
            match project.activeRevision with
            | none => some (.ok (), s.promote locked.project r locked project)
            | some q =>
              match s.revisions.row q with
              | none => some (.error .revisionVanished, s)
              | some previous =>
                if previous.project ≠ locked.project then some (.error .revisionVanished, s)
                else some (.ok (), s.promote locked.project r locked project)

/-- `_promote(snapshot, revision_pk, ...)`, statement by statement; `Lifecycle.promote` is the same
as one statement (`Serial.promote_alone`). -/
def promote (snapshot : RevisionRow) (r : Id) (automatic isRepair : Bool) : Service Unit := do
  let project ← getProject snapshot.project .projectVanished
  let locked ← getRevision r .revisionVanished
  if locked.project ≠ snapshot.project then .raise .revisionVanished
  else do
    let current ← if automatic then isCurrent r project locked else pure true
    if current then commitPromotion snapshot r project locked isRepair else pure ()

/-- `activate_revision(revision, automatic=…, repair=…)`, with `promote_revision`. -/
def activateRevision (r : Id) (revision : RevisionRow) (automatic isRepair : Bool) :
    Service Unit := do
  Prog.ofExcept (Lifecycle.validatedRecords revision)
  let snapshot ← getRevision r .revisionVanished
  let project ← getProject snapshot.project .projectVanished
  Prog.ofExcept (Lifecycle.requireActivatable snapshot
    (snapshot.status = .active ∧ project.activeRevision = some r))
  check .snapshot (validateScriptFileSnapshot
    (.arr (snapshot.scriptFileSnapshot.map SnapshotEntry.toJson)) snapshot.scriptFileDigest)
  projectLock project.storageKey do
    Prog.ofExcept (Vanishing.rowManifest snapshot)
    verifyRevisionTree project.storageKey (snapshot.digest.getD []) snapshot.manifest
    transaction (promote snapshot r automatic isRepair)

/-- `RevisionValidationJob.run(revision_pk)` -/
def validationJob (env : ValidationEnv Cls) (r job : Id) : Service Unit := do
  match ← Prog.query fun s => s.revisions.row r with
  | none => pure ()
  | some found =>
    if found.status.activatable = false ∧ found.status ≠ .active then
      Lifecycle.validateRevision env r job
    let revision ← getRevision r .doesNotExist
    if revision.status = .invalid then pure () else activateRevision r revision true false

/-! ## Declarations -/

omit [Hashing] in
/-- The transaction of `_save_declaration`. The row is locked from where it is read to the end, and
the project's write lock keeps other saves out. -/
def storeScriptFile (file : ScriptFileInstance) (fields : SavedFields) : Service Unit :=
  .stmt fun _ c s =>
    match saveDeclaration s.files file fields with
    | .error _ => some (.error .validation, s)
    | .ok files => if c = .fail then some (.error .escaped, s) else some (.ok (), { s with files })

omit [Hashing] in
/-- `ScriptFile.save(update_fields=…)` -/
def saveScriptFile (file : ScriptFileInstance) (fields : SavedFields) : Service Unit := do
  let project ← getProject file.project .projectVanished
  projectWriteLock project.storageKey (storeScriptFile file fields)

omit [Unicode] [Hashing] in
/-- `script_file.delete()`, of a declaration of the project: `lock_declaration_delete` takes the
project's write lock for its transaction. -/
def deleteScriptFile (p f : Id) : Service Unit := do
  match ← Prog.query fun s => s.projects.row p with
  | none => pure ()
  | some project =>
    projectWriteLock project.storageKey (.stmt fun _ c s =>
      match s.files.row f with
      | none => some (.ok (), s)
      | some file =>
        -- no declaration changes its project
        if file.project ≠ p then some (.ok (), s)
        else if c = .fail then some (.error .escaped, s)
        else some (.ok (), { s with files := s.files.eraseAll (· == f) }))

end Services

/-- An upload or a reconciliation, a refresh, a validation job, a manual activation or deactivation,
a save of the project, or a change of its declarations. -/
inductive Work (Cls : Type)
  | stage (project : Id) (files : SourceFiles) (limits : StorageLimits) (activateOnce : Bool)
    (now : Time) (turns : ℕ)
  | refresh (project : Id) (now : Time)
  | validate (env : ValidationEnv Cls) (r job : Id)
  | activate (r : Id) (revision : RevisionRow) (isRepair : Bool)
  | deactivate (project r : Id)
  | saveProject (p : Id) (fields : ProjectRow) (authorized : Option (List GatedField))
    (updateFields : Option (List ProjectField))
  | saveFile (file : ScriptFileInstance) (fields : SavedFields)
  | deleteFile (project f : Id)

variable {Cls : Type} [DecidableEq Cls] [Unicode] [Hashing]

/-- What is done. -/
def Work.body : Work Cls → Service Unit
  | .stage project files limits activateOnce now turns =>
    stageRevision project files limits activateOnce now turns
  | .refresh project now => refreshSource project now
  | .validate env r job => validationJob env r job
  | .activate r revision isRepair => activateRevision r revision false isRepair
  | .deactivate project r => Lifecycle.deactivateRevision project r
  | .saveProject p fields authorized updateFields =>
    Publication.saveProject p fields authorized updateFields
  | .saveFile file fields => saveScriptFile file fields
  | .deleteFile project f => deleteScriptFile project f

/-- What a validation job activates it activates automatically, and nothing else does. -/
def Work.automatic : Work Cls → Bool
  | .validate .. => true
  | _ => false

/-- Any number of these, any of which may end at any point, while the clock goes on. -/
def requests : System World Choice Failure (Work Cls) where
  body := Work.body
  reap t s := s.reap t
  tick s := { s with now := s.now + 1 }

/-! ## What a project row says of its source -/

/-- **The request**: of the sources that the project accepted, the last with a request is this
revision, and none but it was accepted since. -/
def Requested (acceptances : List Acceptance) (p r : Id) : Prop :=
  ∃ before request after, acceptances.filter (·.project = p) = before ++ request :: after ∧
    request.activateOnce = true ∧ request.revision = r ∧
      ∀ later ∈ after, later.activateOnce = false ∧ later.revision = r

/-- **The source** is a revision of the project, and where its activation is pending it was
requested, and is not active. -/
structure Warranted (s : World) : Prop where
  owner : ∀ p project r, s.projects.row p = some project → project.sourceRevision = some r →
    ∃ row, s.revisions.row r = some row ∧ row.project = p
  requested : ∀ p project, s.projects.row p = some project →
    project.sourceActivationPending = true →
      ∃ r, project.sourceRevision = some r ∧ Requested s.record.acceptances p r
  idle : ∀ p project r row, s.projects.row p = some project →
    project.sourceActivationPending = true → project.sourceRevision = some r →
      s.revisions.row r = some row → row.status ≠ .active

section Warrants

omit [DecidableEq Cls] [Unicode] [Hashing]

variable {s s' : World} {p r : Id}

/-- A request is the last acceptance. -/
theorem requested_concat {acceptances : List Acceptance} :
    Requested (acceptances ++ [⟨p, r, true⟩]) p r := by
  refine ⟨acceptances.filter (·.project = p), ⟨p, r, true⟩, [], ?_, rfl, rfl,
    fun _ hlater => by cases hlater⟩
  rw [List.filter_append]
  simp

/-- The same source is accepted again. -/
theorem Requested.again {acceptances : List Acceptance}
    (h : Requested acceptances p r) :
    Requested (acceptances ++ [⟨p, r, false⟩]) p r := by
  obtain ⟨before, request, after, hsplit, honce, hrevision, hafter⟩ := h
  refine ⟨before, request, after ++ [⟨p, r, false⟩], ?_, honce, hrevision, ?_⟩
  · rw [List.filter_append, hsplit]
    simp
  · intro later hlater
    rcases List.mem_append.mp hlater with hlater | hlater
    · exact hafter later hlater
    · obtain rfl := List.mem_singleton.mp hlater
      exact ⟨rfl, rfl⟩

/-- What another project accepts is no matter. -/
theorem Requested.other {acceptances : List Acceptance} {a : Acceptance} (hne : a.project ≠ p) :
    Requested (acceptances ++ [a]) p r ↔ Requested acceptances p r := by
  unfold Requested
  rw [List.filter_append, List.filter_cons_of_neg (by simpa using hne), List.filter_nil,
    List.append_nil]

/-- Where no source is accepted and no pending source becomes active. -/
theorem Warranted.keep (h : Warranted s)
    (hacceptances : s'.record.acceptances = s.record.acceptances)
    (hprojects : ∀ p project', s'.projects.row p = some project' → ∃ project,
      s.projects.row p = some project ∧ project'.sourceRevision = project.sourceRevision ∧
        (project'.sourceActivationPending = true → project.sourceActivationPending = true))
    (hrevisions : ∀ r row, s.revisions.row r = some row → ∃ row', s'.revisions.row r = some row' ∧
      row'.project = row.project)
    (hactive : ∀ p project' r row row', s'.projects.row p = some project' →
      project'.sourceActivationPending = true → project'.sourceRevision = some r →
        s.revisions.row r = some row → row.project = p → s'.revisions.row r = some row' →
          row'.status = .active → row.status = .active) : Warranted s' := by
  refine ⟨fun p project' r hproject' hsource => ?_, fun p project' hproject' hpending => ?_,
    fun p project' r row' hproject' hpending hsource hrow' hstatus => ?_⟩
  all_goals obtain ⟨project, hproject, hsame, hearlier⟩ := hprojects p project' hproject'
  · obtain ⟨row, hrow, howner⟩ := h.owner p project r hproject (hsame ▸ hsource)
    obtain ⟨row', hrow', howner'⟩ := hrevisions r row hrow
    exact ⟨row', hrow', howner'.trans howner⟩
  · rw [hacceptances, hsame]
    exact h.requested p project hproject (hearlier hpending)
  · have hsource' := hsame ▸ hsource
    obtain ⟨row, hrow, howner⟩ := h.owner p project r hproject hsource'
    exact h.idle p project r row hproject (hearlier hpending) hsource' hrow
      (hactive p project' r row row' hproject' hpending hsource hrow howner hrow' hstatus)

/-- **An acceptance** of a revision of the project. -/
theorem Warranted.accept (h : Warranted s) {project : ProjectRow} {row : RevisionRow}
    {activateOnce pending : Bool} (hproject : s.projects.row p = some project)
    (hrow : s.revisions.row r = some row) (howner : row.project = p)
    (hpending : pending = true → row.status ≠ .active ∧ (activateOnce = true ∨
      project.sourceRevision = some r ∧ project.sourceActivationPending = true)) :
    Warranted (accept s p r activateOnce pending) := by
  have hcases : ∀ q project', (Requests.accept s p r activateOnce pending).projects.row q =
      some project' → (q = p ∧ project'.sourceRevision = some r ∧
        project'.sourceActivationPending = pending) ∨ q ≠ p ∧ s.projects.row q = some project' := by
    intro q project' hproject'
    obtain ⟨old, hold, rfl⟩ := Table.row_modify_eq_some hproject'
    split_ifs with hq
    · exact .inl ⟨hq, rfl, rfl⟩
    · exact .inr ⟨hq, hold⟩
  refine ⟨fun q project' r' hproject' hsource => ?_, fun q project' hproject' hwaits => ?_,
    fun q project' r' row' hproject' hwaits hsource hrow' => ?_⟩
  all_goals rcases hcases q project' hproject' with ⟨rfl, hsame, hsame'⟩ | ⟨hq, hold⟩
  · obtain rfl := Option.some.inj (hsame.symm.trans hsource)
    exact ⟨row, hrow, howner⟩
  · exact h.owner q project' r' hold hsource
  · refine ⟨r, hsame, ?_⟩
    rcases (hpending (hsame' ▸ hwaits)).2 with rfl | ⟨hsource, hwaited⟩
    · exact requested_concat
    · -- the pending source is accepted again, with a request or without
      obtain ⟨r', hsource', hrequested⟩ := h.requested q project hproject hwaited
      obtain rfl := Option.some.inj (hsource.symm.trans hsource')
      cases activateOnce with
      | true => exact requested_concat
      | false => exact hrequested.again
  · obtain ⟨r', hsource, hrequested⟩ := h.requested q project' hold hwaits
    exact ⟨r', hsource, (Requested.other fun heq => hq heq.symm).mpr hrequested⟩
  · obtain rfl := Option.some.inj (hsame.symm.trans hsource)
    obtain rfl := Option.some.inj (hrow.symm.trans hrow')
    exact (hpending (hsame' ▸ hwaits)).1
  · exact h.idle q project' r' row' hold hwaits hsource hrow'

/-- **A promotion** answers the request for the revision. -/
theorem Warranted.promote (h : Warranted s) {row locked : RevisionRow} {project : ProjectRow}
    (hrow : s.revisions.row r = some row) (howner : row.project = p) :
    Warranted (s.promote p r locked project) := by
  have hrevision : ∀ q other', (s.promote p r locked project).revisions.row q = some other' →
      q ≠ r → other'.status = .active → ∃ other, s.revisions.row q = some other ∧
        other.status = .active := by
    intro q other' hother' hq hstatus
    by_cases halready : locked.status = .active ∧ project.activeRevision = some r
    · have hrevisions : (s.promote p r locked project).revisions = s.revisions := if_pos halready
      rw [hrevisions] at hother'
      exact ⟨other', hother', hstatus⟩
    · rw [Lifecycle.row_promote halready] at hother'
      obtain ⟨other, hother, rfl⟩ := Option.map_eq_some_iff.mp hother'
      rw [if_neg hq] at hstatus
      split_ifs at hstatus
      exact ⟨other, hother, hstatus⟩
  refine h.keep rfl (fun q project' hproject' => ?_) (fun q other hother => ?_)
    fun q project' r' other other' hproject' hwaits hsource hother howner' hother' hstatus => ?_
  · obtain ⟨old, hold, rfl⟩ := Table.row_modify_eq_some hproject'
    refine ⟨old, hold, ?_⟩
    split_ifs
    · exact ⟨rfl, fun hwaits => (Bool.and_eq_true_iff.mp hwaits).1⟩
    · exact ⟨rfl, id⟩
  · by_cases halready : locked.status = .active ∧ project.activeRevision = some r
    · have hrevisions : (s.promote p r locked project).revisions = s.revisions := if_pos halready
      exact ⟨other, hrevisions ▸ hother, rfl⟩
    · refine ⟨_, (Lifecycle.row_promote halready q).trans (congrArg _ hother), ?_⟩
      split_ifs <;> rfl
  · by_cases hr : r' = r
    · -- the project of the revision no longer waits for it
      subst hr
      obtain rfl := Option.some.inj (hrow.symm.trans hother)
      obtain rfl := howner'.symm.trans howner
      obtain ⟨old, -, rfl⟩ := Table.row_modify_eq_some hproject'
      rw [if_pos rfl] at hwaits hsource
      have hsource' : old.sourceRevision = some r' := hsource
      simp [hsource'] at hwaits
    · obtain ⟨other'', hother'', hactive⟩ := hrevision r' other' hother' hr hstatus
      obtain rfl := Option.some.inj (hother.symm.trans hother'')
      exact hactive

/-- A deactivation makes nothing active. -/
theorem Warranted.deactivate (h : Warranted s) : Warranted (s.deactivate p r) := by
  refine h.keep rfl (fun q project' hproject' => ?_) (fun q other hother => ?_)
    fun q project' r' other other' _ _ _ hother _ hother' hstatus => ?_
  · obtain ⟨old, hold, rfl⟩ := Table.row_modify_eq_some hproject'
    refine ⟨old, hold, ?_⟩
    split_ifs <;> exact ⟨rfl, id⟩
  · by_cases hq : q = r
    · subst hq
      exact ⟨_, (Table.row_modify_self ..).trans (congrArg _ hother), rfl⟩
    · exact ⟨other, (Table.row_modify_of_ne hq).trans hother, rfl⟩
  · obtain ⟨old, hold, rfl⟩ := Table.row_modify_eq_some hother'
    obtain rfl := Option.some.inj (hother.symm.trans hold)
    split_ifs at hstatus
    exact hstatus

end Warrants

/-! ## Mindful changes -/

/-- The enabled declarations of a project, as a revision freezes them. -/
def selection (s : World) (p : Id) : List SnapshotEntry :=
  buildScriptFileSnapshot (s.declarations p)

/-- The thread holds the lock of the project. -/
def Locked (t : ThreadId) (s : World) (p : Id) : Prop := ∃ k, keyOf s p = some k ∧ s.Holds t k

/-- **What a thread may change**: of a project, of what it declares and of which of its revisions is
active nothing but under its lock. -/
structure Mindful (t : ThreadId) (s s' : World) : Prop where
  keyOf : keyOf s' = keyOf s
  locks : OwnLocks t s s'
  project : ∀ p, s'.projects.row p ≠ s.projects.row p → Locked t s p
  selection : ∀ p, selection s' p ≠ selection s p → Locked t s p
  revision : ∀ r row, s.revisions.row r = some row → ∃ row', s'.revisions.row r = some row' ∧
    row'.project = row.project ∧ row'.scriptFileDigest = row.scriptFileDigest ∧
      ((row'.status = .active ↔ row.status = .active) ∨ Locked t s row.project)
  warranted : Warranted s → Warranted s'

/-- A move of a pointer, to a revision for which there is ground. -/
def Grounded (s s' : World) : Prop :=
  ∀ p r, pointer s' p = some r → pointer s p ≠ some r → ∃ project row,
    s.projects.row p = some project ∧ s.revisions.row r = some row ∧
      AutomaticGround s p r row project

/-- What one action may do, of an automatic activation or of anything else. -/
def Keeps (automatic : Bool) (t : ThreadId) (s s' : World) : Prop :=
  Mindful t s s' ∧ (automatic = true → Grounded s s')

/-- Projects, declarations and acceptances are as they were. -/
structure Steady (s s' : World) : Prop where
  projects : s'.projects = s.projects
  selection : ∀ p, selection s' p = selection s p
  acceptances : s'.record.acceptances = s.record.acceptances

/-- What is done that no activation depends on. -/
def Aside (t : ThreadId) (s s' : World) : Prop := Quiet t s s' ∧ Steady s s'

/-- What is done so, and takes no lock. -/
def Beside (t : ThreadId) (s s' : World) : Prop := Aside t s s' ∧ s'.locks = s.locks

/-- The project has the storage key, and the thread holds its lock so many times. -/
def Under (t : ThreadId) (p : Id) (k : StorageKey) (n : ℕ) (s : World) : Prop :=
  keyOf s p = some k ∧ s.Depth t k n

/-- The revision is there, is the project's, and is active or not. -/
def Known (p r : Id) (active : Prop) (s : World) : Prop :=
  ∃ row, s.revisions.row r = some row ∧ row.project = p ∧ (row.status = .active ↔ active)

/-- The revision is the project's, and froze declarations with the digest. -/
def Frozen (p r : Id) (digest : PyStr) (s : World) : Prop :=
  ∃ row, s.revisions.row r = some row ∧ row.project = p ∧ row.scriptFileDigest = digest

section Changes

omit [DecidableEq Cls] [Unicode] [Hashing]

variable {t u : ThreadId} {s s' : World} {p r : Id} {k : StorageKey} {n : ℕ}

theorem selection_eq : selection s p = projectSnapshot p s.files := by
  unfold selection projectSnapshot World.declarations enabledFiles
  refine congrArg buildScriptFileSnapshot (List.filter_congr fun file _ => ?_)
  rw [Bool.decide_and, Bool.decide_eq_true]
  rfl

/-- The same declarations are enabled. -/
theorem selection_congr (h : declaredIn p s'.files = declaredIn p s.files) :
    selection s' p = selection s p := by
  rw [selection_eq, selection_eq, projectSnapshot_congr h]

theorem Steady.of_eq (hprojects : s'.projects = s.projects) (hfiles : s'.files = s.files)
    (hrecord : s'.record.acceptances = s.record.acceptances) : Steady s s' :=
  ⟨hprojects, fun p => selection_congr (by rw [hfiles]), hrecord⟩

theorem Beside.refl : Beside t s s := ⟨⟨.refl, .of_eq rfl rfl rfl⟩, rfl⟩

theorem sameSource_of_advance {row row' : RevisionRow} (h : Advance row row') :
    row'.project = row.project ∧ row'.scriptFileDigest = row.scriptFileDigest := by
  cases h <;> exact ⟨rfl, rfl⟩

/-- What is done aside leaves what is known of a revision. -/
theorem Aside.revision (h : Aside t s s') {row : RevisionRow}
    (hrow : s.revisions.row r = some row) :
    ∃ row', s'.revisions.row r = some row' ∧ row'.project = row.project ∧
      row'.scriptFileDigest = row.scriptFileDigest ∧
        (row'.status = .active ↔ row.status = .active) := by
  obtain ⟨row', hrow', hadvance⟩ := h.1.rows r row hrow
  obtain ⟨hproject, hdigest⟩ := sameSource_of_advance hadvance
  refine ⟨row', hrow', hproject, hdigest, fun hstatus => ?_, fun hstatus => ?_⟩
  · obtain rfl := Option.some.inj (hrow.symm.trans ((h.1.active r row' hstatus).mp hrow'))
    exact hstatus
  · obtain rfl := Option.some.inj (hrow'.symm.trans ((h.1.active r row hstatus).mpr hrow))
    exact hstatus

/-! ## What others leave alone -/

theorem Under.holds (h : Under t p k (n + 1) s) : s.Holds t k := h.2.holds

theorem Under.locked (h : Under t p k (n + 1) s) : Locked t s p := ⟨k, h.1, h.holds⟩

/-- A project whose lock is held is not another's to change. -/
theorem Under.not_locked (h : Under t p k (n + 1) s) (hne : u ≠ t) : ¬ Locked u s p := by
  rintro ⟨k', hkey', m, hother⟩
  obtain rfl := Option.some.inj (h.1.symm.trans hkey')
  have hlock : s.locks k = some (t, n + 1) := h.2
  rw [hlock] at hother
  cases hother
  exact hne rfl

theorem depth_of_ownLocks (hne : t ≠ u) (h : OwnLocks u s s') (hs : s.Depth t k n) :
    s'.Depth t k n := by
  cases n with
  | zero => exact fun ⟨m, hm⟩ => hs ⟨m, (h k t m hne).mp hm⟩
  | succ n => exact (h k t (n + 1) hne).mpr hs

/-- **What lasts** for a thread: others leave it alone, and so do the thread's own statements that
no activation depends on. -/
structure Lasting (t : ThreadId) (assertion : World → Prop) : Prop where
  others : Stable Mindful t assertion
  own : ∀ s s', Beside t s s' → assertion s → assertion s'

theorem Lasting.and {assertion other : World → Prop} (h : Lasting t assertion)
    (h' : Lasting t other) : Lasting t fun s => assertion s ∧ other s where
  others := h.others.and h'.others
  own s s' hbeside hs := ⟨h.own s s' hbeside hs.1, h'.own s s' hbeside hs.2⟩

theorem lasting_const (c : Prop) : Lasting t fun _ => c := ⟨.const c, fun _ _ _ h => h⟩

theorem lasting_under : Lasting t (Under t p k n) where
  others _ _ _ hne h hs :=
    ⟨(congrFun h.keyOf p).trans hs.1, depth_of_ownLocks hne.symm h.locks hs.2⟩
  own s s' h hs := by
    refine ⟨(congrFun h.1.1.keyOf p).trans hs.1, ?_⟩
    cases n with
    | zero => exact fun ⟨m, hm⟩ => hs.2 ⟨m, h.2 ▸ hm⟩
    | succ n => exact (congrFun h.2 k).trans hs.2

/-- What lasts under a lock lasts so, if it is the case. -/
theorem lasting_imp {c : Prop} {assertion : World → Prop}
    (h : Lasting t fun s => Under t p k n s ∧ assertion s) :
    Lasting t fun s => Under t p k n s ∧ (c → assertion s) where
  others u s s' hne hchange hs :=
    ⟨lasting_under.others u s s' hne hchange hs.1,
      fun hc => (h.others u s s' hne hchange ⟨hs.1, hs.2 hc⟩).2⟩
  own s s' hbeside hs :=
    ⟨lasting_under.own s s' hbeside hs.1, fun hc => (h.own s s' hbeside ⟨hs.1, hs.2 hc⟩).2⟩

/-- Under the lock of a project what is known of its revisions stays. -/
theorem lasting_known {active : Prop} :
    Lasting t fun s => Under t p k (n + 1) s ∧ Known p r active s where
  others := by
    rintro u s s' hne h ⟨hunder, row, hrow, howner, hstatus⟩
    refine ⟨lasting_under.others u s s' hne h hunder, ?_⟩
    obtain ⟨row', hrow', howner', -, hactive⟩ := h.revision r row hrow
    refine ⟨row', hrow', howner'.trans howner, ?_⟩
    rcases hactive with hactive | hlocked
    · exact hactive.trans hstatus
    · exact absurd (howner ▸ hlocked) (hunder.not_locked hne)
  own := by
    rintro s s' h ⟨hunder, row, hrow, howner, hstatus⟩
    obtain ⟨row', hrow', howner', -, hactive⟩ := h.1.revision hrow
    exact ⟨lasting_under.own s s' h hunder, row', hrow', howner'.trans howner,
      hactive.trans hstatus⟩

/-- Under the lock of a project its row stays. -/
theorem lasting_project {project : Option ProjectRow} :
    Lasting t fun s => Under t p k (n + 1) s ∧ s.projects.row p = project where
  others := by
    rintro u s s' hne h ⟨hunder, hproject⟩
    refine ⟨lasting_under.others u s s' hne h hunder, ?_⟩
    by_contra hchanged
    rw [← hproject] at hchanged
    exact hunder.not_locked hne (h.project p hchanged)
  own s s' h hs := ⟨lasting_under.own s s' h hs.1, by rw [h.1.2.projects, hs.2]⟩

/-- A revision keeps its project and the declarations it froze. -/
theorem lasting_frozen {digest : PyStr} : Lasting t (Frozen p r digest) where
  others := by
    rintro u s s' - h ⟨row, hrow, rfl, rfl⟩
    obtain ⟨row', hrow', hproject, hdigest, -⟩ := h.revision r row hrow
    exact ⟨row', hrow', hproject, hdigest⟩
  own := by
    rintro s s' h ⟨row, hrow, rfl, rfl⟩
    obtain ⟨row', hrow', hproject, hdigest, -⟩ := h.1.revision hrow
    exact ⟨row', hrow', hproject, hdigest⟩

/-- A thread that holds no lock. -/
def Free (t : ThreadId) (s : World) : Prop := ∀ k, ¬ s.Holds t k

theorem lasting_free : Lasting t (Free t) where
  others _ _ _ hne h hs k := fun ⟨n, hlock⟩ => hs k ⟨n, (h.locks k t n hne.symm).mp hlock⟩
  own _ _ h hs k := fun ⟨n, hlock⟩ => hs k ⟨n, h.2 ▸ hlock⟩

end Changes

omit [DecidableEq Cls] [Unicode] in
/-- **What no activation depends on** is mindful. -/
theorem Aside.keeps {t : ThreadId} {s s' : World} {automatic : Bool} (h : Aside t s s') :
    Keeps automatic t s s' := by
  refine ⟨⟨h.1.keyOf, h.1.locks, fun p hne => absurd (by rw [h.2.projects]) hne,
    fun p hne => absurd (h.2.selection p) hne, fun r row hrow => ?_, fun hs => ?_⟩,
    fun _ p r hmoved hne => absurd (h.1.pointer ▸ hmoved) hne⟩
  · obtain ⟨row', hrow', hproject, hdigest, hactive⟩ := h.revision hrow
    exact ⟨row', hrow', hproject, hdigest, .inl hactive⟩
  · refine hs.keep h.2.acceptances (fun p project hproject => ?_) (fun r row hrow => ?_)
      fun p project r row row' _ _ _ hrow _ hrow' hstatus => ?_
    · exact ⟨project, h.2.projects ▸ hproject, rfl, id⟩
    · obtain ⟨row', hrow', hproject, -⟩ := h.revision hrow
      exact ⟨row', hrow', hproject⟩
    · obtain ⟨row'', hrow'', -, -, hactive⟩ := h.revision hrow
      obtain rfl := Option.some.inj (hrow'.symm.trans hrow'')
      exact hactive.mp hstatus

end Requests

end NetBoxScripts
