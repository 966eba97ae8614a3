import NetBoxScripts.Concurrency.EachStep
import NetBoxScripts.Services.Repair
import NetBoxScripts.Services.Revisions
import NetBoxScripts.Services.StoreFailures

/-!
# Rows that vanish

A project or a revision can be deleted between any two statements of a staging or refreshing call
(`storage/service.py`): the deletion takes no project lock. Every read reports a row that is gone in
its own way, and a foreign key is checked when the statement commits.

## Main definitions

* `Statement`, `execute`: the statements of the calls
* `stageRevision`, `refreshRevisionScriptFiles`: the calls
* `Deletes`: what other sessions do
* `Meets`: the rows that a statement refers to are there

## Main results

* `deletes_execute`: which statements write no row of a revision
* `ends_getOrCreate`: the row of an identity changes no more once it is found or created
* `calls_report_deletions`: a call beside sessions that delete raises what is expected
-/

namespace NetBoxScripts

namespace Vanishing

/-! ## Statements -/

/-- A statement on rows. -/
inductive Statement
  /-- `ScriptProject.objects...get(pk=p)` -/
  | project (p : Id)
  /-- `projects.values('source_revision_id', 'source_activation_pending').get()` -/
  | previousSource (p : Id)
  /-- `ScriptProjectRevision.objects.get(pk=r)`, `revision.refresh_from_db()` -/
  | revision (r : Id)
  /-- The enabled declarations of a project, as a snapshot. -/
  | declarations (p : Id)
  /-- `get(project=…, digest=…, script_file_digest=…)` -/
  | find (row : RevisionRow)
  /-- `create(…)`, with its commit. -/
  | insert (row : RevisionRow)
  /-- The conditional update to `STAGING`; the answer is whether it found the row. -/
  | claim (r : Id)
  /-- An update of a row that has one of the statuses. -/
  | settle (r : Id) (found : List RevisionStatus) (status : RevisionStatus)
    (errors : List ErrorRecord)
  /-- `projects.update(source_revision=…, source_activation_pending=…)`, with its commit. -/
  | acceptSource (p r : Id) (pending : Bool)
  | lock (k : StorageKey)
  | unlock (k : StorageKey)

/-- What a statement answers. -/
@[reducible] def Answer : Statement → Type
  | .project _ => Option ProjectRow
  | .previousSource _ => Option (Option Id × Bool)
  | .revision _ => Option RevisionRow
  | .declarations _ => List SnapshotEntry
  | .find _ => Option (Id × RevisionRow)
  | .insert _ => Except Failure Id
  | .claim _ => Bool
  | .settle .. => Unit
  | .acceptSource .. => Except Failure Unit
  | .lock _ => Unit
  | .unlock _ => Unit

/-- Each element as it is stored. -/
def storeAll {α : Type} (store : α → Option α) : List α → Option (List α)
  | [] => some []
  | a :: l => (store a).bind fun first => (storeAll store l).map (first :: ·)

/-- A record of `validation_errors` as it is stored. -/
def storedRecord : ErrorRecord → Option ErrorRecord
  | .rejected error => error.stored.map .rejected
  | record => some record

/-- A row as it is stored, its texts being `jsonb`. -/
def storedRow (row : RevisionRow) : Option RevisionRow :=
  (storeAll (fun entry : ManifestEntry =>
    (jsonbText entry.path).map fun path => { entry with path }) row.manifest).bind fun manifest =>
      (storeAll storedRecord row.validationErrors).map fun validationErrors =>
        { row with manifest, validationErrors }

/-- `INSERT`, and the checks of its commit: the unique identity and the project. -/
def insertRevision (row : RevisionRow) (s : World) : Except Failure Id × World :=
  match storedRow row with
  | none => (.error .dataError, s)
  | some row =>
    if row.digest ≠ none ∧ s.revisions.entries.any fun found => found.2.SameIdentity row then
      (.error .integrity, s)
    else if (s.projects.row row.project).isNone then (.error .integrity, s)
    else (.ok s.revisions.next, { s with revisions := s.revisions.insert row })

/-- `UPDATE ... WHERE id = r AND status IN found` -/
def updateRevision (r : Id) (found : RevisionStatus → Bool) (change : RevisionRow → RevisionRow)
    (s : World) : Bool × World :=
  match s.revisions.row r with
  | none => (false, s)
  | some row =>
    if found row.status then (true, { s with revisions := s.revisions.modify r change })
    else (false, s)

/-- What a statement answers, and the state after it. -/
def execute (t : ThreadId) : (statement : Statement) → Choice → World →
    Option (Answer statement × World)
  | .project p, _, s => some (s.projects.row p, s)
  | .previousSource p, _, s =>
    some ((s.projects.row p).map fun row => (row.sourceRevision, row.sourceActivationPending), s)
  | .revision r, _, s => some (s.revisions.row r, s)
  | .declarations p, _, s => some (projectSnapshot p s.files, s)
  | .find row, _, s =>
    some (s.revisions.entries.find? fun found => found.2.SameIdentity row, s)
  | .insert row, _, s => some (insertRevision row s)
  | .claim r, _, s =>
    some (updateRevision r RevisionStatus.retryable (fun row => { row with status := .staging }) s)
  | .settle r found status errors, _, s =>
    some ((), (updateRevision r (· ∈ found)
      (fun row => { row with status, validationErrors := errors }) s).2)
  | .acceptSource p r pending, _, s =>
    match s.projects.row p with
    -- no row is updated, and no key is checked
    | none => some (.ok (), s)
    | some _ =>
      if (s.revisions.row r).isNone then some (.error .integrity, s)
      else some (.ok (), s.modifyProject p fun row =>
        { row with sourceRevision := some r, sourceActivationPending := pending })
  | .lock k, _, s =>
    match s.locks k with
    | none => some ((), s.setLock k (some (t, 1)))
    | some (u, n + 1) => if u = t then some ((), s.setLock k (some (t, n + 2))) else none
    | some (_, 0) => none
  | .unlock k, _, s =>
    match s.locks k with
    | some (u, n + 1) =>
      if u = t then some ((), s.setLock k (if n = 0 then none else some (t, n))) else some ((), s)
    | _ => some ((), s)

/-! ## Calls -/

/-- A program of a session. -/
abbrev Session (α : Type) := Labelled Answer World Choice Failure α

open Labelled (raise ofExcept)

/-- One statement. -/
abbrev ask (statement : Statement) : Session (Answer statement) := Labelled.ask statement

/-- A program of the store: its actions change objects only. -/
def store {α : Type} : Service α → Session α
  | .done result => .done result
  | .act step next => .act
      (fun t c s => (step t c s).map fun answer =>
        (answer.1, { s with objects := answer.2.objects }))
      fun b => store (next b)

/-- A program that changes objects only does what it does in a session too. -/
theorem wp_store {α : Type} {t : ThreadId} {change : Changes World} {guar guar' : World → World → Prop}
    {program : Service α} {post : Except Failure α → World → Prop} {s : World}
    (hguar : ∀ s s', guar s s' → guar' s s' ∧ s' = { s with objects := s'.objects })
    (h : wp change t guar program post s) :
    wp change t guar' ((store program).prog execute) post s := by
  induction program generalizing s with
  | done result => exact h
  | act step next ih =>
    intro s' hrely c b s'' hstep
    obtain ⟨⟨b', s₁⟩, hanswer, heq⟩ := Option.map_eq_some_iff.mp hstep
    cases heq
    obtain ⟨hstore, hnext⟩ := h s' hrely c b' s₁ hanswer
    obtain ⟨hguar', hframe⟩ := hguar s' s₁ hstore
    dsimp only
    rw [← hframe]
    exact ⟨hguar', ih b' hnext⟩

/-- `with project_lock(storage_key)` -/
def projectLock {α : Type} (k : StorageKey) (body : Session α) : Session α := do
  ask (.lock k)
  body.finallyDo (ask (.unlock k))

/-- `project_or_vanished(query, project_id)` -/
def projectOrVanished (p : Id) : Session ProjectRow := do
  match ← ask (.project p) with
  | some row => pure row
  | none => raise .projectVanished

/-- `revision_or_vanished(query, revision_pk)`, `_refresh_surviving(revision)` -/
def revisionOrVanished (r : Id) : Session RevisionRow := do
  match ← ask (.revision r) with
  | some row => pure row
  | none => raise .revisionVanished

/-- `create(…)` -/
def createRevision (row : RevisionRow) : Session (Id × RevisionRow) := do
  match ← ask (.insert row) with
  | .ok r => pure (r, row)
  | .error failure => raise failure

/-- `get_or_create(…)`: an insert that a constraint refuses is followed by another `get`. -/
def getOrCreate (row : RevisionRow) : Session (Id × RevisionRow × Bool) := do
  match ← ask (.find row) with
  | some (r, found) => pure (r, found, false)
  | none =>
    match ← ask (.insert row) with
    | .ok r => pure (r, row, true)
    | .error .integrity =>
      match ← ask (.find row) with
      | some (r, found) => pure (r, found, false)
      | none => raise .integrity
    | .error failure => raise failure

/-- A digest that is neither null nor empty. -/
def hasDigest (row : RevisionRow) : Bool := row.digest.any (· ≠ [])

section Calls

variable [Unicode] [Hashing]

/-- `_accept_source(revision, using=…, activate_once=…)` -/
def acceptSource (r : Id) (row : RevisionRow) (activateOnce : Bool) : Session Unit := do
  if hasDigest row ∧ row.status.unstored = false then
    match ← ask (.previousSource row.project) with
    | none => raise .doesNotExist
    | some (source, wasPending) =>
      let pending := activateOnce || (decide (source = some r) && wasPending)
      match ← ask (.acceptSource row.project r (pending && decide (row.status ≠ .active))) with
      | .ok () => pure ()
      | .error failure => raise failure
  else pure ()

/-- `_validated_manifest(revision)` -/
def rowManifest (row : RevisionRow) : Except Failure Unit :=
  match validateManifest (.arr (row.manifest.map ManifestEntry.toJson)) row.digest with
  | .error failure => .error (.manifest failure)
  | .ok () =>
    if row.fileCount ≠ row.manifest.length ∨
        row.totalSize ≠ (row.manifest.map ManifestEntry.size).sum then .error .counterMismatch
    else .ok ()

/-- What follows the claim of a row: the write, and the status that settles it. -/
def writeClaimed (k : StorageKey) (files : SourceFiles) (r : Id) (row : RevisionRow)
    (created : Bool) : Session (StagedRevision × RevisionRow) := do
  let written ← (do
    ofExcept (rowManifest row)
    store (writeRevision k (row.digest.getD []) files row.manifest) : Session Unit).attempt
  match written with
  | .error failure =>
    if failure.isStorageError then do
      ask (.settle r [.staging] .storageFailed [.storageWriteFailed])
      raise failure
    else raise failure
  | .ok () => do
    ask (.settle r [.staging] .materialized [])
    let row ← revisionOrVanished r
    pure (⟨r, created⟩, row)

/-- The loop of `_stage_revision`, cut off after some turns. -/
def settleLoop (k : StorageKey) (files : SourceFiles) (r : Id) (created : Bool) :
    ℕ → RevisionRow → Session (StagedRevision × RevisionRow)
  | 0, _ => raise .escaped
  | turns + 1, row =>
    if row.status.stored then do
      ofExcept (rowManifest row)
      store (verifyRevisionTree k (row.digest.getD []) row.manifest)
      pure (⟨r, created⟩, row)
    else if row.status.retryable = false then pure (⟨r, created⟩, row)
    else do
      match ← ask (.claim r) with
      | true => writeClaimed k files r row created
      | false => do
        let row ← revisionOrVanished r
        settleLoop k files r created turns row

/-- `_stage_revision(project, files)` -/
def stageLocked (project : Id) (files : SourceFiles) (limits : StorageLimits) (now : Time)
    (turns : ℕ) : Session (StagedRevision × RevisionRow) := do
  match buildManifest files limits with
  | .error failure => raise (.unsafePath failure)
  | .ok (entries, errors) =>
    let snapshot ← ask (.declarations project)
    let row := stagedRow project entries snapshot now
    if errors ≠ [] then do
      let (r, row) ← createRevision
        { row with validationErrors := errors.map ErrorRecord.rejected }
      pure (⟨r, true⟩, row)
    else do
      let key ← projectOrVanished project
      projectLock key.storageKey do
        let (r, found, created) ← getOrCreate
          { row with digest := some (manifestDigest entries), status := .staging }
        settleLoop key.storageKey files r created turns found

/-- `stage_revision(project, files, activate_once=…)`; where nobody deletes anything it ends as
`stageSource` (`Serial.session_stageRevision_alone`). -/
def stageRevision (project : Id) (files : SourceFiles) (limits : StorageLimits)
    (activateOnce : Bool) (now : Time) (turns : ℕ) : Session StagedRevision := do
  let key ← projectOrVanished project
  projectLock key.storageKey do
    let (staged, row) ← stageLocked project files limits now turns
    acceptSource staged.revision row activateOnce
    pure staged

/-- `_refresh_revision_script_files(revision)` -/
def refreshLocked (pk : Id) (now : Time) : Session (StagedRevision × RevisionRow) := do
  let source ← revisionOrVanished pk
  if hasDigest source = false then raise .valueError
  else do
    ofExcept (rowManifest source)
    let snapshot ← ask (.declarations source.project)
    let key ← projectOrVanished source.project
    projectLock key.storageKey do
      store (verifyRevisionTree key.storageKey (source.digest.getD []) source.manifest)
      let (r, candidate, created) ← getOrCreate
        { stagedRow source.project source.manifest snapshot now with
          digest := source.digest
          status := .materialized
          fileCount := source.fileCount
          totalSize := source.totalSize }
      if candidate.status.retryable then do
        ask (.settle r [.staging, .storageFailed] .materialized [])
        let candidate ← revisionOrVanished r
        pure (⟨r, created⟩, candidate)
      else pure (⟨r, created⟩, candidate)

/-- `refresh_revision_script_files(revision)`, for a revision of which the caller knows the
project. -/
def refreshRevisionScriptFiles (project pk : Id) (now : Time) : Session StagedRevision := do
  let key ← projectOrVanished project
  projectLock key.storageKey do
    let (staged, row) ← refreshLocked pk now
    acceptSource staged.revision row false
    pure staged

end Calls

/-! ## Deletions -/

/-- What other sessions do: rows of revisions go, and none comes or changes. All else is free. -/
def Deletes (s s' : World) : Prop :=
  ∀ r row, s'.revisions.row r = some row → s.revisions.row r = some row

/-- The rows that a statement refers to are there. -/
def Meets : Statement → World → Prop
  | .insert row, s => (s.projects.row row.project).isSome
  | .previousSource p, s => (s.projects.row p).isSome
  | .acceptSource p r _, s => (s.projects.row p).isSome → (s.revisions.row r).isSome
  | _, _ => True

/-- A session beside sessions that delete. -/
def deletions (t : ThreadId) : Sessions Answer World Choice := ⟨execute t, Meets, Deletes⟩

/-- From `s` on the program returns what the postcondition says, or raises what is expected. -/
def Ends {α : Type} (t : ThreadId) (digestless : Prop) (prog : Session α)
    (post : α → World → Prop) (s : World) : Prop :=
  (deletions t).Holds t prog (andThen post fun e _ => Expected digestless e) s

/-- Deletions keep the assertion. -/
def Kept (assertion : World → Prop) : Prop :=
  ∀ s s', Deletes s s' → assertion s → assertion s'

/-- The manifests of the rows are plain, as `jsonb` holds no other. -/
def PlainRows (s : World) : Prop :=
  ∀ r row, s.revisions.row r = some row → ∀ entry ∈ row.manifest, Plain entry.path

/-- The row is as it was read, or gone. -/
def Still (r : Id) (row : RevisionRow) (s : World) : Prop :=
  ∀ row', s.revisions.row r = some row' → row' = row

/-- No row has the identity. -/
def Vacant (row : RevisionRow) (s : World) : Prop :=
  ∀ r found, s.revisions.row r = some found → ¬ found.SameIdentity row

/-- The statement writes no row of a revision. -/
def Statement.spares : Statement → Prop
  | .insert _ | .claim _ | .settle .. => False
  | _ => True

theorem Deletes.of_eq {s s' : World} (h : s'.revisions = s.revisions) : Deletes s s' := by
  intro r row hrow
  rwa [h] at hrow

theorem Deletes.trans {s₁ s₂ s₃ : World} (h : Deletes s₁ s₂) (h' : Deletes s₂ s₃) :
    Deletes s₁ s₃ := fun r row hrow => h r row (h' r row hrow)

theorem kept_deletes {s₀ : World} : Kept (Deletes s₀) := fun _ _ h hs => hs.trans h

theorem kept_true : Kept fun _ => True := fun _ _ _ _ => trivial

theorem kept_plainRows : Kept PlainRows :=
  fun _ _ h hs r row hrow => hs r row (h r row hrow)

theorem kept_still {r : Id} {row : RevisionRow} : Kept (Still r row) :=
  fun _ _ h hs row' hrow => hs row' (h r row' hrow)

theorem kept_vacant {row : RevisionRow} : Kept (Vacant row) :=
  fun _ _ h hs r found hrow => hs r found (h r found hrow)

theorem kept_gone {r : Id} : Kept fun s => s.revisions.row r = none := by
  intro s s' h hs
  cases hrow : s'.revisions.row r with
  | none => rfl
  | some row =>
    have hbefore := h r row hrow
    rw [hs] at hbefore
    cases hbefore

section Ends

variable {α β : Type} {t : ThreadId} {digestless : Prop} {s : World} {prog : Session α}
  {post : α → World → Prop} {assertion : World → Prop}

theorem ends_pure {a : α} (h : post a s) : Ends t digestless (pure a) post s := h

theorem ends_raise {e : Failure} (h : Expected digestless e) :
    Ends t digestless (raise e : Session α) post s := h

theorem ends_ofExcept {result : Except Failure α} (hok : ∀ a, result = .ok a → post a s)
    (herror : ∀ e, result = .error e → Expected digestless e) :
    Ends t digestless (ofExcept result) post s := by
  cases result with
  | ok a => exact hok a rfl
  | error e => exact herror e rfl

theorem ends_bind {f : α → Session β} {post' : β → World → Prop}
    (h : Ends t digestless prog post s)
    (hf : ∀ a s', post a s' → Ends t digestless (f a) post' s') :
    Ends t digestless (prog >>= f) post' s := by
  unfold Ends
  rw [Sessions.holds_bind]
  refine Sessions.Holds.mono (fun r s' hr => ?_) h
  cases r with
  | ok a => exact hf a s' hr
  | error e => exact hr

theorem ends_attempt {f : Except Failure α → Session β} {post' : β → World → Prop}
    (h : Ends t digestless prog post s)
    (hok : ∀ a s', post a s' → Ends t digestless (f (.ok a)) post' s')
    (herror : ∀ e s', Expected digestless e → Ends t digestless (f (.error e)) post' s') :
    Ends t digestless (prog.attempt >>= f) post' s := by
  unfold Ends
  rw [Sessions.holds_bind, Sessions.holds_attempt]
  refine Sessions.Holds.mono (fun r s' hr => ?_) h
  cases r with
  | ok a => exact hok a s' hr
  | error e => exact herror e s' hr

theorem ends_ask {statement : Statement} {post : Answer statement → World → Prop}
    (hkept : Kept assertion) (hs : assertion s)
    (h : ∀ s', assertion s' → Meets statement s' → ∀ c b s'',
      execute t statement c s' = some (b, s'') → post b s'') :
    Ends t digestless (ask statement) post s :=
  Sessions.holds_ask hkept hs h

theorem deletes_execute {statement : Statement} (hspares : statement.spares) {c : Choice}
    {s s' : World} {b : Answer statement} (h : execute t statement c s = some (b, s')) :
    Deletes s s' := by
  apply Deletes.of_eq
  cases statement with
  | project p | previousSource p | revision r | declarations p | find row =>
    cases h
    rfl
  | insert | claim | settle => exact absurd hspares id
  | acceptSource p r pending =>
    rw [execute] at h
    split at h
    · cases h
      rfl
    · split_ifs at h
      all_goals
        cases h
        rfl
  | lock k =>
    rw [execute] at h
    split at h
    · cases h
      rfl
    · split_ifs at h
      cases h
      rfl
    · cases h
  | unlock k =>
    rw [execute] at h
    split at h
    · split_ifs at h
      all_goals
        cases h
        rfl
    · cases h
      rfl

/-- A statement that spares the rows keeps what deletions keep. -/
theorem ends_spares {statement : Statement} (hspares : statement.spares) (hkept : Kept assertion)
    (hs : assertion s) :
    Ends t digestless (ask statement) (fun _ => assertion) s :=
  ends_ask hkept hs fun s' hs' _ _ _ s'' h => hkept s' s'' (deletes_execute hspares h) hs'

theorem ends_projectOrVanished {p : Id} (hkept : Kept assertion) (hs : assertion s) :
    Ends t digestless (projectOrVanished p) (fun _ => assertion) s := by
  refine ends_bind (ends_spares trivial hkept hs) fun answer s' hs' => ?_
  split
  · exact ends_pure hs'
  · exact ends_raise trivial

theorem ends_revisionOrVanished {r : Id} (hkept : Kept assertion) (hs : assertion s) :
    Ends t digestless (revisionOrVanished r)
      (fun row s' => assertion s' ∧ s'.revisions.row r = some row) s := by
  have hread : Ends t digestless (ask (.revision r))
      (fun answer s' => assertion s' ∧ s'.revisions.row r = answer) s := by
    refine ends_ask hkept hs fun s' hs' _ _ _ s'' h => ?_
    cases h
    exact ⟨hs', rfl⟩
  refine ends_bind hread fun answer s' hs' => ?_
  split
  · exact ends_pure hs'
  · exact ends_raise trivial

/-- What happens under the lock, whose end concerns no row. -/
theorem ends_projectLock {k : StorageKey} (hkept : Kept assertion) (hs : assertion s)
    (h : ∀ s', assertion s' → Ends t digestless prog (fun _ _ => True) s') :
    Ends t digestless (projectLock k prog) (fun _ _ => True) s := by
  refine ends_bind (ends_spares trivial hkept hs) fun _ s' hs' => ?_
  refine Sessions.holds_finallyDo (Sessions.Holds.mono (fun r s₁ hr => ?_) (h s' hs'))
  have hunlock : Ends t digestless (ask (.unlock k)) (fun _ _ => True) s₁ :=
    ends_spares trivial kept_true trivial
  refine Sessions.Holds.mono (fun r' s₂ hr' => ?_) hunlock
  cases r' with
  | error e => exact hr'
  | ok u =>
    cases r with
    | ok a => trivial
    | error e => exact hr

theorem ends_store {prog : Service α} (hraises : RaisesOnly prog) (hkept : Kept assertion)
    (hs : assertion s) : Ends t digestless (store prog) (fun _ => assertion) s := by
  have hwp := hraises t s
  clear hraises
  induction prog generalizing s with
  | done result =>
    cases result with
    | ok a => exact hs
    | error e => exact (hwp e rfl).of_false
  | act step next ih =>
    intro s' hothers c b s'' hstep
    obtain ⟨⟨b', s₁⟩, hstep', heq⟩ := Option.map_eq_some_iff.mp hstep
    cases heq
    have hrely : Rely Anything t s s' := .single (Nat.succ_ne_self t) trivial
    have hafter := (hwp s' hrely c _ s₁ hstep').2
    have hassertion : assertion s' := by
      refine Sessions.kept (fun s₁ s₂ (h : (deletions t).others s₁ s₂) => ?_) hothers hs
      exact hkept s₁ s₂ h
    exact ih _ (hkept s' _ (.of_eq rfl) hassertion) (wp_anything hafter)

end Ends

section Rows

variable {t : ThreadId} {digestless : Prop} {s : World} {row : RevisionRow}

/-- A row is stored as it is: its paths are plain, and so are the texts of its records. -/
structure StoredAsIs (row : RevisionRow) : Prop where
  manifest : ∀ entry ∈ row.manifest, Plain entry.path
  errors : ∀ error ∈ row.validationErrors, storedRecord error = some error

theorem storeAll_eq_self {α : Type} {store : α → Option α} {l : List α}
    (h : ∀ a ∈ l, store a = some a) : storeAll store l = some l := by
  induction l with
  | nil => rfl
  | cons a l ih =>
    rw [List.forall_mem_cons] at h
    rw [storeAll, h.1, ih h.2]
    rfl

/-- A row of plain paths is stored with its records as they are stored. -/
theorem storedRow_of_plain (hplain : ∀ entry ∈ row.manifest, Plain entry.path) :
    storedRow row = (storeAll storedRecord row.validationErrors).map fun validationErrors =>
      { row with validationErrors } := by
  have hmanifest : storeAll (fun entry : ManifestEntry =>
      (jsonbText entry.path).map fun path => { entry with path }) row.manifest =
        some row.manifest := by
    refine storeAll_eq_self fun entry hentry => ?_
    rw [jsonbText_of_plain (hplain entry hentry)]
    rfl
  rw [storedRow, hmanifest]
  rfl

theorem StoredAsIs.storedRow_eq (h : StoredAsIs row) : storedRow row = some row := by
  rw [storedRow_of_plain h.manifest, storeAll_eq_self h.errors]
  rfl

/-- **An insert** whose project is there creates the row, unless its identity is taken. -/
theorem insertRevision_ok (hrow : StoredAsIs row) (hproject : (s.projects.row row.project).isSome)
    (hfree : row.digest = none ∨ Vacant row s) :
    insertRevision row s =
      (.ok s.revisions.next, { s with revisions := s.revisions.insert row }) := by
  have hany : ¬ (row.digest ≠ none ∧
      s.revisions.entries.any fun found => found.2.SameIdentity row) := by
    rintro ⟨hdigest, hany⟩
    obtain ⟨found, hmem, hsame⟩ := List.any_eq_true.mp hany
    rcases hfree with hnone | hvacant
    · exact hdigest hnone
    · exact hvacant found.1 found.2 (Table.mem_entries.mp hmem) (of_decide_eq_true hsame)
  have hsome : ¬ (s.projects.row row.project).isNone := by
    simpa [Option.isSome_iff_ne_none] using hproject
  rw [insertRevision, hrow.storedRow_eq]
  dsimp only
  rw [if_neg hany, if_neg hsome]

theorem still_insert : Still s.revisions.next row { s with revisions := s.revisions.insert row } := by
  intro row' h
  rw [Table.row_insert] at h
  simpa using h.symm

theorem ends_insert {assertion : World → Prop} (hrow : StoredAsIs row) (hkept : Kept assertion)
    (hs : assertion s) (hfree : ∀ s', assertion s' → row.digest = none ∨ Vacant row s') :
    Ends t digestless (ask (.insert row))
      (fun answer s' => ∃ r, answer = .ok r ∧ Still r row s') s := by
  refine ends_ask hkept hs fun s' hs' hmeets _ _ s'' h => ?_
  rw [execute, insertRevision_ok hrow hmeets (hfree s' hs')] at h
  cases h
  exact ⟨_, rfl, still_insert⟩

theorem ends_createRevision (hrow : StoredAsIs row) (hdigest : row.digest = none) :
    Ends t digestless (createRevision row) (fun _ _ => True) s := by
  refine ends_bind (ends_insert hrow kept_true trivial fun _ _ => .inl hdigest) ?_
  rintro _ s' ⟨r, rfl, -⟩
  exact ends_pure trivial

/-- **The row of an identity**, found or created, changes no more. -/
theorem ends_getOrCreate (hrow : StoredAsIs row) (hs : PlainRows s) :
    Ends t digestless (getOrCreate row) (fun found s' => Still found.1 found.2.1 s' ∧
      ∀ entry ∈ found.2.1.manifest, Plain entry.path) s := by
  have hfind : Ends t digestless (ask (.find row)) (fun answer s' =>
      match answer with
      | some (r, found) => Still r found s' ∧ ∀ entry ∈ found.manifest, Plain entry.path
      | none => Vacant row s') s := by
    refine ends_ask kept_plainRows hs fun s' hs' _ _ _ s'' h => ?_
    cases h
    cases hfound : s'.revisions.entries.find? fun found => found.2.SameIdentity row with
    | some found =>
      have hread := Table.mem_entries.mp (List.mem_of_find?_eq_some hfound)
      refine ⟨fun row' hrow' => ?_, hs' found.1 found.2 hread⟩
      exact Option.some.inj (hrow'.symm.trans hread)
    | none =>
      intro r found hread hsame
      exact List.find?_eq_none.mp hfound (r, found) (Table.mem_entries.mpr hread)
        (decide_eq_true hsame)
  refine ends_bind hfind fun answer s' hanswer => ?_
  match answer, hanswer with
  | some (r, found), hanswer => exact ends_pure hanswer
  | none, hvacant =>
    refine ends_bind (ends_insert hrow kept_vacant hvacant fun s' hs' => .inr hs') ?_
    rintro _ s'' ⟨r, rfl, hstill⟩
    exact ends_pure ⟨hstill, hrow.manifest⟩

end Rows

section Runs

variable [Unicode] [Hashing] {t : ThreadId} {digestless : Prop} {s s₀ : World} {files : SourceFiles}
  {row : RevisionRow} {k : StorageKey} {project r pk : Id} {created activateOnce : Bool}
  {limits : StorageLimits} {now : Time} {turns : ℕ}

theorem ends_rowManifest (laws : UnicodeLaws) (hplain : ∀ entry ∈ row.manifest, Plain entry.path)
    (assertion : World → Prop) (hs : assertion s) :
    Ends t digestless (ofExcept (rowManifest row)) (fun _ => assertion) s := by
  refine ends_ofExcept (fun _ _ => hs) fun e herror => ?_
  unfold rowManifest at herror
  split at herror
  · next failure heq =>
    cases herror
    cases failure with
    | revisionCorrupt => trivial
    | unicodeEncodeError => exact absurd heq (validateManifest_ne laws hplain)
  · split_ifs at herror
    cases herror
    trivial

omit [Unicode] [Hashing] in
theorem ends_settle {found : List RevisionStatus} {status : RevisionStatus}
    {errors : List ErrorRecord} :
    Ends t digestless (ask (.settle r found status errors)) (fun _ _ => True) s :=
  ends_ask kept_true trivial fun _ _ _ _ _ _ _ => trivial

theorem ends_writeClaimed (laws : UnicodeLaws) (hfiles : ∀ file ∈ files.items, Plain file.1)
    (hplain : ∀ entry ∈ row.manifest, Plain entry.path) :
    Ends t digestless (writeClaimed k files r row created) (fun _ _ => True) s := by
  have hwrite : Ends t digestless (do
      ofExcept (rowManifest row)
      store (writeRevision k (row.digest.getD []) files row.manifest) : Session Unit)
      (fun _ _ => True) s :=
    ends_bind (ends_rowManifest laws hplain (fun _ => True) trivial) fun _ _ _ =>
      ends_store (writeRevision_raises laws hfiles hplain) kept_true trivial
  refine ends_attempt hwrite (fun _ s₁ _ => ?_) fun e s₁ he => ?_
  · refine ends_bind ends_settle fun _ s₂ _ => ?_
    exact ends_bind (ends_revisionOrVanished kept_true trivial) fun _ _ _ => ends_pure trivial
  · dsimp only
    split_ifs
    · exact ends_bind ends_settle fun _ _ _ => ends_raise he
    · exact ends_raise he

omit [Unicode] [Hashing] in
/-- A claim that finds no row of its status finds no row, where the row cannot have changed. -/
theorem ends_claim (hretryable : row.status.retryable = true) (hs : Still r row s) :
    Ends t digestless (ask (.claim r))
      (fun claimed s' => claimed = true ∨ s'.revisions.row r = none) s := by
  refine ends_ask kept_still hs fun s' hs' _ _ b s'' h => ?_
  cases hrow : s'.revisions.row r with
  | none =>
    rw [execute, updateRevision, hrow] at h
    cases h
    exact .inr hrow
  | some row' =>
    obtain rfl := hs' row' hrow
    rw [execute, updateRevision, hrow] at h
    dsimp only at h
    rw [if_pos hretryable] at h
    cases h
    exact .inl rfl

theorem ends_settleLoop (laws : UnicodeLaws) (hfiles : ∀ file ∈ files.items, Plain file.1)
    (hs : Still r row s) (hplain : ∀ entry ∈ row.manifest, Plain entry.path) :
    Ends t digestless (settleLoop k files r created (turns + 1) row) (fun _ _ => True) s := by
  unfold settleLoop
  split_ifs with hstored hretryable
  · refine ends_bind (ends_rowManifest laws hplain (fun _ => True) trivial) fun _ s₁ _ => ?_
    refine ends_bind (ends_store (verifyRevisionTree_raises laws hplain) kept_true trivial) ?_
    exact fun _ _ _ => ends_pure trivial
  · exact ends_pure trivial
  · refine ends_bind (ends_claim (by simpa using hretryable) hs) fun claimed s₁ hclaim => ?_
    cases claimed with
    | true => exact ends_writeClaimed laws hfiles hplain
    | false =>
      -- the row is gone, so the loop takes no other turn
      have hgone : s₁.revisions.row r = none := by simpa using hclaim
      refine ends_bind (ends_revisionOrVanished kept_gone hgone) ?_
      rintro row' s₂ ⟨hnone, hsome⟩
      rw [hnone] at hsome
      cases hsome

omit [Unicode] [Hashing] in
/-- **Accepting a source** never fails where its statements find their rows. -/
theorem ends_acceptSource :
    Ends t digestless (acceptSource r row activateOnce) (fun _ _ => True) s := by
  unfold acceptSource
  split_ifs
  · have hprevious : Ends t digestless (ask (.previousSource row.project))
        (fun answer _ => answer.isSome) s := by
      refine ends_ask kept_true trivial fun s' _ hmeets _ _ s'' h => ?_
      cases h
      simpa [Meets] using hmeets
    refine ends_bind hprevious fun answer s₁ hanswer => ?_
    obtain ⟨⟨source, wasPending⟩, rfl⟩ := Option.isSome_iff_exists.mp hanswer
    have haccept : ∀ pending, Ends t digestless (ask (.acceptSource row.project r pending))
        (fun answer _ => answer = .ok ()) s₁ := by
      intro pending
      refine ends_ask kept_true trivial fun s' _ hmeets _ _ s'' h => ?_
      rw [execute] at h
      split at h
      · cases h
        rfl
      · next found hfound =>
        have hrevision := hmeets (by rw [hfound]; rfl)
        rw [if_neg (by simpa [Option.isSome_iff_ne_none] using hrevision)] at h
        cases h
        rfl
    refine ends_bind (haccept _) ?_
    rintro _ s₂ rfl
    exact ends_pure trivial
  · exact ends_pure trivial

theorem ends_stageLocked (laws : UnicodeLaws) (hfiles : ∀ file ∈ files.items, Plain file.1)
    (hs : PlainRows s) :
    Ends t digestless (stageLocked project files limits now (turns + 1)) (fun _ _ => True) s := by
  obtain ⟨entries, errors, hbuild⟩ := laws.buildManifest_ok limits
    fun file hfile c hc => (hfiles file hfile c hc).1
  have hentries := buildManifest_plain_entries hbuild
  have herrors := buildManifest_plain laws hfiles hbuild
  unfold stageLocked
  rw [hbuild]
  refine ends_bind (ends_spares trivial kept_plainRows hs) fun snapshot s₁ hs₁ => ?_
  dsimp only
  split_ifs
  · refine ends_bind (ends_createRevision ⟨hentries, fun record hrecord => ?_⟩ rfl) ?_
    · obtain ⟨error, herror, rfl⟩ := List.mem_map.mp hrecord
      have hstored := ManifestError.stored_eq_self_iff.mpr (herrors error herror)
      simp [storedRecord, hstored]
    · exact fun _ _ _ => ends_pure trivial
  · refine ends_bind (ends_projectOrVanished kept_plainRows hs₁) fun key s₂ hs₂ => ?_
    refine ends_projectLock kept_plainRows hs₂ fun s₃ hs₃ => ?_
    refine ends_bind (ends_getOrCreate ⟨hentries, nofun⟩ hs₃) fun found s₄ hfound => ?_
    exact ends_settleLoop laws hfiles hfound.1 hfound.2

theorem ends_stageRevision (laws : UnicodeLaws) (hfiles : ∀ file ∈ files.items, Plain file.1)
    (hs : PlainRows s) :
    Ends t digestless (stageRevision project files limits activateOnce now (turns + 1))
      (fun _ _ => True) s := by
  refine ends_bind (ends_projectOrVanished kept_plainRows hs) fun key s₁ hs₁ => ?_
  refine ends_projectLock kept_plainRows hs₁ fun s₂ hs₂ => ?_
  refine ends_bind (ends_stageLocked laws hfiles hs₂) fun staged s₃ _ => ?_
  exact ends_bind ends_acceptSource fun _ _ _ => ends_pure trivial

theorem ends_refreshLocked (laws : UnicodeLaws) (hrows : PlainRows s₀) (hs : Deletes s₀ s) :
    Ends t (∃ row, s₀.revisions.row pk = some row ∧ hasDigest row = false) (refreshLocked pk now)
      (fun _ _ => True) s := by
  refine ends_bind (ends_revisionOrVanished kept_deletes hs) ?_
  rintro source s₁ ⟨hs₁, hread⟩
  have hsource := hs₁ pk source hread
  have hplain := hrows pk source hsource
  split_ifs with hdigest
  · exact ends_raise ⟨source, hsource, hdigest⟩
  · refine ends_bind (ends_rowManifest laws hplain (Deletes s₀) hs₁) fun _ s₂ hs₂ => ?_
    refine ends_bind (ends_spares trivial kept_deletes hs₂) fun snapshot s₃ hs₃ => ?_
    refine ends_bind (ends_projectOrVanished kept_deletes hs₃) fun key s₄ hs₄ => ?_
    refine ends_projectLock kept_deletes hs₄ fun s₅ hs₅ => ?_
    refine ends_bind (ends_store (verifyRevisionTree_raises laws hplain) kept_deletes hs₅) ?_
    intro _ s₆ hs₆
    have hrows₆ := kept_plainRows s₀ s₆ hs₆ hrows
    refine ends_bind (ends_getOrCreate ⟨hplain, nofun⟩ hrows₆) fun found s₇ _ => ?_
    dsimp only
    split_ifs
    · refine ends_bind ends_settle fun _ s₈ _ => ?_
      exact ends_bind (ends_revisionOrVanished kept_true trivial) fun _ _ _ => ends_pure trivial
    · exact ends_pure trivial

theorem ends_refreshRevisionScriptFiles (laws : UnicodeLaws) (hrows : PlainRows s) :
    Ends t (∃ row, s.revisions.row pk = some row ∧ hasDigest row = false)
      (refreshRevisionScriptFiles project pk now) (fun _ _ => True) s := by
  refine ends_bind (ends_projectOrVanished kept_deletes (.of_eq rfl)) fun key s₁ hs₁ => ?_
  refine ends_projectLock kept_deletes hs₁ fun s₂ hs₂ => ?_
  refine ends_bind (ends_refreshLocked laws hrows hs₂) fun staged s₃ _ => ?_
  exact ends_bind ends_acceptSource fun _ _ _ => ends_pure trivial

end Runs

/-- `project.delete()`: the project goes, and its revisions with it. -/
def deleteProject (p : Id) (s : World) : World :=
  { s with
    projects := s.projects.eraseAll (· == p)
    revisions := s.revisions.eraseAll fun r => (s.revisions.row r).any fun row => row.project == p }

theorem deletes_deleteProject {p : Id} {s : World} : Deletes s (deleteProject p s) :=
  fun _ _ h => (Table.row_eraseAll_eq_some.mp h).2

/-- A revision that holds `a.py`, and was rejected by its validation. -/
def rejectedRow : RevisionRow :=
  { @stagedRow (tableHashing exampleTable) 1 [oneEntry (py "a.py")] [] 0 with
    digest := some (py "4b60693728c5583063854db9944e454be43d0198fc30a7f614b3afdd58adaf26") }

/-- A project with this revision. -/
def rejectedWorld : World :=
  { vacantWorld with
    projects := vacantWorld.projects.insert
      ⟨py "p", 0, .upload, none, [], .manual, none, none, false, true⟩
    revisions := vacantWorld.revisions.insert rejectedRow }

theorem plainRows_rejectedWorld : PlainRows rejectedWorld := by
  intro r row hrow entry hentry
  rcases Table.row_insert_eq_some hrow with ⟨-, rfl⟩ | hold
  · obtain rfl := List.mem_singleton.mp hentry
    decide
  · cases hold

/-- **Deletions are reported**: beside sessions that delete rows, and where each of its statements
finds the rows it refers to, a call that raises reports a storage or a corruption failure, or the row
that vanished. -/
theorem calls_report_deletions [Unicode] [Hashing] (laws : UnicodeLaws) (t : ThreadId) (s₀ : World)
    (hrows : PlainRows s₀) (project : Id) (now : Time) :
    (∀ files : SourceFiles, (∀ file ∈ files.items, Plain file.1) → ∀ limits activateOnce turns result
      s, Relation.ReflTransGen ((deletions t).Step t)
        (stageRevision project files limits activateOnce now (turns + 1), s₀) (.done result, s) →
      ∀ e, result = .error e → Expected False e) ∧
    ∀ pk result s, Relation.ReflTransGen ((deletions t).Step t)
        (refreshRevisionScriptFiles project pk now, s₀) (.done result, s) →
      ∀ e, result = .error e →
        Expected (∃ row, s₀.revisions.row pk = some row ∧ hasDigest row = false) e := by
  have hends : ∀ {digestless : Prop} {prog : Session StagedRevision} {result s},
      Ends t digestless prog (fun _ _ => True) s₀ →
      Relation.ReflTransGen ((deletions t).Step t) (prog, s₀) (.done result, s) →
      ∀ e, result = .error e → Expected digestless e := by
    intro digestless prog result s h hrun e heq
    have hresult := Sessions.Holds.ends (fun r s s' _ hr => by cases r <;> exact hr) h hrun
    rw [heq] at hresult
    exact hresult
  refine ⟨fun files hfiles limits activateOnce turns result s hrun => ?_,
    fun pk result s hrun => ?_⟩
  · exact hends (ends_stageRevision laws hfiles hrows) hrun
  · exact hends (ends_refreshRevisionScriptFiles laws hrows) hrun

/-- A project that vanishes before a source is staged, and a revision that vanishes before it is
refreshed. -/
theorem calls_report_deletions_vanished :
    (∃ s, Relation.ReflTransGen ((deletions 0).Step 0)
      (@stageRevision asciiUnicode (tableHashing exampleTable) 1 (oneFile (py "a.py")) ⟨10, 10, 10⟩
        false 0 1, rejectedWorld) (.done (.error .projectVanished), s) ∧
      Expected False .projectVanished) ∧
    ∃ s, Relation.ReflTransGen ((deletions 0).Step 0)
      (@refreshRevisionScriptFiles asciiUnicode (tableHashing exampleTable) 1 1 0, rejectedWorld)
        (.done (.error .revisionVanished), s) ∧
      Expected (∃ row, rejectedWorld.revisions.row 1 = some row ∧ hasDigest row = false)
        .revisionVanished := by
  obtain ⟨hstage, hrefresh⟩ := @calls_report_deletions asciiUnicode (tableHashing exampleTable)
    unicodeLaws_ascii 0 rejectedWorld plainRows_rejectedWorld 1 0
  have hplain : ∀ file ∈ (oneFile (py "a.py")).items, Plain file.1 := by decide
  have hstaging : ∃ s, Relation.ReflTransGen ((deletions 0).Step 0)
      (@stageRevision asciiUnicode (tableHashing exampleTable) 1 (oneFile (py "a.py")) ⟨10, 10, 10⟩
        false 0 1, rejectedWorld) (.done (.error .projectVanished), s) := by
    apply Exists.intro
    refine Sessions.run_other (@deletes_deleteProject 1 _) ?_
    refine Sessions.run_call .proceed trivial rfl ?_
    exact .refl
  have hrefreshing : ∃ s, Relation.ReflTransGen ((deletions 0).Step 0)
      (@refreshRevisionScriptFiles asciiUnicode (tableHashing exampleTable) 1 1 0, rejectedWorld)
        (.done (.error .revisionVanished), s) := by
    apply Exists.intro
    -- the project is read, and its lock is taken
    refine Sessions.run_call .proceed trivial rfl ?_
    refine Sessions.run_call .proceed trivial rfl ?_
    refine Sessions.run_other (@deletes_deleteProject 1 _) ?_
    refine Sessions.run_call .proceed trivial rfl ?_
    refine Sessions.run_call .proceed trivial rfl ?_
    exact .refl
  obtain ⟨s, hrun⟩ := hstaging
  obtain ⟨s', hrun'⟩ := hrefreshing
  exact ⟨⟨s, hrun, hstage _ hplain _ _ 0 _ s hrun _ rfl⟩, s', hrun', hrefresh _ _ s' hrun' _ rfl⟩

/-- The sessions of any interleaving, whether or not a statement finds its rows. -/
def interleaved (t : ThreadId) : Sessions Answer World Choice :=
  ⟨execute t, fun _ _ => True, Deletes⟩

/-- What staging does with a source that was built without an error. -/
theorem stageLocked_of_build [Unicode] [Hashing] {project : Id} {files : SourceFiles}
    {limits : StorageLimits} {entries : List ManifestEntry} (now : Time) (turns : ℕ)
    (h : buildManifest files limits = .ok (entries, [])) :
    stageLocked project files limits now turns = (do
      let snapshot ← ask (.declarations project)
      let key ← projectOrVanished project
      projectLock key.storageKey do
        let (r, found, created) ← getOrCreate
          { stagedRow project entries snapshot now with
            digest := some (manifestDigest entries), status := .staging }
        settleLoop key.storageKey files r created turns found) := by
  rw [stageLocked, h]
  rfl

/-- A rejected source loses its project before its row is inserted, and an accepted one before it is
made the project's. -/
theorem stageRevision_raises :
    (∃ s', Relation.ReflTransGen ((interleaved 0).Step 0)
      (@stageRevision asciiUnicode (tableHashing exampleTable) 1 (oneFile (py "..")) ⟨10, 10, 10⟩
        false 0 1, rejectedWorld) (.done (.error .integrity), s')) ∧
    ∃ s', Relation.ReflTransGen ((interleaved 0).Step 0)
      (@stageRevision asciiUnicode (tableHashing exampleTable) 1 (oneFile (py "a.py")) ⟨10, 10, 10⟩
        false 0 1, rejectedWorld) (.done (.error .doesNotExist), s') := by
  constructor
  · apply Exists.intro
    -- the project is read, its lock is taken, and the declarations are read
    refine Sessions.run_call .proceed trivial rfl ?_
    refine Sessions.run_call .proceed trivial rfl ?_
    refine Sessions.run_call .proceed trivial rfl ?_
    refine Sessions.run_other (@deletes_deleteProject 1 _) ?_
    refine Sessions.run_call .proceed trivial rfl ?_
    refine Sessions.run_call .proceed trivial rfl ?_
    exact .refl
  · have hbuild : @buildManifest asciiUnicode (tableHashing exampleTable) (oneFile (py "a.py"))
        ⟨10, 10, 10⟩ = .ok ([oneEntry (py "a.py")], []) := by decide +kernel
    have hdigest : @manifestDigest (tableHashing exampleTable) [oneEntry (py "a.py")] =
        py "4b60693728c5583063854db9944e454be43d0198fc30a7f614b3afdd58adaf26" := by decide +kernel
    have hfind : ∀ s : World, s.revisions = rejectedWorld.revisions →
        execute 0 (.find { rejectedRow with status := .staging }) .proceed s =
          some (some (1, rejectedRow), s) := by
      intro s h
      have hfound : rejectedWorld.revisions.entries.find? (fun found => found.2.SameIdentity
        { rejectedRow with status := .staging }) = some (1, rejectedRow) := by decide +kernel
      rw [execute, h, hfound]
    simp only [stageRevision, @stageLocked_of_build asciiUnicode (tableHashing exampleTable) 1 _ _ _
      0 1 hbuild, hdigest]
    apply Exists.intro
    refine Sessions.run_call .proceed trivial rfl ?_
    refine Sessions.run_call .proceed trivial rfl ?_
    refine Sessions.run_call .proceed trivial rfl ?_
    refine Sessions.run_call .proceed trivial rfl ?_
    refine Sessions.run_call .proceed trivial rfl ?_
    -- the row of the identity is found, and the inner lock released
    refine Sessions.run_call .proceed trivial (hfind _ rfl) ?_
    refine Sessions.run_call .proceed trivial rfl ?_
    refine Sessions.run_other (@deletes_deleteProject 1 _) ?_
    refine Sessions.run_call .proceed trivial rfl ?_
    refine Sessions.run_call .proceed trivial rfl ?_
    exact .refl

end Vanishing

end NetBoxScripts
