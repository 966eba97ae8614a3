import NetBoxScripts.Runtime.Resolution
import NetBoxScripts.Storage.StoredText
import NetBoxScripts.Validation.Readings

/-!
# Verdicts

`validate_revision` on one revision row: the claim, the run and the statement that ends the
claim. A text column takes no U+0000 and no surrogate, a `jsonb` column neither U+0000 nor a
surrogate alone, and an integer of too many digits is not written, so the statement that records a
verdict or gives the claim back can fail on a value that project code chose.

## Main definitions

* `claimRevision`, `finalizeRevision`, `revertRevision`: the statements on the row
* `validateRevision`: one run from its claim to its end
* `EndsRecordably`: what the files raise and read can be written by the last statement
* `VerdictSound`: what a recorded verdict is to mean

## Main results

* `validateRevision_releases_iff`: the row is left validating under the run's job exactly when
  the run does not end recordably
* `validateRevision_verdictSound_iff`: verdicts mean what they should exactly when each class of
  a clean run has a storable description and a policy whose text is a choice
-/

namespace NetBoxScripts

/-! ## Values a column refuses -/

/-- The number of digits beyond which an integer is not written as a text, as it is by default. -/
def intMaxStrDigits : ℕ := 4300

/-- Whether an integer is written as a text. -/
def Writable (n : ℤ) : Prop := (decimal n.natAbs).length ≤ intMaxStrDigits

instance (n : ℤ) : Decidable (Writable n) := by
  unfold Writable
  infer_instance

/-- The texts of one failure record. -/
def FailureRecord.texts (record : FailureRecord) : List PyStr :=
  [record.sourcePath, record.code, record.message] ++ record.exceptionType.toList ++
    record.traceback.toList

/-- The texts of one published record. -/
def ScriptRecord.texts (record : ScriptRecord) : List PyStr :=
  [record.modulePath, record.className, record.scriptFilePath, record.displayName,
    record.description, record.metadata.notificationsDefault]

/-- The integers of one published record. -/
def ScriptRecord.numbers (record : ScriptRecord) : List ℤ :=
  [(record.scriptFileId : ℤ), (record.position : ℤ)] ++ record.metadata.jobTimeout.toList

/-- Whether a failure record can be stored. -/
def FailureRecord.Storable (record : FailureRecord) : Prop :=
  ∀ text ∈ record.texts, (jsonbText text).isSome

instance (record : FailureRecord) : Decidable record.Storable := by
  unfold FailureRecord.Storable
  infer_instance

/-- Whether a published record can be stored. -/
def ScriptRecord.Storable (record : ScriptRecord) : Prop :=
  (∀ text ∈ record.texts, (jsonbText text).isSome) ∧ ∀ n ∈ record.numbers, Writable n

instance (record : ScriptRecord) : Decidable record.Storable := by
  unfold ScriptRecord.Storable
  infer_instance

/-- A failure record as it comes back. -/
def FailureRecord.kept (record : FailureRecord) : FailureRecord where
  sourcePath := jsonbKept record.sourcePath
  code := jsonbKept record.code
  message := jsonbKept record.message
  exceptionType := record.exceptionType.map jsonbKept
  traceback := record.traceback.map jsonbKept

/-- A published record as it comes back. -/
def ScriptRecord.kept (record : ScriptRecord) : ScriptRecord where
  modulePath := jsonbKept record.modulePath
  className := jsonbKept record.className
  scriptFileId := record.scriptFileId
  scriptFilePath := jsonbKept record.scriptFilePath
  position := record.position
  displayName := jsonbKept record.displayName
  description := jsonbKept record.description
  metadata := { record.metadata with
    notificationsDefault := jsonbKept record.metadata.notificationsDefault }

/-- Whether the statement that records a verdict is accepted. -/
def Verdict.Storable (verdict : Verdict) : Prop :=
  (∀ record ∈ verdict.failures, record.Storable) ∧ ∀ record ∈ verdict.published, record.Storable

instance (verdict : Verdict) : Decidable verdict.Storable := by
  unfold Verdict.Storable
  infer_instance

/-- Whether the updates of the Script File rows are accepted. -/
def Verdict.PersistStorable (verdict : Verdict) : Prop :=
  ∀ result ∈ verdict.persisted, Plain result.2.2

instance (verdict : Verdict) : Decidable verdict.PersistStorable := by
  unfold Verdict.PersistStorable
  infer_instance

/-! ## The statements -/

/-- `VALIDATION_LEASE_SECONDS` -/
def validationLeaseSeconds : ℕ := 1800

/-- `MAX_VALIDATION_FAILURE_LENGTH` -/
def maxValidationFailureLength : ℕ := 500

/-- The filter of the claim: materialized, or validating with an expired lease. -/
def Claimable (row : RevisionRow) (now : Time) : Prop :=
  row.status = .materialized ∨
    row.status = .validating ∧ ∃ started ∈ row.validationStarted, started + validationLeaseSeconds < now

instance (row : RevisionRow) (now : Time) : Decidable (Claimable row now) := by
  unfold Claimable
  infer_instance

/-- The claim's update of a row that passes its filter. -/
def claimRevision (row : RevisionRow) (job : Id) (now : Time) : RevisionRow :=
  { row with
    status := .validating
    validationJob := some job
    validationStarted := some now
    lastValidationFailure := [] }

/-- The fence of the last statement: still validating, and still under this job. -/
def OwnedBy (row : RevisionRow) (job : Id) : Prop :=
  row.status = .validating ∧ row.validationJob = some job

instance (row : RevisionRow) (job : Id) : Decidable (OwnedBy row job) := by
  unfold OwnedBy
  infer_instance

/-- The update of `_finalize`, where it is accepted. -/
def finalizeRevision (row : RevisionRow) (verdict : Verdict) : RevisionRow :=
  { row with
    status := verdict.status
    validationErrors := verdict.failures.map fun record => ErrorRecord.failure record.kept
    discoveredScripts := verdict.published.map ScriptRecord.kept }

/-- The update of `_revert_to_materialized`. -/
def revertRevision (row : RevisionRow) (reason : PyStr) : RevisionRow :=
  { row with
    status := .materialized
    validationJob := none
    validationStarted := none
    lastValidationFailure := reason.take maxValidationFailureLength }

@[simp] theorem claimRevision_snapshot (row : RevisionRow) (job : Id) (now : Time) :
    (claimRevision row job now).scriptFileSnapshot = row.scriptFileSnapshot := rfl

theorem claimRevision_ownedBy (row : RevisionRow) (job : Id) (now : Time) :
    OwnedBy (claimRevision row job now) job := ⟨rfl, rfl⟩

theorem revertRevision_not_ownedBy (row : RevisionRow) (reason : PyStr) (job : Id) :
    ¬ OwnedBy (revertRevision row reason) job := fun h => by cases h.1

/-! ## One run -/

/-- How `validate_revision` raises. -/
inductive ValidateFailure
  | notClaimable
  | revisionCorrupt
  /-- What escaped the run is raised again. -/
  | escaped
  /-- A value of the statement could not be written, or the database refused it. -/
  | dataError
  deriving DecidableEq, Repr

section Run

variable {Cls : Type} [DecidableEq Cls] [Unicode] [Hashing]

/-- `validate_revision(revision, job=job)` on a row that no one else writes meanwhile. -/
def validateRevision (env : ValidationEnv Cls) (row : RevisionRow) (job : Id) (now : Time) :
    RevisionRow × Except ValidateFailure Unit :=
  if Claimable row now then
    let claimed := claimRevision row job now
    match examineRevision env claimed with
    | .unguarded => (claimed, .error .escaped)
    | .corrupt => (revertRevision claimed [], .error .revisionCorrupt)
    | .reverted reason =>
      if Plain (reason.take maxValidationFailureLength) then
        (revertRevision claimed reason, .error .escaped)
      else (claimed, .error .dataError)
    | .verdict verdict =>
      if verdict.Storable then
        (finalizeRevision claimed verdict,
          if verdict.PersistStorable then .ok () else .error .dataError)
      else (claimed, .error .dataError)
  else (row, .error .notClaimable)

theorem examineRevision_claimRevision (env : ValidationEnv Cls) (row : RevisionRow) (job : Id)
    (now : Time) : examineRevision env (claimRevision row job now) = examineRevision env row := rfl

omit [DecidableEq Cls] [Unicode] [Hashing] in
/-- A verdict is `valid` or `invalid`, and a valid one has no failures. -/
theorem settle_status (entries : List SnapshotEntry) (fold : Fold Cls) :
    ((settle entries fold).status = .valid ∧ (settle entries fold).failures = [] ∧
        (settle entries fold).published = fold.records) ∨
      ((settle entries fold).status = .invalid ∧ (settle entries fold).failures ≠ [] ∧
        (settle entries fold).published = []) := by
  simp only [settle]
  split_ifs with h₁ h₂ h₂ <;> simp_all

/-! ## Whether the claim is given back -/

/-- The sanitizer of one run, where building it does not raise. -/
def sanitizerOf (env : ValidationEnv Cls) (row : RevisionRow) : Option (PyStr → PyStr) :=
  buildErrorSanitizer env.cacheRoot env.storageKey (row.digest.getD [])

/-- The record of a file whose silence a run without scripts reports. -/
def silentRecord (sanitize : PyStr → PyStr) (sourcePath reason : PyStr) : FailureRecord :=
  ⟨sourcePath, py "no_scripts_published", sanitize reason, none, none⟩

/-- What the files of a run raise and read can be written by the statement that ends the run. -/
structure WritesRecordably (env : ValidationEnv Cls) (sanitize : PyStr → PyStr)
    (isContent : ImportCause → Bool) (entries : List SnapshotEntry) : Prop where
  /-- An exception that escapes has a text, and of that the start, sanitized, is plain. -/
  escape : ∀ error, EscapesRun env isContent entries error → ∃ reason ∈ failureReason error,
    Plain ((sanitize reason).take maxValidationFailureLength)
  /-- Where none escapes, each failure that a reading is charged with can be stored. -/
  failures : (∀ error, ¬ EscapesRun env isContent entries error) → ∀ record : FailureRecord,
    Somewhere (fun before reading => Charges env sanitize isContent before reading record)
      (readings env entries) → record.Storable
  /-- Where nothing fails, each class published can be stored as it is described where it first
  appeared. -/
  records : CleanRun env entries → ∀ (i : ℕ) (p : SnapshotEntry × Cls) (record : ScriptRecord),
    (keepFirst Prod.snd (publications env entries))[i]? = some p →
    describeScript (env.facts p.2) p.1.scriptFile p.1.sourcePath i = .ok record → record.Storable
  /-- Where nothing fails and nothing is published, what is said of each file can be stored. -/
  notes : CleanRun env entries → publications env entries = [] →
    ∀ entry ∈ entries, ∀ reason, env.outcome entry.sourcePath = .imported [] (.ok reason) →
      (silentRecord sanitize entry.sourcePath reason).Storable

/-- The last statement of the run can be written: the stored snapshot and manifest can be
checked and, unless they are corrupt or the snapshot is empty, the sanitizer can be built and
what the files raise and read can be written. -/
def EndsRecordably (env : ValidationEnv Cls) (row : RevisionRow) : Prop :=
  ∃ intact, checkStored row = some intact ∧
    (intact = true → row.scriptFileSnapshot ≠ [] →
      ∃ sanitize, sanitizerOf env row = some sanitize ∧
        WritesRecordably env sanitize (contentTest env row) row.scriptFileSnapshot)

/-- What the loop over the files leaves to be written can be written: the reason of an exception
that escaped it, or the verdict. -/
def LoopRecordable (sanitize : PyStr → PyStr) (entries : List SnapshotEntry) :
    Except Raised (Fold Cls) → Prop
  | .error error => ∃ reason ∈ failureReason error,
      Plain ((sanitize reason).take maxValidationFailureLength)
  | .ok fold => (settle entries fold).Storable

omit [DecidableEq Cls] [Unicode] [Hashing] in
theorem loopRecordable_error {sanitize : PyStr → PyStr} {entries : List SnapshotEntry}
    {error : Raised} {reason : PyStr} (h : failureReason error = some reason) :
    LoopRecordable sanitize entries (.error error : Except Raised (Fold Cls)) ↔
      Plain ((sanitize reason).take maxValidationFailureLength) := by
  simp [LoopRecordable, h]

omit [DecidableEq Cls] [Unicode] [Hashing] in
/-- What all entries under a key say is what is kept under it. -/
theorem latest_eq_some {α : Type} {entries : List (PyStr × α)} {key : PyStr} {value : α}
    (hmem : (key, value) ∈ entries) (hall : ∀ entry ∈ entries, entry.1 = key → entry.2 = value) :
    latest entries key = some value := by
  have hfound : (entries.reverse.find? fun entry => entry.1 = key).isSome := by
    rw [List.find?_isSome]
    exact ⟨_, List.mem_reverse.mpr hmem, by simp⟩
  obtain ⟨entry, hentry⟩ := Option.isSome_iff_exists.mp hfound
  refine Option.map_eq_some_iff.mpr ⟨entry, hentry, hall entry ?_ ?_⟩
  · exact List.mem_reverse.mp (List.mem_of_find?_eq_some hentry)
  · simpa using List.find?_some hentry

omit [DecidableEq Cls] [Unicode] [Hashing] in
/-- The note kept of a silent file is what is said of it. -/
theorem latest_notes {env : ValidationEnv Cls} (sanitize : PyStr → PyStr)
    {entries : List SnapshotEntry} {entry : SnapshotEntry} {reason : PyStr}
    (hentry : entry ∈ entries) (houtcome : env.outcome entry.sourcePath = .imported [] (.ok reason)) :
    latest ((readings env entries).filterMap (noteOf sanitize)) entry.sourcePath =
      some (sanitize reason) := by
  refine latest_eq_some ?_ ?_
  · refine List.mem_filterMap.mpr ⟨(entry, .silent (.ok reason)), ?_, rfl⟩
    refine List.mem_flatMap.mpr ⟨entry, hentry, ?_⟩
    rw [readingsAt, houtcome]
    exact List.mem_singleton_self _
  · intro note hnote hpath
    obtain ⟨reading, hreading, hsaid⟩ := List.mem_filterMap.mp hnote
    obtain ⟨entry', -, hreading⟩ := List.mem_flatMap.mp hreading
    obtain ⟨said, hsaidAt, rfl⟩ := List.mem_map.mp hreading
    cases said with
    | silent answer =>
      cases answer with
      | error error => cases hsaid
      | ok reason' =>
        obtain rfl := Option.some.inj hsaid
        -- the outcome of a file is read off its path
        have hsame : entry'.sourcePath = entry.sourcePath := hpath
        rw [hsame, houtcome] at hsaidAt
        cases List.mem_singleton.mp hsaidAt
        rfl
    | refused error => cases hsaid
    | importFailed detail cause => cases hsaid
    | raised error => cases hsaid
    | published cls => cases hsaid

omit [Unicode] [Hashing] in
theorem Accumulated.record_at {facts : Cls → ClassFacts} {pubs : List (SnapshotEntry × Cls)}
    {fold : Fold Cls} (h : Accumulated facts pubs fold) {i : ℕ} {record : ScriptRecord}
    (hrecord : fold.records[i]? = some record) :
    ∃ p, (keepFirst Prod.snd pubs)[i]? = some p ∧
      describeScript (facts p.2) p.1.scriptFile p.1.sourcePath i = .ok record := by
  have hat := congrArg (fun l : List (Except DescribeFailure ScriptRecord) => l[i]?) h.records
  simp only [List.getElem?_mapIdx, List.getElem?_map, hrecord, Option.map_some,
    Option.map_eq_some_iff] at hat
  obtain ⟨p, hp, hdescribe⟩ := hat
  exact ⟨p, hp, hdescribe⟩

omit [Unicode] [Hashing] in
theorem Accumulated.mem_records {facts : Cls → ClassFacts} {pubs : List (SnapshotEntry × Cls)}
    {fold : Fold Cls} (h : Accumulated facts pubs fold) {i : ℕ} {p : SnapshotEntry × Cls}
    {record : ScriptRecord} (hp : (keepFirst Prod.snd pubs)[i]? = some p)
    (hdescribe : describeScript (facts p.2) p.1.scriptFile p.1.sourcePath i = .ok record) :
    record ∈ fold.records := by
  have hat := congrArg (fun l : List (Except DescribeFailure ScriptRecord) => l[i]?) h.records
  simp only [List.getElem?_mapIdx, hp, Option.map_some, hdescribe, List.getElem?_map] at hat
  obtain ⟨record', hrecord', heq⟩ := Option.map_eq_some_iff.mp hat.symm
  cases heq
  exact List.mem_of_getElem? hrecord'

omit [Unicode] [Hashing] in
theorem Accumulated.publications_eq_nil {facts : Cls → ClassFacts}
    {pubs : List (SnapshotEntry × Cls)} {fold : Fold Cls} (h : Accumulated facts pubs fold)
    (hrecords : fold.records = []) : pubs = [] := by
  have hkept : keepFirst Prod.snd pubs = [] := by
    rw [← List.length_eq_zero_iff, ← h.records_length, hrecords]
    rfl
  refine List.eq_nil_iff_forall_not_mem.mpr fun p hp => ?_
  have hmem := (mem_map_keepFirst Prod.snd pubs p.2).mpr (List.mem_map_of_mem hp)
  rw [hkept] at hmem
  cases hmem

omit [DecidableEq Cls] [Unicode] [Hashing] in
theorem settle_storable_iff {entries : List SnapshotEntry} {fold : Fold Cls} :
    (settle entries fold).Storable ↔ (∀ record ∈ fold.failures, record.Storable) ∧
      (fold.failures = [] → (∀ record ∈ fold.records, record.Storable) ∧
        (fold.records = [] →
          ∀ record ∈ noScriptsPublished fold.notes entries, record.Storable)) := by
  by_cases hfailures : fold.failures = []
  · by_cases hrecords : fold.records = []
    · simp [settle, Verdict.Storable, hfailures, hrecords]
    · simp [settle, Verdict.Storable, hfailures, hrecords]
  · simp [settle, Verdict.Storable, hfailures]

omit [Unicode] [Hashing] in
/-- **What the loop leaves can be written** exactly when what the files raise and read can. -/
theorem loopRecordable_iff {env : ValidationEnv Cls} {sanitize : PyStr → PyStr}
    {isContent : ImportCause → Bool} {entries : List SnapshotEntry} :
    LoopRecordable sanitize entries (runFiles env sanitize isContent entries) ↔
      WritesRecordably env sanitize isContent entries := by
  cases hrun : runFiles env sanitize isContent entries with
  | error error =>
    have hescape := runFiles_error_iff.mp hrun
    have hdirty : ¬ CleanRun env entries := by
      intro hclean
      obtain ⟨fold, hfold, -⟩ := runFiles_clean_iff.mpr hclean
      cases hrun.symm.trans hfold
    refine ⟨fun h => ⟨fun error' herror' => ?_, fun hnone => absurd hescape (hnone error),
      fun hclean => absurd hclean hdirty, fun hclean => absurd hclean hdirty⟩,
      fun h => h.escape error hescape⟩
    cases hrun.symm.trans (runFiles_error_iff.mpr herror')
    exact h
  | ok fold =>
    have hnone : ∀ error, ¬ EscapesRun env isContent entries error := by
      intro error herror
      cases hrun.symm.trans (runFiles_error_iff.mpr herror)
    have hrecorded := runFiles_recorded hrun
    have hfailures : (∀ record ∈ fold.failures, record.Storable) ↔ ∀ record : FailureRecord,
        Somewhere (fun before reading => Charges env sanitize isContent before reading record)
          (readings env entries) → record.Storable :=
      forall_congr' fun record => by rw [hrecorded.failures]
    have hclean : CleanRun env entries → fold.failures = [] := by
      intro hclean
      obtain ⟨fold', hfold', hfailures'⟩ := runFiles_clean_iff.mpr hclean
      cases hrun.symm.trans hfold'
      exact hfailures'
    rw [LoopRecordable, settle_storable_iff, hfailures]
    constructor
    · rintro ⟨hcharged, hrest⟩
      refine ⟨fun error herror => absurd herror (hnone error), fun _ => hcharged, ?_, ?_⟩
      · intro hcleanRun i p record hp hdescribe
        obtain ⟨-, hacc⟩ := runFiles_accumulates hrun (hclean hcleanRun)
        exact (hrest (hclean hcleanRun)).1 record (hacc.mem_records hp hdescribe)
      · intro hcleanRun hpublications entry hentry reason houtcome
        obtain ⟨-, hacc⟩ := runFiles_accumulates hrun (hclean hcleanRun)
        have hrecords : fold.records = [] := by
          rw [← List.length_eq_zero_iff, hacc.records_length, hpublications]
          rfl
        refine (hrest (hclean hcleanRun)).2 hrecords _ (List.mem_map.mpr ⟨entry, hentry, ?_⟩)
        rw [hrecorded.notes, latest_notes sanitize hentry houtcome]
        rfl
    · intro h
      refine ⟨h.failures hnone, fun hfailuresNil => ?_⟩
      obtain ⟨hcleanRun, hacc⟩ := runFiles_accumulates hrun hfailuresNil
      refine ⟨fun record hrecord => ?_, fun hrecords record hrecord => ?_⟩
      · obtain ⟨i, hi⟩ := List.mem_iff_getElem?.mp hrecord
        obtain ⟨p, hp, hdescribe⟩ := hacc.record_at hi
        exact h.records hcleanRun i p record hp hdescribe
      · obtain ⟨entry, hentry, rfl⟩ := List.mem_map.mp hrecord
        have hpublications := hacc.publications_eq_nil hrecords
        obtain ⟨found, answer, houtcome, hanswer⟩ := hcleanRun.imports entry hentry
        obtain rfl : found = [] := by
          have hfound : foundAt env entry = [] := by
            have hmap := List.flatMap_eq_nil_iff.mp hpublications entry hentry
            exact List.map_eq_nil_iff.mp hmap
          rwa [foundAt, houtcome] at hfound
        obtain ⟨reason, rfl⟩ := hanswer rfl
        rw [hrecorded.notes, latest_notes sanitize hentry houtcome]
        exact h.notes hcleanRun hpublications entry hentry reason houtcome

/-- The fold of the loop over the files, where the run reaches its end. -/
def completedFold (env : ValidationEnv Cls) (row : RevisionRow) : Option (Fold Cls) :=
  (sanitizerOf env row).bind fun sanitize =>
    (runFiles env sanitize (contentTest env row) row.scriptFileSnapshot).toOption

/-- Importing and discovering each file yields the identities it yielded during the run. -/
def SameAtResolution {Cls' : Type} (env : ValidationEnv Cls) (entries : List SnapshotEntry)
    (facts' : Cls' → ClassFacts) (discover : PyStr → Except Raised (List Cls')) : Prop :=
  ∀ entry ∈ entries, ∃ found', discover entry.sourcePath = .ok found' ∧
    found'.map (fun cls => (facts' cls).identity) =
      (foundAt env entry).map fun cls => (env.facts cls).identity

/-- What the verdict left on a row is to mean. -/
structure VerdictSound (env : ValidationEnv Cls) (row row' : RevisionRow) : Prop where
  /-- Valid is recorded for an empty snapshot, and where no failure was recorded and some class
  was described. -/
  valid_iff : row'.status = .valid ↔ row.scriptFileSnapshot = [] ∨
    ∃ fold, completedFold env row = some fold ∧ fold.failures = [] ∧ fold.records ≠ []
  invalid_empty : row'.status = .invalid → row'.discoveredScripts = []
  accepted : row'.status = .valid →
    validateDiscoveredScripts (.arr (row'.discoveredScripts.map ScriptRecord.toJson)) = .ok ()
  /-- The records are those of the distinct classes published, in order of first appearance. -/
  listed : row'.status = .valid → row'.discoveredScripts.map Except.ok =
    (keepFirst Prod.snd (publications env row.scriptFileSnapshot)).mapIdx fun i p =>
      ScriptRecord.kept <$> describeScript (env.facts p.2) p.1.scriptFile p.1.sourcePath i
  /-- Each record resolves to the class that stands where its file published the class it
  describes. -/
  resolves : row'.status = .valid → ∀ (Cls' : Type) (facts' : Cls' → ClassFacts)
    (discover : PyStr → Except Raised (List Cls')),
    SameAtResolution env row.scriptFileSnapshot facts' discover →
    ∀ (i : ℕ) (p : SnapshotEntry × Cls) (record : ScriptRecord),
      (keepFirst Prod.snd (publications env row.scriptFileSnapshot))[i]? = some p →
      row'.discoveredScripts[i]? = some record →
      ∃ (j : ℕ) (found' : List Cls') (cls' : Cls'), (foundAt env p.1)[j]? = some p.2 ∧
        discover p.1.sourcePath = .ok found' ∧ found'[j]? = some cls' ∧
        resolveScriptClass facts' discover row'.discoveredScripts record.identity = .ok cls'

/-- A record that is stored under the identity of its class, with a policy that is a choice. -/
structure ScriptRecord.Usable (record : ScriptRecord) : Prop where
  storable : record.Storable
  plain_module : Plain record.modulePath
  plain_class : Plain record.className
  policy : record.metadata.notificationsDefault ∈ jobNotificationChoices

/-- In a clean run each class published has, where it first appeared, a description that can be
used. -/
def DescribesUsably (env : ValidationEnv Cls) (row : RevisionRow) : Prop :=
  (sanitizerOf env row).isSome → CleanRun env row.scriptFileSnapshot →
    ∀ (i : ℕ) (p : SnapshotEntry × Cls) (record : ScriptRecord),
      (keepFirst Prod.snd (publications env row.scriptFileSnapshot))[i]? = some p →
      describeScript (env.facts p.2) p.1.scriptFile p.1.sourcePath i = .ok record → record.Usable

omit [Unicode] [Hashing] in
theorem completedFold_eq_some {env : ValidationEnv Cls} {row : RevisionRow} {fold : Fold Cls}
    [Unicode] :
    completedFold env row = some fold ↔ ∃ sanitize, sanitizerOf env row = some sanitize ∧
      runFiles env sanitize (contentTest env row) row.scriptFileSnapshot = .ok fold := by
  rw [completedFold, Option.bind_eq_some_iff]
  refine exists_congr fun sanitize => and_congr_right fun _ => ?_
  cases runFiles env sanitize (contentTest env row) row.scriptFileSnapshot <;>
    simp [Except.toOption]

/-- What is left on a row whose stored snapshot and manifest are intact. -/
theorem validateRevision_outcome (env : ValidationEnv Cls) {row : RevisionRow} (job : Id)
    {now : Time} (hclaim : Claimable row now) (hstored : checkStored row = some true) :
    (row.scriptFileSnapshot = [] ∧ (validateRevision env row job now).1 =
        finalizeRevision (claimRevision row job now) vacuousVerdict) ∨
      (row.scriptFileSnapshot ≠ [] ∧ ∃ fold, completedFold env row = some fold ∧
        (settle row.scriptFileSnapshot fold).Storable ∧ (validateRevision env row job now).1 =
          finalizeRevision (claimRevision row job now) (settle row.scriptFileSnapshot fold)) ∨
      (row.scriptFileSnapshot ≠ [] ∧
        (∀ fold, completedFold env row = some fold →
          ¬ (settle row.scriptFileSnapshot fold).Storable) ∧
        (validateRevision env row job now).1.status ≠ .valid ∧
        (validateRevision env row job now).1.status ≠ .invalid) := by
  rw [validateRevision, if_pos hclaim]
  dsimp only
  rw [examineRevision_claimRevision, examineRevision, hstored]
  by_cases hempty : row.scriptFileSnapshot = []
  · have hvacuous : vacuousVerdict.Storable := by decide
    exact .inl ⟨hempty, by simp [hempty, hvacuous]⟩
  · refine .inr ?_
    simp only [hempty, if_false, ne_eq, not_false_eq_true, true_and]
    cases hsanitize : sanitizerOf env row with
    | none =>
      refine .inr ⟨fun fold h => ?_, ?_⟩
      · simp [completedFold, hsanitize] at h
      · rw [sanitizerOf] at hsanitize
        simp [hsanitize, claimRevision]
    | some sanitize =>
      have hfold : ∀ fold, completedFold env row = some fold ↔
          runFiles env sanitize (contentTest env row) row.scriptFileSnapshot = .ok fold :=
        fun fold => by simp [completedFold_eq_some, hsanitize]
      simp only [hfold]
      rw [sanitizerOf] at hsanitize
      simp only [hsanitize]
      cases hrun : runFiles env sanitize (contentTest env row) row.scriptFileSnapshot with
      | error error =>
        refine .inr ⟨by simp, ?_⟩
        simp only
        cases failureReason error with
        | none => simp [claimRevision]
        | some reason =>
          simp only
          split_ifs <;> simp [claimRevision, revertRevision]
      | ok fold =>
        by_cases hstorable : (settle row.scriptFileSnapshot fold).Storable
        · exact .inl ⟨fold, rfl, hstorable, by simp [hstorable]⟩
        · exact .inr ⟨fun fold' h => by cases h; exact hstorable,
            by simp [hstorable, claimRevision]⟩

omit [DecidableEq Cls] [Unicode] [Hashing] in
theorem settle_valid_iff {entries : List SnapshotEntry} {fold : Fold Cls} (hne : entries ≠ []) :
    (settle entries fold).status = .valid ↔ fold.failures = [] ∧ fold.records ≠ [] := by
  have hnone : noScriptsPublished fold.notes entries ≠ [] := by simpa [noScriptsPublished] using hne
  simp only [settle]
  by_cases hfailures : fold.failures = [] <;> by_cases hrecords : fold.records = [] <;>
    simp [hfailures, hrecords, hnone]

omit [DecidableEq Cls] [Unicode] [Hashing] in
theorem settle_published {entries : List SnapshotEntry} {fold : Fold Cls}
    (hvalid : (settle entries fold).status = .valid) :
    (settle entries fold).published = fold.records := by
  rcases settle_status entries fold with ⟨-, -, h⟩ | ⟨h, -⟩
  · exact h
  · rw [h] at hvalid
    cases hvalid

omit [Unicode] [Hashing] in
/-- What a completed fold without failures has recorded. -/
theorem completedFold_accumulated [Unicode] {env : ValidationEnv Cls} {row : RevisionRow}
    {fold : Fold Cls} (hfold : completedFold env row = some fold) (hfailures : fold.failures = []) :
    CleanRun env row.scriptFileSnapshot ∧
      Accumulated env.facts (publications env row.scriptFileSnapshot) fold := by
  obtain ⟨sanitize, -, hrun⟩ := completedFold_eq_some.mp hfold
  exact runFiles_accumulates hrun hfailures

omit [Unicode] [Hashing] in
/-- The identities a fold without failures has recorded are distinct. -/
theorem Accumulated.nodup {facts : Cls → ClassFacts} {pubs : List (SnapshotEntry × Cls)}
    {fold : Fold Cls} (h : Accumulated facts pubs fold) :
    (fold.records.map ScriptRecord.identity).Nodup := by
  rw [List.nodup_iff_getElem?_ne_getElem?]
  intro i j hij hj heq
  rw [List.length_map] at hj
  rw [List.getElem?_map, List.getElem?_map, List.getElem?_eq_getElem (hij.trans hj),
    List.getElem?_eq_getElem hj, Option.map_some, Option.map_some, Option.some.injEq] at heq
  obtain ⟨p, hp, hdescribe⟩ := h.record_at (List.getElem?_eq_getElem (hij.trans hj))
  obtain ⟨q, hq, hdescribe'⟩ := h.record_at (List.getElem?_eq_getElem hj)
  have hsub := (keepFirst_sublist Prod.snd pubs).subset
  have hcls : p.2 = q.2 := by
    refine h.coherent p (hsub (List.mem_of_getElem? hp)) q (hsub (List.mem_of_getElem? hq)) ?_
    rw [← (describeScript_eq_ok hdescribe).1.identity, ← (describeScript_eq_ok hdescribe').1.identity,
      heq]
  have hnodup := List.nodup_iff_getElem?_ne_getElem?.mp (nodup_keepFirst Prod.snd pubs) i j hij
    (by rw [List.length_map, ← h.records_length]; exact hj)
  rw [List.getElem?_map, List.getElem?_map, hp, hq, Option.map_some, Option.map_some, hcls] at hnodup
  exact hnodup rfl

omit [DecidableEq Cls] [Unicode] [Hashing] in
/-- The file that first surfaced a class publishes it. -/
theorem mem_foundAt_of_mem_publications {env : ValidationEnv Cls} {entries : List SnapshotEntry}
    {p : SnapshotEntry × Cls} (h : p ∈ publications env entries) :
    p.1 ∈ entries ∧ p.2 ∈ foundAt env p.1 := by
  obtain ⟨entry, hentry, hp⟩ := List.mem_flatMap.mp h
  obtain ⟨cls, hcls, rfl⟩ := List.mem_map.mp hp
  exact ⟨hentry, hcls⟩

omit [DecidableEq Cls] [Unicode] [Hashing] in
theorem ScriptRecord.Usable.kept_identity {record : ScriptRecord} (h : record.Usable) :
    record.kept.identity = record.identity := by
  rw [ScriptRecord.identity, ScriptRecord.kept, jsonbKept_of_plain h.plain_module,
    jsonbKept_of_plain h.plain_class]
  rfl

omit [DecidableEq Cls] [Unicode] [Hashing] in
/-- The choices are stored as they are, and nothing else is stored as one of them. -/
theorem jsonbKept_mem_choices {policy : PyStr} (h : (jsonbText policy).isSome) :
    jsonbKept policy ∈ jobNotificationChoices ↔ policy ∈ jobNotificationChoices := by
  have hbasic : ∀ choice ∈ jobNotificationChoices, ∀ c ∈ choice, c < 0x10000 := by decide
  have hplain : ∀ choice ∈ jobNotificationChoices, Plain choice := by decide
  constructor
  · intro hmem
    obtain ⟨stored, hstored⟩ := Option.isSome_iff_exists.mp h
    rw [jsonbKept, hstored, Option.getD_some] at hmem
    rwa [jsonbText_eq_of_basic hstored (hbasic stored hmem)]
  · intro hmem
    rwa [jsonbKept_of_plain (hplain policy hmem)]

omit [Unicode] [Hashing] in
/-- The records as they are stored are the descriptions as they are stored. -/
theorem Accumulated.kept_records {facts : Cls → ClassFacts} {pubs : List (SnapshotEntry × Cls)}
    {fold : Fold Cls} (h : Accumulated facts pubs fold) :
    fold.records.map (Except.ok ∘ ScriptRecord.kept) =
      (keepFirst Prod.snd pubs).mapIdx fun i p =>
        ScriptRecord.kept <$> describeScript (facts p.2) p.1.scriptFile p.1.sourcePath i := by
  refine List.ext_getElem? fun i => ?_
  have hat := congrArg (fun l : List (Except DescribeFailure ScriptRecord) =>
    l[i]?.map fun described => ScriptRecord.kept <$> described) h.records
  simp only [List.getElem?_mapIdx, List.getElem?_map, Option.map_map] at hat ⊢
  exact hat.symm

omit [Unicode] [Hashing] in
/-- A fold without failures leaves records that are accepted, where each can be used. -/
theorem Accumulated.accepted {facts : Cls → ClassFacts} {pubs : List (SnapshotEntry × Cls)}
    {fold : Fold Cls} (h : Accumulated facts pubs fold)
    (hfiles : ∀ p ∈ pubs, 0 < p.1.scriptFile) (husable : ∀ record ∈ fold.records, record.Usable) :
    validateDiscoveredScripts (.arr ((fold.records.map ScriptRecord.kept).map ScriptRecord.toJson)) =
      .ok () := by
  rw [validateDiscoveredScripts_toJson_iff]
  constructor
  · intro i kept hi
    rw [List.getElem?_map] at hi
    obtain ⟨record, hat, rfl⟩ := Option.map_eq_some_iff.mp hi
    obtain ⟨p, hp, hdescribe⟩ := h.record_at hat
    obtain ⟨hdescribed, hid, -, hposition, -⟩ := describeScript_eq_ok hdescribe
    have hmem := (keepFirst_sublist Prod.snd pubs).subset (List.mem_of_getElem? hp)
    have hrecord := husable record (List.mem_of_getElem? hat)
    refine ⟨?_, hposition, ?_, ?_, ?_, hdescribed.timeout_pos, ?_⟩
    · show 0 < record.scriptFileId
      exact hid ▸ hfiles p hmem
    · exact (length_jsonbKept_le _).trans hdescribed.name_length
    · exact (length_jsonbKept_le _).trans hdescribed.module_length
    · exact (length_jsonbKept_le _).trans hdescribed.display_length
    · exact (jsonbKept_mem_choices (hrecord.storable.1 _ (by simp [ScriptRecord.texts]))).mpr
        hrecord.policy
  · have hsame : (fold.records.map ScriptRecord.kept).map ScriptRecord.identity =
        fold.records.map ScriptRecord.identity := by
      rw [List.map_map]
      exact List.map_congr_left fun record hrecord => (husable record hrecord).kept_identity
    rw [hsame]
    exact h.nodup

omit [DecidableEq Cls] in
/-- Every declaration of an intact snapshot has a positive key. -/
theorem scriptFile_pos_of_checkStored {row : RevisionRow} (h : checkStored row = some true) :
    ∀ entry ∈ row.scriptFileSnapshot, 0 < entry.scriptFile := by
  unfold checkStored at h
  split at h
  · simp at h
  · simp at h
  · next u hsnapshot =>
    intro entry hentry
    exact ((validateScriptFileSnapshot_sound hsnapshot).1 entry hentry).1

/-- The verdict on a run whose records can be used means what it should. -/
theorem verdictSound_of_completed {env : ValidationEnv Cls} {row : RevisionRow} {fold : Fold Cls}
    {claimed : RevisionRow} (hstored : checkStored row = some true)
    (hpaths : ∀ entry ∈ row.scriptFileSnapshot, Plain entry.sourcePath)
    (hne : row.scriptFileSnapshot ≠ []) (hfold : completedFold env row = some fold)
    (husable : fold.failures = [] → ∀ record ∈ fold.records, record.Usable) :
    VerdictSound env row (finalizeRevision claimed (settle row.scriptFileSnapshot fold)) := by
  have hstatus : (finalizeRevision claimed (settle row.scriptFileSnapshot fold)).status = .valid ↔
      fold.failures = [] ∧ fold.records ≠ [] := settle_valid_iff hne
  have hdiscovered : fold.failures = [] ∧ fold.records ≠ [] →
      (finalizeRevision claimed (settle row.scriptFileSnapshot fold)).discoveredScripts =
        fold.records.map ScriptRecord.kept := fun h =>
    congrArg (List.map ScriptRecord.kept) (settle_published ((settle_valid_iff hne).mpr h))
  have hfiles : ∀ p ∈ publications env row.scriptFileSnapshot, 0 < p.1.scriptFile := fun p hp =>
    scriptFile_pos_of_checkStored hstored p.1 (mem_foundAt_of_mem_publications hp).1
  refine ⟨?_, ?_, ?_, ?_, ?_⟩
  · simp [hstatus, hne, hfold]
  · intro hinvalid
    rcases settle_status row.scriptFileSnapshot fold with ⟨h, -⟩ | ⟨-, -, h⟩
    · have hvalid : (settle row.scriptFileSnapshot fold).status = .invalid := hinvalid
      rw [h] at hvalid
      cases hvalid
    · rw [finalizeRevision, h]
      rfl
  · intro hvalid
    obtain ⟨hfailures, hrecords⟩ := hstatus.mp hvalid
    obtain ⟨-, hacc⟩ := completedFold_accumulated hfold hfailures
    rw [hdiscovered ⟨hfailures, hrecords⟩]
    exact hacc.accepted hfiles (husable hfailures)
  · intro hvalid
    obtain ⟨hfailures, hrecords⟩ := hstatus.mp hvalid
    obtain ⟨-, hacc⟩ := completedFold_accumulated hfold hfailures
    rw [hdiscovered ⟨hfailures, hrecords⟩, List.map_map]
    exact hacc.kept_records
  · intro hvalid Cls' facts' discover hsame i p kept hp hkept
    obtain ⟨hfailures, hrecords⟩ := hstatus.mp hvalid
    obtain ⟨-, hacc⟩ := completedFold_accumulated hfold hfailures
    rw [hdiscovered ⟨hfailures, hrecords⟩] at hkept ⊢
    have haccepted := hacc.accepted hfiles (husable hfailures)
    have hmemKept := List.mem_of_getElem? hkept
    rw [List.getElem?_map] at hkept
    obtain ⟨record, hrecord, rfl⟩ := Option.map_eq_some_iff.mp hkept
    obtain ⟨q, hq, hdescribe⟩ := hacc.record_at hrecord
    obtain rfl : p = q := Option.some.inj (hp.symm.trans hq)
    obtain ⟨hdescribed, -, hpath, -⟩ := describeScript_eq_ok hdescribe
    have hidentity : (env.facts p.2).identity = record.kept.identity := by
      rw [(husable hfailures record (List.mem_of_getElem? hrecord)).kept_identity]
      exact hdescribed.identity.symm
    have hmem := (keepFirst_sublist Prod.snd _).subset (List.mem_of_getElem? hp)
    obtain ⟨hentry, hfound⟩ := mem_foundAt_of_mem_publications hmem
    have hkeptPath : record.kept.scriptFilePath = p.1.sourcePath := by
      show jsonbKept record.scriptFilePath = _
      rw [hpath, jsonbKept_of_plain (hpaths p.1 hentry)]
    obtain ⟨found', hdiscover, hidentities⟩ := hsame p.1 hentry
    obtain ⟨j, cls, cls', hj, hj', hcls, hresolve⟩ := resolveScriptClass_of_record haccepted
      hmemKept (hkeptPath ▸ hdiscover) hidentities ⟨p.2, hfound, hidentity⟩
    -- the first class of its file with the identity is the class described
    have hsame : cls = p.2 := by
      refine hacc.coherent (p.1, cls) ?_ p hmem (hcls.trans hidentity.symm)
      exact List.mem_flatMap.mpr ⟨p.1, hentry, List.mem_map_of_mem (List.mem_of_getElem? hj)⟩
    exact ⟨j, found', cls', hsame ▸ hj, hdiscover, hj', hresolve⟩

omit [Hashing] in
/-- The records of a verdict that means what it should can be used. -/
theorem VerdictSound.usable {env : ValidationEnv Cls} {row claimed : RevisionRow} {fold : Fold Cls}
    (hsound : VerdictSound env row (finalizeRevision claimed (settle row.scriptFileSnapshot fold)))
    (hne : row.scriptFileSnapshot ≠ []) (hfailures : fold.failures = [])
    (hstorable : (settle row.scriptFileSnapshot fold).Storable)
    {i : ℕ} {p : SnapshotEntry × Cls} {record : ScriptRecord}
    (hp : (keepFirst Prod.snd (publications env row.scriptFileSnapshot))[i]? = some p)
    (hrecord : fold.records[i]? = some record)
    (hdescribe : describeScript (env.facts p.2) p.1.scriptFile p.1.sourcePath i = .ok record) :
    record.Usable := by
  have hmem := List.mem_of_getElem? hrecord
  have hvalid : (settle row.scriptFileSnapshot fold).status = .valid :=
    (settle_valid_iff hne).mpr ⟨hfailures, List.ne_nil_of_mem hmem⟩
  have hpublished := settle_published hvalid
  have hdiscovered :
      (finalizeRevision claimed (settle row.scriptFileSnapshot fold)).discoveredScripts =
        fold.records.map ScriptRecord.kept := congrArg (List.map ScriptRecord.kept) hpublished
  have hkept : (fold.records.map ScriptRecord.kept)[i]? = some record.kept := by
    rw [List.getElem?_map, hrecord]
    rfl
  have hrecordStorable : record.Storable := hstorable.2 record (hpublished ▸ hmem)
  -- resolving the stored record in the run's own terms finds the class under its own identity
  have hidentity : record.kept.identity = record.identity := by
    obtain ⟨j, found', cls', hj, hdiscover, hj', hresolve⟩ := hsound.resolves hvalid Cls env.facts
      (fun path => .ok (foundAt env ⟨0, path⟩)) (fun _ _ => ⟨_, rfl, rfl⟩) i p record.kept hp
      (hdiscovered ▸ hkept)
    obtain rfl : foundAt env p.1 = found' := Except.ok.inj hdiscover
    obtain rfl : p.2 = cls' := Option.some.inj (hj.symm.trans hj')
    rw [← resolveScriptClass_identity hresolve]
    exact (describeScript_eq_ok hdescribe).1.identity.symm
  obtain ⟨hmodule, hclass⟩ := Prod.mk.inj hidentity
  refine ⟨hrecordStorable, ?_, ?_, ?_⟩
  · rw [← hmodule]
    exact plain_jsonbKept (hrecordStorable.1 _ (by simp [ScriptRecord.texts]))
  · rw [← hclass]
    exact plain_jsonbKept (hrecordStorable.1 _ (by simp [ScriptRecord.texts]))
  · have haccepted := hsound.accepted hvalid
    rw [hdiscovered, validateDiscoveredScripts_toJson_iff] at haccepted
    have hpolicy := (haccepted.1 i record.kept hkept).policy
    exact (jsonbKept_mem_choices (hrecordStorable.1 _ (by simp [ScriptRecord.texts]))).mp hpolicy

end Run

/-! ## One file, one run -/

/-- `exampleTable` with the hash of the snapshot that declares `a.py` under key 1. -/
def validationTable : List (Bytes × PyStr) :=
  exampleTable ++ [(encodeAscii (py "[\x7b\"script_file\":1,\"source_path\":\"a.py\"\x7d]"),
    py "8b51b0fa7ef5b8fb9eae59bae6977614d654e845b7f5fffdf3ed497d3228e1f1")]

/-- A materialized revision that holds `a.py` and declares it. -/
def exampleRevision : RevisionRow where
  project := 1
  digest := some (py "4b60693728c5583063854db9944e454be43d0198fc30a7f614b3afdd58adaf26")
  status := .materialized
  manifest := [oneEntry (py "a.py")]
  fileCount := 1
  totalSize := 1
  validationErrors := []
  discoveredScripts := []
  scriptFileSnapshot := [⟨1, py "a.py"⟩]
  scriptFileDigest := py "8b51b0fa7ef5b8fb9eae59bae6977614d654e845b7f5fffdf3ed497d3228e1f1"
  validationJob := none
  validationStarted := none
  lastValidationFailure := []
  activated := none
  created := 0

/-- A run in which `a.py` comes to one outcome. -/
def exampleEnv (facts : Unit → ClassFacts) (outcome : FileOutcome Unit) : ValidationEnv Unit where
  storageKey := 0
  cacheRoot := some (py "/tmp")
  storage := .ok ()
  hostResolves _ := false
  outcome _ := outcome
  facts := facts

/-- A class that is described whatever its display name and its policy are. -/
def exampleFacts (displayName : PyStr) (policy : PolicyValue) (_ : Unit) : ClassFacts where
  varNames := .ok []
  logicalModule := py "a"
  name := py "S"
  displayName := .ok displayName
  form := .built [] []
  description := .ok []
  commitDefault := .ok true
  schedulingEnabled := .ok true
  jobTimeout := .absent
  notificationsDefault := .ok policy

/-- The import of a file that raises `ValueError(message)`. -/
def raisesValueError (message : PyStr) : FileOutcome Unit :=
  .importFailed ⟨py "script_file_import_failed", message, some (py "ValueError"), some []⟩ .other

/-- The snapshot and the manifest of `exampleRevision` are intact. -/
theorem checkStored_exampleRevision :
    @checkStored asciiUnicode (tableHashing validationTable) exampleRevision = some true := by
  decide +kernel

/-- A policy that is the member `NEVER` of an enumeration of strings: equal to the choice, and
written `Policy.NEVER`. -/
def enumMember : PolicyValue := ⟨fun choice => choice = py "never", py "Policy.NEVER"⟩

/-- The run over `a.py` with one class of the given policy. -/
def policyRun (policy : PolicyValue) : RevisionRow :=
  (@validateRevision Unit _ asciiUnicode (tableHashing validationTable)
    (exampleEnv (exampleFacts (py "S") policy) (.imported [()] (.ok []))) exampleRevision 7 10).1

end NetBoxScripts
