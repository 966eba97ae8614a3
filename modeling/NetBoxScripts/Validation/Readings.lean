import NetBoxScripts.Python.Traced
import NetBoxScripts.Validation.Run

/-!
# What a run reads

The loop over a snapshot's files as the sequence of what it meets: a file that is refused, fails to
import, raises or publishes nothing, or one class after another of a file that publishes. An
identity is taken by the first class published under it that can be described; a later class under
it is a duplicate, and one whose identity is free is described in its turn.

## Main definitions

* `readings`: what the files of a snapshot come to, class by class
* `standing`: the class that has taken an identity
* `Escapes`, `Charges`: the exception a reading lets escape, the failure it is charged with
* `EscapesRun`: the exception that escapes the run

## Main results

* `runFiles_error_iff`: what the run raises
* `runFiles_recorded`: what a run that ends has recorded
-/

namespace NetBoxScripts

variable {Cls : Type}

/-! ## Readings -/

/-- One thing the loop over the files meets. -/
inductive Reading (Cls : Type)
  | refused (error : MetadataError)
  | importFailed (detail : ImportDetail) (cause : ImportCause)
  | raised (error : Raised)
  /-- A file that publishes nothing, and what is said of its silence. -/
  | silent (reason : Except Raised PyStr)
  | published (cls : Cls)

/-- What importing one file comes to, class by class. -/
def FileOutcome.readings : FileOutcome Cls → List (Reading Cls)
  | .imported [] reason => [.silent reason]
  | .imported found _ => found.map .published
  | .refused error => [.refused error]
  | .importFailed detail cause => [.importFailed detail cause]
  | .raised error => [.raised error]

/-- The readings of the file at one entry. -/
def readingsAt (env : ValidationEnv Cls) (entry : SnapshotEntry) :
    List (SnapshotEntry × Reading Cls) :=
  (env.outcome entry.sourcePath).readings.map fun reading => (entry, reading)

/-- What the files of a snapshot come to, in order. -/
def readings (env : ValidationEnv Cls) (entries : List SnapshotEntry) :
    List (SnapshotEntry × Reading Cls) :=
  entries.flatMap (readingsAt env)

instance (facts : ClassFacts) : Decidable (Describable facts) :=
  match h : describeScript facts 0 [] 0 with
  | .ok record => isTrue ⟨record, h⟩
  | .error _ => isFalse fun ⟨_, hrecord⟩ => by cases h.symm.trans hrecord

/-- The class that has taken an identity: the first published under it that can be described. -/
def standing (facts : Cls → ClassFacts) (before : List (SnapshotEntry × Reading Cls))
    (identity : ScriptIdentity) : Option Cls :=
  before.findSome? fun
    | (_, .published cls) =>
      if (facts cls).identity = identity ∧ Describable (facts cls) then some cls else none
    | _ => none

/-- The exception that a reading lets escape, after what was read before it. -/
inductive Escapes (env : ValidationEnv Cls) (isContent : ImportCause → Bool)
    (before : List (SnapshotEntry × Reading Cls)) : SnapshotEntry × Reading Cls → Raised → Prop
  | raised {entry : SnapshotEntry} {error : Raised} :
    Escapes env isContent before (entry, .raised error) error
  /-- An import that failed through the environment. -/
  | environment {entry : SnapshotEntry} {detail : ImportDetail} {cause : ImportCause}
      (hcause : isContent cause = false) :
    Escapes env isContent before (entry, .importFailed detail cause)
      (importErrorRaised entry.sourcePath detail)
  | silent {entry : SnapshotEntry} {error : Raised} :
    Escapes env isContent before (entry, .silent (.error error)) error
  /-- A class under a free identity that raises where it is described. -/
  | published {entry : SnapshotEntry} {cls : Cls} {error : Raised}
      (hfree : standing env.facts before (env.facts cls).identity = none)
      (hraises : describeScript (env.facts cls) 0 [] 0 = .error (.raised error)) :
    Escapes env isContent before (entry, .published cls) error

/-- The failure that a reading is charged with, after what was read before it. -/
inductive Charges (env : ValidationEnv Cls) (sanitize : PyStr → PyStr)
    (isContent : ImportCause → Bool) (before : List (SnapshotEntry × Reading Cls)) :
    SnapshotEntry × Reading Cls → FailureRecord → Prop
  | refused {entry : SnapshotEntry} {error : MetadataError} :
    Charges env sanitize isContent before (entry, .refused error)
      (refusalRecord sanitize entry.sourcePath error)
  /-- An import that failed through the content. -/
  | content {entry : SnapshotEntry} {detail : ImportDetail} {cause : ImportCause}
      (hcause : isContent cause = true) :
    Charges env sanitize isContent before (entry, .importFailed detail cause)
      (importRecord sanitize entry.sourcePath detail)
  /-- A class whose identity another class has taken. -/
  | duplicate {entry : SnapshotEntry} {cls other : Cls}
      (htaken : standing env.facts before (env.facts cls).identity = some other)
      (hother : other ≠ cls) :
    Charges env sanitize isContent before (entry, .published cls)
      (duplicateRecord sanitize entry.sourcePath (env.facts cls).identity)
  /-- A class under a free identity that is refused where it is described. -/
  | undescribed {entry : SnapshotEntry} {cls : Cls} {error : MetadataError}
      (hfree : standing env.facts before (env.facts cls).identity = none)
      (hrefused : describeScript (env.facts cls) 0 [] 0 = .error (.refused error)) :
    Charges env sanitize isContent before (entry, .published cls)
      (refusalRecord sanitize entry.sourcePath error)

/-- The exception that escapes a run: that of the storage, or of the first reading that lets one
escape. -/
def EscapesRun (env : ValidationEnv Cls) (isContent : ImportCause → Bool)
    (entries : List SnapshotEntry) (error : Raised) : Prop :=
  env.storage = .error error ∨
    env.storage = .ok () ∧ FirstAs (Escapes env isContent) (readings env entries) error

/-- The note left of a reading, under the path of its file. -/
def noteOf (sanitize : PyStr → PyStr) : SnapshotEntry × Reading Cls → Option (PyStr × PyStr)
  | (entry, .silent (.ok reason)) => some (entry.sourcePath, sanitize reason)
  | _ => none

/-! ## What was recorded -/

/-- What the loop has recorded of what it has read. -/
structure ReadingsRecorded (env : ValidationEnv Cls) (sanitize : PyStr → PyStr)
    (isContent : ImportCause → Bool) (before : List (SnapshotEntry × Reading Cls))
    (fold : Fold Cls) : Prop where
  known : ∀ identity, fold.publishedAs identity = standing env.facts before identity
  failures : ∀ record, record ∈ fold.failures ↔
    Somewhere (fun earlier reading => Charges env sanitize isContent earlier reading record) before
  notes : fold.notes = before.filterMap (noteOf sanitize)

/-- Where a class is found plays no part in whether it is described. -/
theorem describeScript_eq_map (facts : ClassFacts) (scriptFile : Id) (sourcePath : PyStr)
    (position : ℕ) : describeScript facts scriptFile sourcePath position =
      (fun record : ScriptRecord => { record with
        scriptFileId := scriptFile, scriptFilePath := sourcePath, position := position }) <$>
          describeScript facts 0 [] 0 := by
  simp only [describeScript, map_bind, map_pure]

theorem describeScript_eq_error {facts : ClassFacts} {scriptFile : Id} {sourcePath : PyStr}
    {position : ℕ} {failure : DescribeFailure} :
    describeScript facts scriptFile sourcePath position = .error failure ↔
      describeScript facts 0 [] 0 = .error failure := by
  rw [describeScript_eq_map]
  cases describeScript facts 0 [] 0 with
  | error error => exact Iff.rfl
  | ok record => exact ⟨fun h => (by cases h), fun h => (by cases h)⟩

theorem Escapes.unique {env : ValidationEnv Cls} {isContent : ImportCause → Bool}
    {before : List (SnapshotEntry × Reading Cls)} {reading : SnapshotEntry × Reading Cls}
    {error error' : Raised} (h : Escapes env isContent before reading error)
    (h' : Escapes env isContent before reading error') : error = error' := by
  cases h with
  | raised => cases h'; rfl
  | environment => cases h'; rfl
  | silent => cases h'; rfl
  | published _ hraises =>
    cases h' with
    | published _ hraises' =>
      rw [hraises] at hraises'
      cases hraises'
      rfl

section Loop

variable {env : ValidationEnv Cls} {sanitize : PyStr → PyStr} {isContent : ImportCause → Bool}
  {before : List (SnapshotEntry × Reading Cls)} {fold fold' : Fold Cls} {entry : SnapshotEntry}

theorem standing_concat (identity : ScriptIdentity) (cls : Cls) :
    standing env.facts (before ++ [(entry, .published cls)]) identity =
      (standing env.facts before identity).or
        (if (env.facts cls).identity = identity ∧ Describable (env.facts cls) then some cls
          else none) := by
  rw [standing, List.findSome?_append]
  simp [standing]

/-- Only a class that is published takes an identity. -/
theorem standing_other (identity : ScriptIdentity) {reading : Reading Cls}
    (h : ∀ cls, reading ≠ .published cls) :
    standing env.facts (before ++ [(entry, reading)]) identity =
      standing env.facts before identity := by
  rw [standing, List.findSome?_append]
  cases reading with
  | published cls => exact absurd rfl (h cls)
  | refused error => simp [standing]
  | importFailed detail cause => simp [standing]
  | raised error => simp [standing]
  | silent reason => simp [standing]

/-- What one more reading adds to what was recorded. -/
theorem ReadingsRecorded.concat {reading : SnapshotEntry × Reading Cls}
    (h : ReadingsRecorded env sanitize isContent before fold) (charged : List FailureRecord)
    (hknown : ∀ identity,
      fold'.publishedAs identity = standing env.facts (before ++ [reading]) identity)
    (hfailures : fold'.failures = fold.failures ++ charged)
    (hcharged : ∀ record,
      record ∈ charged ↔ Charges env sanitize isContent before reading record)
    (hnotes : fold'.notes = fold.notes ++ (noteOf sanitize reading).toList) :
    ReadingsRecorded env sanitize isContent (before ++ [reading]) fold' where
  known := hknown
  failures record := by
    rw [hfailures, List.mem_append, h.failures, hcharged, somewhere_concat]
  notes := by
    rw [hnotes, h.notes, List.filterMap_append]
    cases hnote : noteOf sanitize reading <;> simp [hnote]

variable [DecidableEq Cls]

/-- A class whose identity is taken. -/
theorem publishStep_taken {status : FileDiscoveryStatus} {cls other : Cls}
    (h : ReadingsRecorded env sanitize isContent before fold)
    (htaken : standing env.facts before (env.facts cls).identity = some other) :
    Traces (fun seen (state : Fold Cls × FileDiscoveryStatus) =>
        ReadingsRecorded env sanitize isContent seen state.1)
      (Escapes env isContent) before [(entry, .published cls)]
      (publishStep env.facts sanitize entry (fold, status) cls) := by
  have hnone : ∀ error, ¬ Escapes env isContent before (entry, .published cls) error := by
    rintro error (_ | _ | _ | ⟨hfree, -⟩)
    cases htaken.symm.trans hfree
  have hsame : ∀ identity, fold.publishedAs identity =
      standing env.facts (before ++ [(entry, .published cls)]) identity := by
    intro identity
    rw [standing_concat, h.known]
    split_ifs with hidentity
    · rw [← hidentity.1, htaken]
      rfl
    · rw [Option.or_none]
  simp only [publishStep, h.known, htaken]
  by_cases hother : other = cls
  · rw [if_pos hother]
    refine traces_ok (h.concat [] hsame (by simp) (fun record => ?_) (by simp [noteOf])) hnone
    refine iff_of_false (by simp) ?_
    rintro (_ | _ | ⟨htaken', hne⟩ | ⟨hfree, -⟩)
    · exact hne ((Option.some.inj (htaken'.symm.trans htaken)).trans hother)
    · cases htaken.symm.trans hfree
  · rw [if_neg hother]
    refine traces_ok (h.concat [duplicateRecord sanitize entry.sourcePath
      (env.facts cls).identity] hsame rfl (fun record => ?_) (by simp [noteOf])) hnone
    rw [List.mem_singleton]
    constructor
    · rintro rfl
      exact .duplicate htaken hother
    · rintro (_ | _ | _ | ⟨hfree, -⟩)
      · rfl
      · cases htaken.symm.trans hfree

/-- A class under a free identity. -/
theorem publishStep_free {status : FileDiscoveryStatus} {cls : Cls}
    (h : ReadingsRecorded env sanitize isContent before fold)
    (hfree : standing env.facts before (env.facts cls).identity = none) :
    Traces (fun seen (state : Fold Cls × FileDiscoveryStatus) =>
        ReadingsRecorded env sanitize isContent seen state.1)
      (Escapes env isContent) before [(entry, .published cls)]
      (publishStep env.facts sanitize entry (fold, status) cls) := by
  simp only [publishStep, h.known, hfree]
  cases hdescribe : describeScript (env.facts cls) entry.scriptFile entry.sourcePath
      fold.records.length with
  | error failure =>
    have hdescribe' := describeScript_eq_error.mp hdescribe
    cases failure with
    | raised error => exact traces_error (.published hfree hdescribe')
    | refused error =>
      have hundescribed : ¬ Describable (env.facts cls) := by
        rintro ⟨record, hrecord⟩
        cases hdescribe'.symm.trans hrecord
      refine traces_ok (h.concat [refusalRecord sanitize entry.sourcePath error]
        (fun identity => ?_) rfl (fun record => ?_) (by simp [noteOf])) ?_
      · rw [standing_concat, if_neg fun hboth => hundescribed hboth.2, Option.or_none]
        exact h.known identity
      · rw [List.mem_singleton]
        constructor
        · rintro rfl
          exact .undescribed hfree hdescribe'
        · rintro (_ | _ | ⟨htaken, -⟩ | ⟨-, hrefused⟩)
          · cases hfree.symm.trans htaken
          · cases hdescribe'.symm.trans hrefused
            rfl
      · rintro error' (_ | _ | _ | ⟨-, hraises⟩)
        cases hdescribe'.symm.trans hraises
  | ok record =>
    have hdescribable := describable_of_eq_ok hdescribe
    have hnoError : ∀ failure, describeScript (env.facts cls) 0 [] 0 ≠ .error failure := by
      intro failure hfailure
      cases hdescribe.symm.trans (describeScript_eq_error.mpr hfailure)
    refine traces_ok (h.concat [] (fun identity => ?_) (by simp) (fun record => ?_)
      (by simp [noteOf])) ?_
    · rw [standing_concat, ← h.known, Fold.publishedAs, Fold.publishedAs, List.find?_append,
        Option.map_or]
      by_cases hidentity : (env.facts cls).identity = identity
      · simp [hidentity, hdescribable]
      · simp [hidentity]
    · refine iff_of_false (by simp) ?_
      rintro (_ | _ | ⟨htaken, -⟩ | ⟨-, hrefused⟩)
      · cases hfree.symm.trans htaken
      · exact hnoError _ hrefused
    · rintro error' (_ | _ | _ | ⟨-, hraises⟩)
      exact hnoError _ hraises

variable (entry) in
/-- The classes of one file. -/
theorem collectPublications_traces (h : ReadingsRecorded env sanitize isContent before fold)
    (found : List Cls) :
    Traces (fun seen (state : Fold Cls × FileDiscoveryStatus) =>
        ReadingsRecorded env sanitize isContent seen state.1)
      (Escapes env isContent) before (found.flatMap fun cls => [(entry, .published cls)])
      (collectPublications env.facts sanitize entry fold found) := by
  refine foldlM_traces
    (I := fun seen (state : Fold Cls × FileDiscoveryStatus) =>
      ReadingsRecorded env sanitize isContent seen state.1)
    (fun seen state cls hstate => ?_) h found
  cases hstanding : standing env.facts seen (env.facts cls).identity with
  | none => exact publishStep_free hstate hstanding
  | some other => exact publishStep_taken hstate hstanding

omit [DecidableEq Cls] in
/-- What is recorded of a file that failed. -/
theorem ReadingsRecorded.fail (h : ReadingsRecorded env sanitize isContent before fold)
    {reading : Reading Cls} {record : FailureRecord} (hreading : ∀ cls, reading ≠ .published cls)
    (hrecord : ∀ record', record' = record ↔
      Charges env sanitize isContent before (entry, reading) record')
    (hnote : noteOf sanitize (entry, reading) = none) :
    ReadingsRecorded env sanitize isContent (before ++ [(entry, reading)]) (fold.fail record) := by
  refine h.concat [record] (fun identity => ?_) rfl (fun record' => ?_) ?_
  · rw [standing_other identity hreading]
    exact h.known identity
  · rw [List.mem_singleton, hrecord]
  · rw [hnote]
    exact (List.append_nil _).symm

/-- One file. -/
theorem fileStep_traces (h : ReadingsRecorded env sanitize isContent before fold) :
    Traces (ReadingsRecorded env sanitize isContent) (Escapes env isContent) before
      (readingsAt env entry) (fileStep env sanitize isContent fold entry) := by
  rw [fileStep, readingsAt]
  cases houtcome : env.outcome entry.sourcePath with
  | refused error =>
    refine traces_ok (h.fail (by simp) (fun record => ?_) rfl) ?_
    · constructor
      · rintro rfl
        exact .refused
      · rintro (_ | _)
        rfl
    · rintro error' (_ | _ | _ | _)
  | importFailed detail cause =>
    dsimp only
    cases hcause : isContent cause with
    | true =>
      refine traces_ok (h.fail (by simp) (fun record => ?_) rfl) ?_
      · constructor
        · rintro rfl
          exact .content hcause
        · rintro (_ | _)
          rfl
      · rintro error' (_ | hcause')
        cases hcause.symm.trans hcause'
    | false => exact traces_error (.environment hcause)
  | raised error => exact traces_error .raised
  | imported found reason =>
    cases found with
    | nil =>
      cases reason with
      | error error => exact traces_error .silent
      | ok reason =>
        refine traces_ok (h.concat [] (fun identity => ?_) (by simp [Fold.conclude])
          (fun record => ?_) rfl) ?_
        · rw [standing_other identity (by simp)]
          exact h.known identity
        · refine iff_of_false (by simp) ?_
          rintro (_ | _)
        · rintro error' (_ | _ | _ | _)
    | cons cls found =>
      have hcollect := collectPublications_traces entry h (cls :: found)
      have hreadings : (FileOutcome.readings (.imported (cls :: found) reason)).map
          (fun reading => (entry, reading)) =
          (cls :: found).flatMap fun cls => [(entry, .published cls)] := by
        show ((cls :: found).map Reading.published).map _ = _
        rw [List.map_map, List.map_eq_flatMap]
        rfl
      rw [hreadings]
      dsimp only
      cases hrun : collectPublications env.facts sanitize entry fold (cls :: found) with
      | error error =>
        rw [hrun] at hcollect
        exact hcollect
      | ok state =>
        rw [hrun] at hcollect
        exact ⟨⟨hcollect.1.known, hcollect.1.failures, hcollect.1.notes⟩, hcollect.2⟩

/-! ## The run -/

omit [DecidableEq Cls] in
theorem ReadingsRecorded.empty : ReadingsRecorded env sanitize isContent [] (.empty : Fold Cls) where
  known _ := rfl
  failures record := by simp [Fold.empty]
  notes := rfl

variable {entries : List SnapshotEntry}

variable (sanitize isContent entries) in
theorem runFiles_traces (hstorage : env.storage = .ok ()) :
    Traces (ReadingsRecorded env sanitize isContent) (Escapes env isContent) [] (readings env entries)
      (runFiles env sanitize isContent entries) := by
  rw [runFiles, hstorage]
  exact foldlM_traces (fun seen fold entry hfold => fileStep_traces hfold) .empty entries

/-- **What a run raises** is what escapes the storage or the first reading that lets it. -/
theorem runFiles_error_iff {error : Raised} :
    runFiles env sanitize isContent entries = .error error ↔
      EscapesRun env isContent entries error := by
  cases hstorage : env.storage with
  | error error' =>
    rw [runFiles, hstorage, EscapesRun, hstorage]
    simp
  | ok u =>
    have htraces := runFiles_traces sanitize isContent entries hstorage
    have hescapes : EscapesRun env isContent entries error ↔
        FirstAs (Escapes env isContent) (readings env entries) error := by
      simp [EscapesRun, hstorage]
    rw [hescapes]
    cases hrun : runFiles env sanitize isContent entries with
    | error error' =>
      rw [hrun] at htraces
      have hfirst : FirstAs (Escapes env isContent) (readings env entries) error' := htraces
      refine ⟨fun h => ?_, fun h => ?_⟩
      · cases h
        exact hfirst
      · rw [hfirst.unique h fun _ _ _ _ => Escapes.unique]
    | ok fold =>
      rw [hrun] at htraces
      exact iff_of_false (by simp) fun h => htraces.2 h.somewhere

/-- **What a run that ends has recorded** is what its readings are charged with. -/
theorem runFiles_recorded (hrun : runFiles env sanitize isContent entries = .ok fold) :
    ReadingsRecorded env sanitize isContent (readings env entries) fold := by
  cases hstorage : env.storage with
  | error error =>
    rw [runFiles, hstorage] at hrun
    cases hrun
  | ok u =>
    have htraces := runFiles_traces sanitize isContent entries hstorage
    rw [hrun] at htraces
    exact htraces.1

end Loop

end NetBoxScripts
