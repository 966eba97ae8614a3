import NetBoxScripts.Services.Workers

/-!
# What fences the workers off

A worker writes a revision only while the row is validating under its job, and Script Files only
after it gave the verdict. A lease may expire and be claimed again between any two statements, and
an outcome is left alone where a validation that started later has recorded one.

## Main definitions

* `Claims`, `Judges`, `Writes`: the steps that claim a revision, judge it, and write an outcome
* `Effect`: what a step makes of the rows
* `Gave`: what a worker has recorded since it gave its verdict
* `Fenced`: what holds at each event of a course

## Main results

* `Effect.row_cases`, `Effect.file_cases`: where a row comes from that a step leaves
* `Effect.settled_kept`, `Effect.covered`: a verdict stands, and a Script File stays covered
* `StageFacts.move`: a worker's statement takes it to where it should be next
* `Fenced.advance`: what an event has to be for the fence to hold after it
-/

namespace NetBoxScripts

namespace Workers

open Lifecycle (examineRevision_status)

/-! ## Steps -/

section Steps

/-- The step claims the revision. -/
def Claims (r : Id) (s s' : World) : Prop :=
  ∃ row job now, s.revisions.row r = some row ∧ Claimable row now ∧
    s'.revisions.row r = some (claimRevision row job now)

/-- The step gives the revision its verdict. -/
def Judges (r : Id) (s s' : World) : Prop :=
  ∃ row row', s.revisions.row r = some row ∧ s'.revisions.row r = some row' ∧
    row.status.settled = false ∧ row'.status.settled = true

/-- The step writes an outcome of the revision on the Script File. -/
def Writes (f r : Id) (s s' : World) : Prop :=
  ∃ file file', s.files.row f = some file ∧ s'.files.row f = some file' ∧
    outcomeOn file' ≠ outcomeOn file ∧ file'.lastDiscoveredRevision = some r

/-- `validation_started` -/
def started (s : World) (r : Id) : Option Time :=
  (s.revisions.row r).bind RevisionRow.validationStarted

/-- The validation of `q` started no earlier. -/
def NoEarlier (s : World) (r q : Id) : Prop :=
  ∃ a b, started s r = some a ∧ started s q = some b ∧ a ≤ b

/-- The Script File has an outcome of a validation that started no earlier. -/
def Covered (s : World) (f r : Id) : Prop :=
  ∃ file q, s.files.row f = some file ∧ file.lastDiscoveredRevision = some q ∧ NoEarlier s r q

/-- A revision with a verdict, and with the time its validation started. -/
def Settled (s : World) (r : Id) : Prop :=
  ∃ row, s.revisions.row r = some row ∧ row.status.settled = true ∧ row.validationStarted.isSome

/-- Every outcome is of a revision that has a verdict. -/
def Grounded (s : World) : Prop :=
  ∀ f file q, s.files.row f = some file → file.lastDiscoveredRevision = some q → Settled s q

/-- **What a step makes of the rows**, by a worker of `r` under this job, or by no worker. -/
inductive Effect (r job : Id) (s : World) : World → Prop
  | inert {s' : World} (h : Inert s s') : Effect r job s s'
  | claim {row : RevisionRow} {now : Time} (hrow : s.revisions.row r = some row)
      (h : Claimable row now) :
      Effect r job s (s.modifyRevision r fun row => claimRevision row job now)
  | revert {row : RevisionRow} {reason : PyStr} (hrow : s.revisions.row r = some row)
      (h : OwnedBy row job) :
      Effect r job s (s.modifyRevision r fun row => revertRevision row reason)
  | judge {row : RevisionRow} {verdict : Verdict} (hrow : s.revisions.row r = some row)
      (h : OwnedBy row job) (hverdict : verdict.status.settled = true) :
      Effect r job s (s.modifyRevision r fun row => finalizeRevision row verdict)
  | record {row : RevisionRow} {outcome : Outcome} {file : ScriptFileRow}
      (hfile : s.files.row outcome.1.scriptFile = some file)
      (h : Recordable s r row outcome file) (hsettled : Settled s r)
      (hstarted : started s r = row.validationStarted) : Effect r job s (recordOutcome s r outcome)

variable {s s' : World} {r q job job' f : Id} {row row' : RevisionRow} {file file' : ScriptFileRow}

theorem row_modifyRevision {change : RevisionRow → RevisionRow}
    (h : (s.modifyRevision r change).revisions.row q = some row) :
    s.revisions.row q = some row ∨
      q = r ∧ ∃ old, s.revisions.row q = some old ∧ row = change old := by
  obtain ⟨old, hold, rfl⟩ := Table.row_modify_eq_some h
  split_ifs with hq
  · exact .inr ⟨hq, old, hold, rfl⟩
  · exact .inl hold

/-- **Where a revision row comes from**: it was there, or was claimed, given back or judged. -/
theorem Effect.row_cases (h : Effect r job s s') (hrow : s'.revisions.row q = some row) :
    s.revisions.row q = some row ∨ q = r ∧ ∃ old, s.revisions.row q = some old ∧
      ((∃ now, Claimable old now ∧ row = claimRevision old job now) ∨
        OwnedBy old job ∧ ((∃ reason, row = revertRevision old reason) ∨ ∃ verdict : Verdict,
          verdict.status.settled = true ∧ row = finalizeRevision old verdict)) := by
  cases h with
  | inert h => exact .inl (h.revisions ▸ hrow)
  | @claim found now hfound hclaimable =>
    refine (row_modifyRevision hrow).imp_right fun ⟨hq, old, hold, heq⟩ => ?_
    subst hq
    obtain rfl := Option.some.inj (hfound.symm.trans hold)
    exact ⟨rfl, found, hold, .inl ⟨now, hclaimable, heq⟩⟩
  | @revert found reason hfound howned =>
    refine (row_modifyRevision hrow).imp_right fun ⟨hq, old, hold, heq⟩ => ?_
    subst hq
    obtain rfl := Option.some.inj (hfound.symm.trans hold)
    exact ⟨rfl, found, hold, .inr ⟨howned, .inl ⟨reason, heq⟩⟩⟩
  | @judge found verdict hfound howned hverdict =>
    refine (row_modifyRevision hrow).imp_right fun ⟨hq, old, hold, heq⟩ => ?_
    subst hq
    obtain rfl := Option.some.inj (hfound.symm.trans hold)
    exact ⟨rfl, found, hold, .inr ⟨howned, .inr ⟨verdict, hverdict, heq⟩⟩⟩
  | record => exact .inl hrow

/-- A revision row stays. -/
theorem Effect.row_stays (h : Effect r job s s') (hrow : s.revisions.row q = some row) :
    ∃ row', s'.revisions.row q = some row' := by
  have hmodify : ∀ change, ∃ row', (s.modifyRevision r change).revisions.row q = some row' := by
    intro change
    by_cases hq : q = r
    · subst hq
      exact ⟨change row, (Table.row_modify_self ..).trans (congrArg _ hrow)⟩
    · exact ⟨row, (Table.row_modify_of_ne hq).trans hrow⟩
  cases h with
  | inert h => exact ⟨row, h.revisions ▸ hrow⟩
  | claim => exact hmodify _
  | revert => exact hmodify _
  | judge => exact hmodify _
  | record => exact ⟨row, hrow⟩

theorem not_settled_of_claimable {now : Time} (h : Claimable row now) :
    row.status.settled = false := by
  rcases h with h | ⟨h, -⟩
  · rw [h]
    rfl
  · rw [h]
    rfl

theorem not_settled_of_ownedBy (h : OwnedBy row job) : row.status.settled = false := by
  rw [h.1]
  rfl

/-- **A verdict stands**. -/
theorem Effect.settled_kept (h : Effect r job s s') (hrow : s.revisions.row q = some row)
    (hsettled : row.status.settled = true) : s'.revisions.row q = some row := by
  obtain ⟨row', hrow'⟩ := h.row_stays hrow
  rcases h.row_cases hrow' with hold | ⟨-, old, hold, hchange⟩
  · rw [hrow', ← hold, hrow]
  · -- what is claimed, given back or judged has no verdict
    obtain rfl := Option.some.inj (hrow.symm.trans hold)
    have hunsettled : row.status.settled = false := by
      rcases hchange with ⟨now, hclaimable, -⟩ | ⟨howned, -⟩
      · exact not_settled_of_claimable hclaimable
      · exact not_settled_of_ownedBy howned
    rw [hsettled] at hunsettled
    cases hunsettled

theorem Effect.started_kept (h : Effect r job s s') (hsettled : Settled s q) :
    started s' q = started s q := by
  obtain ⟨row, hrow, hstatus, -⟩ := hsettled
  rw [started, started, hrow, h.settled_kept hrow hstatus]

theorem Effect.settled (h : Effect r job s s') (hsettled : Settled s q) : Settled s' q := by
  obtain ⟨row, hrow, hstatus, hstarted⟩ := hsettled
  exact ⟨row, h.settled_kept hrow hstatus, hstatus, hstarted⟩

/-- What another worker owns is as it was. -/
theorem Effect.owned_back (h : Effect r job s s') (hne : job' ≠ job)
    (hrow : s'.revisions.row q = some row) (howned : OwnedBy row job') :
    s.revisions.row q = some row := by
  rcases h.row_cases hrow with
    hold | ⟨-, old, -, ⟨now, -, rfl⟩ | ⟨hown, ⟨reason, rfl⟩ | ⟨verdict, -, rfl⟩⟩⟩
  · exact hold
  · exact absurd (Option.some.inj howned.2).symm hne
  · exact absurd howned (revertRevision_not_ownedBy old reason job')
  · exact absurd (Option.some.inj (howned.2.symm.trans hown.2)) hne

/-- A claim writes the row. -/
theorem Claims.changed (h : Claims q s s') : s'.revisions.row q ≠ s.revisions.row q := by
  obtain ⟨row, job, now, hrow, hclaimable, hrow'⟩ := h
  intro heq
  rw [hrow, hrow'] at heq
  have hsame : claimRevision row job now = row := Option.some.inj heq
  rcases hclaimable with hstatus | ⟨-, begun, hbegun, hlt⟩
  · rw [← hsame] at hstatus
    cases hstatus
  · -- a lease that expired before `now` did not start at it
    rw [← hsame] at hbegun
    obtain rfl : now = begun := Option.some.inj hbegun
    exact absurd hlt (Nat.not_lt.mpr (Nat.le_add_right _ _))

theorem Inert.not_claims (h : Inert s s') : ¬ Claims q s s' := fun hclaims =>
  hclaims.changed (by rw [h.revisions])

/-- **A verdict is given** by a worker of the revision that owns it. -/
theorem Effect.judges (h : Effect r job s s') (hjudges : Judges q s s') :
    q = r ∧ ∃ old verdict, s.revisions.row q = some old ∧ OwnedBy old job ∧
      s'.revisions.row q = some (finalizeRevision old verdict) := by
  obtain ⟨row, row', hrow, hrow', hbefore, hafter⟩ := hjudges
  rcases h.row_cases hrow' with
    hold | ⟨hq, old, hold, ⟨now, -, rfl⟩ | ⟨hown, ⟨reason, rfl⟩ | ⟨verdict, -, rfl⟩⟩⟩
  · obtain rfl := Option.some.inj (hrow.symm.trans hold)
    rw [hbefore] at hafter
    cases hafter
  · cases hafter
  · cases hafter
  · exact ⟨hq, old, verdict, hold, hown, hrow'⟩

theorem not_judges_of_eq (h : s'.revisions = s.revisions) : ¬ Judges q s s' := by
  rintro ⟨row, row', hrow, hrow', hbefore, hafter⟩
  rw [h, hrow] at hrow'
  obtain rfl := Option.some.inj hrow'
  rw [hbefore] at hafter
  cases hafter

/-- **A claim** is by a worker of the revision, under its job. -/
theorem Effect.claims (h : Effect r job s s') (hclaims : Claims q s s') :
    q = r ∧ ∃ row now, s.revisions.row q = some row ∧ Claimable row now ∧
      s'.revisions.row q = some (claimRevision row job now) := by
  have hchanged := hclaims.changed
  obtain ⟨row, job', now', hrow, hclaimable, hrow'⟩ := hclaims
  rcases h.row_cases hrow' with
    hold | ⟨hq, old, hold, ⟨now, hclaimable', heq⟩ | ⟨-, ⟨reason, heq⟩ | ⟨verdict, hverdict, heq⟩⟩⟩
  · rw [hrow', hold] at hchanged
    exact absurd rfl hchanged
  · exact ⟨hq, old, now, hold, hclaimable', heq ▸ hrow'⟩
  -- what is given back or judged is not validating
  · have hstatus := congrArg RevisionRow.status heq
    cases hstatus
  · have hstatus : RevisionStatus.validating = verdict.status := congrArg RevisionRow.status heq
    rw [← hstatus] at hverdict
    cases hverdict

theorem row_recordOutcome {outcome : Outcome}
    (hfile : s.files.row outcome.1.scriptFile = some file) :
    ∃ file', (recordOutcome s r outcome).files.row outcome.1.scriptFile = some file' ∧
      file'.lastDiscoveredRevision = some r :=
  ⟨_, (Table.row_modify_self ..).trans (congrArg _ hfile), rfl⟩

/-- **Where a Script File row goes**: it keeps its outcome, or records one of `r`. -/
theorem Effect.file_cases (h : Effect r job s s') (hfile : s.files.row f = some file) :
    ∃ file', s'.files.row f = some file' ∧ (SameFile file file' ∨
      Settled s r ∧ ∃ row outcome, f = outcome.1.scriptFile ∧ Recordable s r row outcome file ∧
        started s r = row.validationStarted ∧ file' = { file with
          discoveryStatus := outcome.2.1
          discoveryError := outcome.2.2
          lastDiscoveredRevision := some r }) := by
  cases h with
  | inert h =>
    obtain ⟨file', hfile', hsame⟩ := h.kept f file hfile
    exact ⟨file', hfile', .inl hsame⟩
  | claim => exact ⟨file, hfile, .inl (.refl file)⟩
  | revert => exact ⟨file, hfile, .inl (.refl file)⟩
  | judge => exact ⟨file, hfile, .inl (.refl file)⟩
  | @record row outcome found hfound hrecordable hsettled hstarted =>
    by_cases hf : f = outcome.1.scriptFile
    · subst hf
      obtain rfl := Option.some.inj (hfound.symm.trans hfile)
      exact ⟨_, (Table.row_modify_self ..).trans (congrArg _ hfound),
        .inr ⟨hsettled, row, outcome, rfl, hrecordable, hstarted, rfl⟩⟩
    · exact ⟨file, (Table.row_modify_of_ne hf).trans hfile, .inl (.refl file)⟩

/-- A Script File row that is new has no outcome. -/
theorem Effect.file_new (h : Effect r job s s') (hnone : s.files.row f = none)
    (hfile : s'.files.row f = some file) : file.lastDiscoveredRevision = none := by
  cases h with
  | inert h => exact h.new f file hnone hfile
  | record =>
    obtain ⟨old, hold, -⟩ := Table.row_modify_eq_some hfile
    rw [hnone] at hold
    cases hold
  | claim | revert | judge =>
    have hfile' : s.files.row f = some file := hfile
    rw [hnone] at hfile'
    cases hfile'

/-- **A step** keeps every outcome one of a revision with a verdict. -/
theorem Effect.grounded (h : Effect r job s s') (hgrounded : Grounded s) : Grounded s' := by
  intro f file' q hfile' hlast
  cases hfile : s.files.row f with
  | none =>
    rw [h.file_new hfile hfile'] at hlast
    cases hlast
  | some file =>
    obtain ⟨file'', hfile'', hcases⟩ := h.file_cases hfile
    obtain rfl := Option.some.inj (hfile'.symm.trans hfile'')
    rcases hcases with hsame | ⟨hsettled, row, outcome, -, -, -, rfl⟩
    · have hlast' : file.lastDiscoveredRevision = some q :=
        (congrArg (fun outcome => outcome.2.2) hsame.outcome).symm.trans hlast
      exact h.settled (hgrounded f file q hfile hlast')
    · obtain rfl := Option.some.inj hlast
      exact h.settled hsettled

/-- **A Script File stays covered**: only a validation that started later writes over an outcome. -/
theorem Effect.covered (h : Effect r job s s') (hgrounded : Grounded s) (hsettled : Settled s q)
    (hcovered : Covered s f q) : Covered s' f q := by
  obtain ⟨file, p, hfile, hlast, a, b, ha, hb, hle⟩ := hcovered
  obtain ⟨file', hfile', hcases⟩ := h.file_cases hfile
  have hp := hgrounded f file p hfile hlast
  rcases hcases with hsame | ⟨hr, row, outcome, -, hrecordable, hstarted, rfl⟩
  · refine ⟨file', p, hfile', (congrArg (fun outcome => outcome.2.2) hsame.outcome).trans hlast,
      a, b, ?_, ?_, hle⟩
    · rw [h.started_kept hsettled, ha]
    · rw [h.started_kept hp, hb]
  · refine ⟨_, r, hfile', rfl, ?_⟩
    have hnewer := hrecordable.1
    unfold World.outcomeIsNewer at hnewer
    rw [hlast] at hnewer
    simp only [Bool.or_eq_true, beq_iff_eq] at hnewer
    -- the row had this revision's own outcome, or one of a validation that started earlier
    rcases hnewer with rfl | hnewer
    · refine ⟨a, b, ?_, ?_, hle⟩
      · rw [h.started_kept hsettled, ha]
      · rw [h.started_kept hp, hb]
    · obtain ⟨b', hb', hnewer⟩ := (Option.any_eq_true ..).mp hnewer
      obtain ⟨c, hc, hlt⟩ := (Option.any_eq_true ..).mp hnewer
      obtain rfl : b' = b := Option.some.inj (hb'.symm.trans hb)
      refine ⟨a, c, ?_, ?_, hle.trans (of_decide_eq_true hlt).le⟩
      · rw [h.started_kept hsettled, ha]
      · rw [h.started_kept hr, hstarted, hc]

theorem not_judges_modifyRevision {change : RevisionRow → RevisionRow}
    (h : ∀ row, (change row).status.settled = false) :
    ¬ Judges q s (s.modifyRevision r change) := by
  rintro ⟨row, row', hrow, hrow', hbefore, hafter⟩
  rcases row_modifyRevision hrow' with hold | ⟨-, old, -, rfl⟩
  · obtain rfl := Option.some.inj (hrow.symm.trans hold)
    rw [hbefore] at hafter
    cases hafter
  · rw [h old] at hafter
    cases hafter

/-- An outcome that is not recorded is of a revision whose validation started earlier than that of
the outcome there. -/
theorem covered_of_not_recordable {outcome : Outcome} (hgrounded : Grounded s)
    (hsettled : Settled s r) (hstarted : started s r = row.validationStarted)
    (hfile : s.files.row outcome.1.scriptFile = some file) (hproject : file.project = row.project)
    (hpath : file.sourcePath = outcome.1.sourcePath) (h : ¬ Recordable s r row outcome file) :
    Covered s outcome.1.scriptFile r := by
  have hnewer : ¬ s.outcomeIsNewer file r row.validationStarted = true :=
    fun hnewer => h ⟨hnewer, hproject, hpath⟩
  unfold World.outcomeIsNewer at hnewer
  split at hnewer
  · exact absurd rfl hnewer
  · next q hlast =>
    obtain ⟨other, hother, -, hsome⟩ := hgrounded _ _ _ hfile hlast
    obtain ⟨b, hb⟩ := Option.isSome_iff_exists.mp hsome
    obtain ⟨own, hown, -, hsome'⟩ := hsettled
    obtain ⟨a, ha⟩ := Option.isSome_iff_exists.mp hsome'
    have hr : started s r = some a := by rw [started, hown, Option.bind_some, ha]
    have hq : started s q = some b := by rw [started, hother, Option.bind_some, hb]
    refine ⟨file, q, hfile, hlast, a, b, hr, hq, ?_⟩
    rw [hother, Option.bind_some, hb, ← hstarted, hr] at hnewer
    simp only [Bool.or_eq_true, beq_iff_eq, Option.any_some, decide_eq_true_eq, not_or] at hnewer
    exact Nat.not_lt.mp hnewer.2

end Steps

/-! ## Courses -/

section Courses

variable {Cls : Type} [DecidableEq Cls] [Unicode] [Hashing] {jobOf : ThreadId → Id}

/-- Each worker has a job of its own. -/
def OwnJob (jobOf : ThreadId → Id) (pool : Pool World Choice Failure (Work Cls))
    (event : Event Choice (Work Cls)) : Prop :=
  ∀ env r job, event = .spawn (.validate env r job) → job = jobOf pool.next

/-- A course of workers and saves. -/
abbrev Shift (Cls : Type) [DecidableEq Cls] (jobOf : ThreadId → Id) :=
  Course (workers : System World Choice Failure (Work Cls)) (OwnJob jobOf)

variable (course : Shift Cls jobOf) (n : ℕ) (t : ThreadId)

/-- The thread claims the revision at an event. -/
def ClaimedAt (i : ℕ) (r : Id) : Prop :=
  course.By t i ∧ Claims r (course.world i) (course.world (i + 1))

/-- The thread gives the revision its verdict at an event. -/
def JudgedAt (i : ℕ) (r : Id) : Prop :=
  course.By t i ∧ Judges r (course.world i) (course.world (i + 1))

/-- The thread has claimed nothing so far. -/
def Unclaimed : Prop := ∀ i < n, ∀ r, ¬ ClaimedAt course t i r

/-- The thread has given no verdict so far. -/
def Unjudged : Prop := ∀ i < n, ∀ r, ¬ JudgedAt course t i r

/-- **What a worker has done** since it gave its verdict at event `k`: each of these outcomes is on
its Script File, or one of a validation that started no earlier. -/
structure Gave (env : ValidationEnv Cls) (r : Id) (row : RevisionRow) (verdict : Verdict) (k : ℕ)
    (recorded : List Outcome) : Prop where
  lt : k < n
  only : ∀ i < n, ∀ q, JudgedAt course t i q → i = k ∧ q = r
  acted : course.By t k
  worker : ∃ prog, (course.pool k).thread t = some ⟨.validate env r (jobOf t), prog⟩
  before : (course.world k).revisions.row r = some row
  given : (course.world (k + 1)).revisions.row r = some (finalizeRevision row verdict)
  examined : examineRevision env row = .verdict verdict
  owned : OwnedBy row (jobOf t)
  isSome_started : row.validationStarted.isSome
  after : (course.world n).revisions.row r = some (finalizeRevision row verdict)
  kept : ∀ f file, (course.world k).files.row f = some file → ∃ file',
    (course.world n).files.row f = some file' ∧ file'.project = file.project ∧
      file'.sourcePath = file.sourcePath
  covered : ∀ outcome ∈ recorded, ∀ file,
    (course.world k).files.row outcome.1.scriptFile = some file → file.project = row.project →
      file.sourcePath = outcome.1.sourcePath →
      Covered (course.world n) outcome.1.scriptFile r

/-- What holds of a worker at a stage. -/
def StageFacts (env : ValidationEnv Cls) (r : Id) : Stage → Prop
  | .fresh | .timed _ => Unclaimed course n t ∧ Unjudged course n t
  | .claimed | .reverting _ _ => Unjudged course n t
  | .judging row verdict => Unjudged course n t ∧ examineRevision env row = .verdict verdict ∧
    ∀ current, (course.world n).revisions.row r = some current → OwnedBy current (jobOf t) →
      current = row
  | .persisting row verdict outcome rest => ∃ recorded k,
    verdict.persisted = recorded ++ outcome :: rest ∧
      Gave course n t env r row verdict k recorded
  | .closing | .ended (.ok _) => Unjudged course n t ∨
    ∃ row verdict k, Gave course n t env r row verdict k verdict.persisted
  | .ended (.error _) => True

/-- What holds of a thread. -/
def Follows (th : Thread World Choice Failure (Work Cls)) : Prop :=
  match th.op with
  | .validate env r job => job = jobOf t ∧
    ∃ stage : Stage, th.prog = stage.prog env r job ∧ StageFacts course n t env r stage
  | .save _ => th.prog.EachStep (fun _ => Inert) ∧ Unclaimed course n t

/-- **What holds at each event**: every thread is where it should be, a row that is claimed under a
worker's job was claimed by it last, and a worker claims once. -/
structure Fenced : Prop where
  lt : ∀ t th, (course.pool n).thread t = some th → t < (course.pool n).next
  by_lt : ∀ i < n, ∀ t, course.By t i → t < (course.pool n).next
  follows : ∀ t th, (course.pool n).thread t = some th → Follows course n t th
  latest : ∀ r row t, (course.world n).revisions.row r = some row →
    row.validationJob = some (jobOf t) → row.validationStarted.isSome ∧
      ∃ i < n, ClaimedAt course t i r ∧
        (∀ j, i < j → j < n → ¬ Claims r (course.world j) (course.world (j + 1))) ∧
        (OwnedBy row (jobOf t) → (course.world (i + 1)).revisions.row r = some row)
  once : ∀ i < n, ∀ j < n, ∀ t q r, ClaimedAt course t i q → ClaimedAt course t j r → i = j
  grounded : Grounded (course.world n)

variable {course n t} {env : ValidationEnv Cls} {r job : Id} {stage stage' : Stage}
  {th : Thread World Choice Failure (Work Cls)}

theorem by_unique {u : ThreadId} {i : ℕ} (h : course.By t i) (h' : course.By u i) : t = u := by
  obtain ⟨c, hc⟩ := h
  obtain ⟨c', hc'⟩ := h'
  cases hc.symm.trans hc'
  rfl

theorem Unclaimed.next (h : Unclaimed course n t) (hnot : ∀ r, ¬ ClaimedAt course t n r) :
    Unclaimed course (n + 1) t := by
  intro i hi
  rcases Nat.lt_succ_iff_lt_or_eq.mp hi with hlt | rfl
  · exact h i hlt
  · exact hnot

theorem Unjudged.next (h : Unjudged course n t) (hnot : ∀ r, ¬ JudgedAt course t n r) :
    Unjudged course (n + 1) t := by
  intro i hi
  rcases Nat.lt_succ_iff_lt_or_eq.mp hi with hlt | rfl
  · exact h i hlt
  · exact hnot

theorem settled_of_examined {row : RevisionRow} {verdict : Verdict}
    (h : examineRevision env row = .verdict verdict) : verdict.status.settled = true := by
  rcases examineRevision_status h with hv | hv
  · rw [hv]
    rfl
  · rw [hv]
    rfl

section Recording

variable {row : RevisionRow} {verdict : Verdict} {k : ℕ} {recorded : List Outcome}

theorem Gave.settled (h : Gave course n t env r row verdict k recorded) :
    Settled (course.world n) r ∧ started (course.world n) r = row.validationStarted :=
  ⟨⟨_, h.after, settled_of_examined h.examined, h.isSome_started⟩, by rw [started, h.after]; rfl⟩

/-- One outcome more. -/
theorem Gave.record {outcome : Outcome} (h : Gave course n t env r row verdict k recorded)
    (hcovered : ∀ file, (course.world k).files.row outcome.1.scriptFile = some file →
      file.project = row.project → file.sourcePath = outcome.1.sourcePath →
      Covered (course.world n) outcome.1.scriptFile r) :
    Gave course n t env r row verdict k (recorded ++ [outcome]) :=
  { h with
    covered := fun other hother => by
      rcases List.mem_append.mp hother with hother | hother
      · exact h.covered other hother
      · exact List.mem_singleton.mp hother ▸ hcovered }

/-- **What was recorded stays so**, where the worker gives no second verdict. -/
theorem Gave.next {q job' : Id} (h : Gave course n t env r row verdict k recorded)
    (heffect : Effect q job' (course.world n) (course.world (n + 1)))
    (hgrounded : Grounded (course.world n)) (hnot : ∀ p, ¬ JudgedAt course t n p) :
    Gave course (n + 1) t env r row verdict k recorded := by
  have hstatus : (finalizeRevision row verdict).status.settled = true :=
    settled_of_examined h.examined
  refine ⟨Nat.lt_succ_of_lt h.lt, fun i hi p hjudged => ?_, h.acted, h.worker, h.before,
    h.given, h.examined, h.owned, h.isSome_started, heffect.settled_kept h.after hstatus,
    fun f file hfile => ?_, fun outcome houtcome file hfile => ?_⟩
  · rcases Nat.lt_succ_iff_lt_or_eq.mp hi with hlt | rfl
    · exact h.only i hlt p hjudged
    · exact absurd hjudged (hnot p)
  · obtain ⟨file', hfile', hproject, hpath⟩ := h.kept f file hfile
    obtain ⟨file'', hfile'', hcases⟩ := heffect.file_cases hfile'
    refine ⟨file'', hfile'', ?_⟩
    rcases hcases with hsame | ⟨-, _, _, -, -, -, rfl⟩
    · exact ⟨hsame.project.trans hproject, hsame.sourcePath.trans hpath⟩
    · exact ⟨hproject, hpath⟩
  · intro hproject hpath
    exact heffect.covered hgrounded h.settled.1
      (h.covered outcome houtcome file hfile hproject hpath)

/-- The stage with these outcomes left. -/
theorem Gave.stageFacts {rest : List Outcome} (h : Gave course n t env r row verdict k recorded)
    (hsplit : verdict.persisted = recorded ++ rest) :
    StageFacts course n t env r (persistStage row verdict rest) := by
  cases rest with
  | nil =>
    rw [List.append_nil] at hsplit
    exact .inr ⟨row, verdict, k, hsplit ▸ h⟩
  | cons outcome rest =>
    unfold persistStage
    dsimp only
    split_ifs
    · exact ⟨recorded, k, hsplit, h⟩
    · trivial

end Recording

/-- **What others do** leaves a worker where it is. -/
theorem StageFacts.other {q job' : Id} (h : StageFacts course n t env r stage)
    (heffect : Effect q job' (course.world n) (course.world (n + 1)))
    (hgrounded : Grounded (course.world n)) (hby : ¬ course.By t n) (hjob : jobOf t ≠ job') :
    StageFacts course (n + 1) t env r stage := by
  have hclaimed : ∀ p, ¬ ClaimedAt course t n p := fun p h => hby h.1
  have hjudged : ∀ p, ¬ JudgedAt course t n p := fun p h => hby h.1
  cases stage with
  | fresh => exact ⟨h.1.next hclaimed, h.2.next hjudged⟩
  | timed now => exact ⟨h.1.next hclaimed, h.2.next hjudged⟩
  | claimed => exact Unjudged.next h hjudged
  | reverting reason failure => exact Unjudged.next h hjudged
  | judging row verdict =>
    -- a row that is still the worker's own is still the one it read
    obtain ⟨hunjudged, hexamined, hcurrent⟩ := h
    refine ⟨hunjudged.next hjudged, hexamined, fun current hrow howned => ?_⟩
    exact hcurrent current (heffect.owned_back hjob hrow howned) howned
  | persisting row verdict outcome rest =>
    obtain ⟨recorded, k, hsplit, hgave⟩ := h
    exact ⟨recorded, k, hsplit, hgave.next heffect hgrounded hjudged⟩
  | closing =>
    refine Or.imp (fun h => Unjudged.next h hjudged) ?_ h
    rintro ⟨row, verdict, k, hgave⟩
    exact ⟨row, verdict, k, hgave.next heffect hgrounded hjudged⟩
  | ended result =>
    cases result with
    | ok u =>
      refine Or.imp (fun h => Unjudged.next h hjudged) ?_ h
      rintro ⟨row, verdict, k, hgave⟩
      exact ⟨row, verdict, k, hgave.next heffect hgrounded hjudged⟩
    | error failure => trivial

theorem Follows.other {q job' : Id} (h : Follows course n t th)
    (heffect : Effect q job' (course.world n) (course.world (n + 1)))
    (hgrounded : Grounded (course.world n)) (hby : ¬ course.By t n) (hjob : jobOf t ≠ job') :
    Follows course (n + 1) t th := by
  obtain ⟨op, prog⟩ := th
  cases op with
  | validate env r job =>
    obtain ⟨hown, stage, hprog, hfacts⟩ := h
    exact ⟨hown, stage, hprog, hfacts.other heffect hgrounded hby hjob⟩
  | save file => exact ⟨h.1, h.2.next fun p h => hby h.1⟩

/-- The stage after the row was read. -/
theorem stageFacts_readStage {row : RevisionRow} (h : Unjudged course n t)
    (hrow : (course.world n).revisions.row r = some row) :
    StageFacts course n t env r (readStage env row) := by
  have hrevert : ∀ reason failure, StageFacts course n t env r (revertStage reason failure) := by
    intro reason failure
    unfold revertStage
    split_ifs
    · exact h
    · trivial
  unfold readStage
  split
  · trivial
  · exact hrevert _ _
  · exact hrevert _ _
  · next verdict hexamined =>
    split_ifs
    · refine ⟨h, hexamined, fun current hcurrent _ => ?_⟩
      exact Option.some.inj (hcurrent.symm.trans hrow)
    · trivial

/-- **What a worker does** takes it to where it should be next. -/
theorem StageFacts.move {s s' : World} (h : Fenced course n)
    (hfacts : StageFacts course n t env r stage) (hby : course.By t n)
    (hthread : ∃ prog, (course.pool n).thread t = some ⟨.validate env r (jobOf t), prog⟩)
    (hmove : Move env r (jobOf t) stage s stage' s') (hs : course.world n = s)
    (hs' : course.world (n + 1) = s') :
    Effect r (jobOf t) s s' ∧ StageFacts course (n + 1) t env r stage' := by
  have hgrounded := h.grounded
  rw [hs] at hgrounded
  -- a step that writes no revision
  have hstill : s'.revisions = s.revisions →
      (∀ q, ¬ ClaimedAt course t n q) ∧ ∀ q, ¬ JudgedAt course t n q := by
    intro heq
    refine ⟨fun q hclaimed => ?_, fun q hjudged => ?_⟩
    · have hclaims := hclaimed.2
      rw [hs, hs'] at hclaims
      exact hclaims.changed (by rw [heq])
    · have hjudges := hjudged.2
      rw [hs, hs'] at hjudges
      exact not_judges_of_eq heq hjudges
  have hnext : ∀ {row verdict k recorded}, Effect r (jobOf t) s s' → s'.revisions = s.revisions →
      Gave course n t env r row verdict k recorded →
      Gave course (n + 1) t env r row verdict k recorded := by
    intro row verdict k recorded heffect heq hgave
    exact hgave.next (hs ▸ hs' ▸ heffect) h.grounded (hstill heq).2
  cases hmove with
  | time =>
    obtain ⟨hclaimed, hjudged⟩ := hstill rfl
    exact ⟨.inert (.of_eq rfl rfl), hfacts.1.next hclaimed, hfacts.2.next hjudged⟩
  | claim hrow hclaimable =>
    refine ⟨.claim hrow hclaimable, hfacts.2.next fun q hjudged => ?_⟩
    have hjudges := hjudged.2
    rw [hs, hs'] at hjudges
    exact not_judges_modifyRevision (fun _ => rfl) hjudges
  | refused => exact ⟨.inert (.of_eq rfl rfl), trivial⟩
  | read hrow =>
    refine ⟨.inert (.of_eq rfl rfl), stageFacts_readStage (Unjudged.next hfacts (hstill rfl).2) ?_⟩
    rw [hs', hrow]
  | gone => exact ⟨.inert (.of_eq rfl rfl), trivial⟩
  | revert hrow howned => exact ⟨.revert hrow howned, trivial⟩
  | kept => exact ⟨.inert (.of_eq rfl rfl), trivial⟩
  | @judge _ row current verdict hrow howned =>
    obtain ⟨hunjudged, hexamined, hcurrent⟩ := hfacts
    obtain rfl : current = row := hcurrent current (hs ▸ hrow) howned
    -- the fence let the verdict through, so the row is the one it was computed from
    have heffect := Effect.judge hrow howned (settled_of_examined hexamined)
    suffices hgave : Gave course (n + 1) t env r current verdict n [] from
      ⟨heffect, hgave.stageFacts rfl⟩
    have hafter : (course.world (n + 1)).revisions.row r =
        some (finalizeRevision current verdict) := by
      rw [hs']
      exact (Table.row_modify_self ..).trans (congrArg _ hrow)
    refine ⟨Nat.lt_succ_self n, fun i hi q hjudged => ?_, hby, hthread, hs ▸ hrow, hafter,
      hexamined, howned, ?_, hafter, ?_, fun _ houtcome => by cases houtcome⟩
    · rcases Nat.lt_succ_iff_lt_or_eq.mp hi with hlt | rfl
      · exact absurd hjudged (hunjudged i hlt q)
      · have hjudges := hjudged.2
        rw [hs, hs'] at hjudges
        exact ⟨rfl, (heffect.judges hjudges).1⟩
    · exact (h.latest r current t (hs ▸ hrow) howned.2).1
    · intro f file hfile
      rw [hs] at hfile
      exact ⟨file, hs' ▸ hfile, rfl, rfl⟩
  | lost => exact ⟨.inert (.of_eq rfl rfl), .inl (hfacts.1.next (hstill rfl).2)⟩
  | @record _ row verdict outcome rest file hfile hrecordable =>
    obtain ⟨recorded, k, hsplit, hgave⟩ := hfacts
    obtain ⟨hsettled, hstarted⟩ := hgave.settled
    rw [hs] at hsettled hstarted
    have heffect : Effect r (jobOf t) s (recordOutcome s r outcome) :=
      .record hfile hrecordable hsettled hstarted
    refine ⟨heffect, ((hnext heffect rfl hgave).record ?_).stageFacts (by simpa using hsplit)⟩
    obtain ⟨a, ha⟩ := Option.isSome_iff_exists.mp hgave.isSome_started
    have hown : started (course.world (n + 1)) r = some a := by
      rw [hs', heffect.started_kept hsettled, hstarted, ha]
    obtain ⟨file', hfile', hlast⟩ := row_recordOutcome (r := r) hfile
    exact fun _ _ _ _ => ⟨file', r, hs' ▸ hfile', hlast, a, a, hown, hown, Nat.le_refl a⟩
  | @skip _ row verdict outcome rest hskip =>
    obtain ⟨recorded, k, hsplit, hgave⟩ := hfacts
    have heffect : Effect r (jobOf t) s s := .inert (.of_eq rfl rfl)
    -- an outcome left out is older than the one there, or the row is not the snapshot's
    have hlater := hnext heffect rfl hgave
    refine ⟨heffect, (hlater.record ?_).stageFacts (by simpa using hsplit)⟩
    intro file hfile hproject hpath
    obtain ⟨file', hfile', hproject', hpath'⟩ := hlater.kept _ file hfile
    obtain ⟨hsettled, hstarted⟩ := hlater.settled
    rw [hs'] at hfile' hsettled hstarted ⊢
    exact covered_of_not_recordable hgrounded hsettled hstarted hfile' (hproject'.trans hproject)
      (hpath'.trans hpath) (hskip file' hfile')
  | @close _ result =>
    refine ⟨.inert (.of_eq rfl rfl), ?_⟩
    cases result with
    | error failure => trivial
    | ok u =>
      refine Or.imp (fun hunjudged => Unjudged.next hunjudged (hstill rfl).2) ?_ hfacts
      rintro ⟨row, verdict, k, hgave⟩
      exact ⟨row, verdict, k, hnext (.inert (.of_eq rfl rfl)) rfl hgave⟩

/-- What a step has to be for the next event. A claim is by a thread that has claimed nothing. -/
structure Advances (course : Shift Cls jobOf) (n : ℕ) (r job : Id) : Prop where
  effect : Effect r job (course.world n) (course.world (n + 1))
  claimer : ∀ q, Claims q (course.world n) (course.world (n + 1)) →
    ∃ t, course.By t n ∧ job = jobOf t ∧ Unclaimed course n t
  next_le : (course.pool n).next ≤ (course.pool (n + 1)).next
  by_lt : ∀ t, course.By t n → t < (course.pool n).next
  thread : ∀ t th, (course.pool (n + 1)).thread t = some th →
    t < (course.pool (n + 1)).next ∧ Follows course (n + 1) t th

theorem Fenced.advance (hinjective : Function.Injective jobOf) (h : Fenced course n)
    (hstep : Advances course n r job) : Fenced course (n + 1) where
  lt t th hth := (hstep.thread t th hth).1
  by_lt i hi t hby := by
    rcases Nat.lt_succ_iff_lt_or_eq.mp hi with hlt | rfl
    · exact (h.by_lt i hlt t hby).trans_le hstep.next_le
    · exact (hstep.by_lt t hby).trans_le hstep.next_le
  follows t th hth := (hstep.thread t th hth).2
  latest q row t hrow hjob := by
    -- what the row was before tells who claimed it last
    have hearlier : ∀ old, (course.world n).revisions.row q = some old →
        old.validationJob = some (jobOf t) → ¬ Claims q (course.world n) (course.world (n + 1)) →
        (OwnedBy row (jobOf t) → row = old) → row.validationStarted = old.validationStarted →
        row.validationStarted.isSome ∧ ∃ i < n + 1, ClaimedAt course t i q ∧
          (∀ j, i < j → j < n + 1 → ¬ Claims q (course.world j) (course.world (j + 1))) ∧
          (OwnedBy row (jobOf t) → (course.world (i + 1)).revisions.row q = some row) := by
      intro old hold hjob hnot hsame hstarted
      obtain ⟨hsome, i, hi, hclaimed, hlast, hrow⟩ := h.latest q old t hold hjob
      refine ⟨hstarted ▸ hsome, i, Nat.lt_succ_of_lt hi, hclaimed, fun j hij hj => ?_, ?_⟩
      · rcases Nat.lt_succ_iff_lt_or_eq.mp hj with hlt | rfl
        · exact hlast j hij hlt
        · exact hnot
      · intro howned
        obtain rfl := hsame howned
        exact hrow howned
    rcases hstep.effect.row_cases hrow with
      hold | ⟨-, old, hold, ⟨now, hclaimable, rfl⟩ | ⟨howned, ⟨reason, rfl⟩ |
        ⟨verdict, hverdict, rfl⟩⟩⟩
    · exact hearlier row hold hjob (fun hclaims => hclaims.changed (hrow.trans hold.symm))
        (fun _ => rfl) rfl
    · have hclaims : Claims q (course.world n) (course.world (n + 1)) :=
        ⟨old, job, now, hold, hclaimable, hrow⟩
      obtain ⟨u, hby, hown, -⟩ := hstep.claimer q hclaims
      have hsame : jobOf t = jobOf u := (Option.some.inj hjob).symm.trans hown
      obtain rfl := hinjective hsame
      refine ⟨rfl, n, Nat.lt_succ_self n, ⟨hby, hclaims⟩, fun j hj hj' => ?_, fun _ => hrow⟩
      omega
    · cases hjob
    · refine hearlier old hold hjob (fun hclaims => ?_) (fun hown => ?_) rfl
      · obtain ⟨-, other, now, -, -, hother⟩ := hstep.effect.claims hclaims
        have hstatus := congrArg RevisionRow.status (Option.some.inj (hrow.symm.trans hother))
        have hvalidating : verdict.status = .validating := hstatus
        rw [hvalidating] at hverdict
        cases hverdict
      · have hvalidating : verdict.status = .validating := hown.1
        rw [hvalidating] at hverdict
        cases hverdict
  once i hi j hj t p q hp hq := by
    have hnew : ∀ i < n, ∀ p q, ClaimedAt course t i p → ¬ ClaimedAt course t n q := by
      intro i hi p q hp hq
      obtain ⟨u, hby, -, hunclaimed⟩ := hstep.claimer q hq.2
      obtain rfl := by_unique hq.1 hby
      exact hunclaimed i hi p hp
    rcases Nat.lt_succ_iff_lt_or_eq.mp hi with hi | rfl
    · rcases Nat.lt_succ_iff_lt_or_eq.mp hj with hj | rfl
      · exact h.once i hi j hj t p q hp hq
      · exact absurd hq (hnew i hi p q hp)
    · rcases Nat.lt_succ_iff_lt_or_eq.mp hj with hj | rfl
      · exact absurd hp (hnew j hj q p hq)
      · rfl
  grounded := hstep.effect.grounded h.grounded

end Courses

end Workers

end NetBoxScripts
