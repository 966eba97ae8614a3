import NetBoxScripts.Concurrency.Table
import NetBoxScripts.Models.Rows
import NetBoxScripts.Python.Json

/-!
# Recreating schedules

`recreate_schedules` (`references.py`) goes over the captured schedules until a pass leaves none
outstanding. A pass can die anywhere; a new Job and the record of it commit together.

## Main definitions

* `examine`: the exits of the loop, in their order
* `ScheduleState.attempt`: one pass, as far as it lives
* `SkipReason`: why a schedule is not recreated, and whether a later pass is to try again

## Main results

* `Books.apply`: every new Job is recorded for one captured schedule
* `Passed.apply`: what the loop has said of the schedules it has examined
* `every_schedule_settled`: when the step is recorded each schedule has a recorded Job or a
  warning
-/

namespace NetBoxScripts

/-! ## The journal and the new Jobs -/

/-- What the journal holds of one schedule. -/
structure CapturedSchedule where
  jobPk : Id
  legacyScriptPk : Id
  legacyObjectType : PyStr
  name : PyStr
  data : Json
  dropped : List PyStr
  commit : Bool
  scheduled : Option PyStr
  interval : Option ℕ
  queueName : PyStr
  jobTimeout : Option ℕ
  notifications : PyStr
  userPk : Option Id
  cancellation : Option PyStr

/-- A Job that `enqueue_run` makes. -/
structure ReplacementJob where
  script : Id
  data : Json
  commit : Bool
  user : Option Id
  scheduleAt : Option PyStr
  interval : Option ℕ
  notifications : PyStr
  queueName : PyStr
  jobTimeout : Option ℕ

/-- A Job that replaces a schedule runs as the schedule did. -/
def ReplacementJob.MadeFor (job : ReplacementJob) (entry : CapturedSchedule) : Prop :=
  job.interval = entry.interval ∧ job.notifications = entry.notifications ∧
    job.queueName = entry.queueName ∧ job.jobTimeout = entry.jobTimeout

/-- The Script that a schedule ran resolves to. -/
structure ScheduleScript where
  pk : Id
  text : PyStr

/-- A user as the pass meets it. -/
structure ScheduleUser where
  text : PyStr
  isActive : Bool

/-- What `_recreate` does. A queue that fails in the commit hook leaves the Job and the record. -/
inductive RecreateOutcome
  | enqueued (data : Json) (commit : Bool)
  | enqueuedThenFailed (data : Json) (commit : Bool) (error : PyStr)
  | failed (error : PyStr)
  | invalid (errors : PyStr)

/-- What one pass meets, how many schedules it gets through before it dies, and how many of the
two records at its end it lives to make. -/
structure ScheduleAttempt where
  changed : Id → Bool
  resolved : Id → Option ScheduleScript
  mapped : Id → Bool
  /-- `parse_datetime` of a time that is still to come. -/
  upcoming : PyStr → Option PyStr
  user : Id → Option ScheduleUser
  permitted : Id → Id → Bool
  recreate : CapturedSchedule → RecreateOutcome
  reached : ℕ
  records : ℕ

/-! ## Warnings -/

/-- Why a schedule is not recreated. -/
inductive SkipReason
  | taken
  | changed
  | module
  | dropped
  | unresolved
  | departed
  | past
  | ownerGone (script : PyStr)
  | ownerInactive (user script : PyStr)
  | notPermitted (user script : PyStr)
  | failed (script error : PyStr)
  | invalid (script errors : PyStr)

/-- Whether a later pass is to pick the schedule up. -/
def SkipReason.outstanding : SkipReason → Bool
  | .unresolved | .notPermitted .. | .failed .. => true
  | _ => false

/-- What a warning says of a schedule. -/
inductive ScheduleReport
  | notRecreated (reason : SkipReason)
  | queuedAtOnce (script : PyStr)
  | shifted

/-- A warning of a pass. -/
structure ScheduleWarning where
  entry : CapturedSchedule
  report : ScheduleReport

/-- `{pk}` and the like of a schedule's script. -/
def CapturedSchedule.scriptText (entry : CapturedSchedule) : PyStr := decimal entry.legacyScriptPk

/-- `{due}` -/
def CapturedSchedule.due (entry : CapturedSchedule) : PyStr := entry.scheduled.getD (py "None")

/-- What follows the name and the key of the Job. -/
def SkipReason.text (entry : CapturedSchedule) : SkipReason → PyStr
  | .taken => py (" was not cancelled by the cutover, because a worker had already taken it, so " ++
      "it has not been recreated. Check whether it ran, and run it again by hand if it did not. " ++
      "If it recurs, see \"Recurring successors\" in the migration guide before scheduling it " ++
      "again, since its next run may already exist.")
  | .changed => py (" changed after cancellation and has not been recreated. Check its " ++
      "execution history and any recurring successor before scheduling it again.")
  | .module => py (" ran a built-in script module rather than a Custom Script, which no Script " ++
      "corresponds to, so it was not recreated.")
  | .dropped => py " had input the cutover could not record (" ++
      (py ", ").intercalate entry.dropped ++ py ("), so it was not recreated rather than run " ++
      "without it. Schedule it again by hand.")
  | .unresolved => py " ran built-in Custom Script " ++ entry.scriptText ++
      py ", which no Script resolves to, so it was not recreated."
  | .departed => py " ran built-in Custom Script " ++ entry.scriptText ++
      py (", whose class left its file, so no Script will ever replace it and it was not " ++
      "recreated. Schedule it again by hand against whatever replaces it.")
  | .past => py " was due at " ++ entry.due ++ py (", which has passed, so it was not recreated " ++
      "rather than run at once. Schedule it again by hand.")
  | .ownerGone script => py (" belonged to a user who no longer exists, so it was not " ++
      "recreated. Schedule it again by hand against ") ++ script ++
      py " under an account that should own it."
  | .ownerInactive user script => py " belonged to " ++ user ++ py (", whose account is " ++
      "deactivated, so it was not recreated. Schedule it again by hand against ") ++ script ++
      py " under an account that should own it."
  | .notPermitted user script => py " belonged to " ++ user ++ py ", who can no longer run " ++
      script ++ py (", so it was not recreated. Grant them the permission to run it and run " ++
      "this pass again.")
  | .failed script error => py " could not be recreated against " ++ script ++ py ": " ++ error
  | .invalid script errors => py " no longer supplies valid input for " ++ script ++
      py ", so it was not recreated: " ++ errors

/-- What follows the name and the key of the Job. -/
def ScheduleReport.text (entry : CapturedSchedule) : ScheduleReport → PyStr
  | .notRecreated reason => reason.text entry
  | .queuedAtOnce script => py (" was queued rather than scheduled, so it was recreated to run " ++
      "at once against ") ++ script ++ py ", with the commit setting it was queued with."
  | .shifted => py " was due at " ++ entry.due ++ py (", which has passed, so its recurrence " ++
      "starts now and keeps its ") ++ (entry.interval.map decimal).getD (py "None") ++
      py " minute interval."

/-- The message of a warning, which names the schedule and its Job. -/
def ScheduleWarning.message (warning : ScheduleWarning) : PyStr :=
  py "Schedule \"" ++ warning.entry.name ++ py "\" (Job " ++ decimal warning.entry.jobPk ++
    py ")" ++ warning.report.text warning.entry

/-! ## One schedule -/

/-- `_replay_schedule(entry)`: the start time and whether its phase moved, or `none` where the
time has passed and nothing recurs. -/
def replaySchedule (a : ScheduleAttempt) (entry : CapturedSchedule) :
    Option (Option PyStr × Bool) :=
  match entry.scheduled with
  | none => some (none, false)
  | some text =>
    if text = [] then some (none, false)
    else
      match a.upcoming text with
      | some time => some (some time, false)
      | none => if (entry.interval.getD 0) ≠ 0 then some (none, true) else none

/-- What the body of the loop comes to. -/
inductive Examined
  | recorded
  | skipped (reason : SkipReason)
  | created (job : ReplacementJob) (script : PyStr) (shifted : Bool)
  | createdThenFailed (job : ReplacementJob) (reason : SkipReason)

/-- The Job that `enqueue_run` makes of a schedule. -/
def replacementFor (entry : CapturedSchedule) (script : Id) (data : Json) (commit : Bool)
    (user : Option Id) (scheduleAt : Option PyStr) : ReplacementJob :=
  ⟨script, data, commit, user, scheduleAt, entry.interval, entry.notifications, entry.queueName,
    entry.jobTimeout⟩

/-- `_recreate(…)` with the two handlers around it. -/
def recreated (a : ScheduleAttempt) (entry : CapturedSchedule) (script : ScheduleScript)
    (user : Option Id) (scheduleAt : Option PyStr) (shifted : Bool) : Examined :=
  match a.recreate entry with
  | .enqueued data commit =>
    .created (replacementFor entry script.pk data commit user scheduleAt) script.text shifted
  | .enqueuedThenFailed data commit error =>
    .createdThenFailed (replacementFor entry script.pk data commit user scheduleAt)
      (.failed script.text error)
  | .failed error => .skipped (.failed script.text error)
  | .invalid errors => .skipped (.invalid script.text errors)

/-- The checks of the owner, and what follows them. -/
def examineOwner (a : ScheduleAttempt) (entry : CapturedSchedule) (script : ScheduleScript)
    (scheduleAt : Option PyStr) (shifted : Bool) : Examined :=
  match entry.userPk.filter (· ≠ 0) with
  | none => recreated a entry script none scheduleAt shifted
  | some owner =>
    match a.user owner with
    | none => .skipped (.ownerGone script.text)
    | some user =>
      if !user.isActive then .skipped (.ownerInactive user.text script.text)
      else if !a.permitted owner script.pk then .skipped (.notPermitted user.text script.text)
      else recreated a entry script (some owner) scheduleAt shifted

/-- A schedule whose script does not resolve: the map is frozen, so only a class it holds can. -/
def unresolvedReason (a : ScheduleAttempt) (entry : CapturedSchedule) : SkipReason :=
  if a.mapped entry.legacyScriptPk then .unresolved else .departed

/-- The body of the loop of `recreate_schedules`, by its exits. -/
def examine (a : ScheduleAttempt) (recorded : List Id) (entry : CapturedSchedule) : Examined :=
  if entry.jobPk ∈ recorded then .recorded
  else if entry.cancellation = some (py "executed") ∨ entry.cancellation = some (py "running") then
    .skipped .taken
  else if entry.cancellation = some (py "cancelled") ∧ a.changed entry.jobPk = true then
    .skipped .changed
  else if entry.legacyObjectType ≠ py "extras.script" then .skipped .module
  else if entry.dropped ≠ [] then .skipped .dropped
  else
    match a.resolved entry.legacyScriptPk with
    | none => .skipped (unresolvedReason a entry)
    | some script =>
      match replaySchedule a entry with
      | none => .skipped .past
      | some (scheduleAt, shifted) => examineOwner a entry script scheduleAt shifted

/-! ## The pass -/

/-- The counts of a pass. -/
structure ScheduleCounts where
  recreated : ℕ
  skipped : ℕ
  shifted : ℕ
  outstanding : ℕ

/-- What a pass has done so far: the Jobs, the journal's `recreated_schedules` by captured key,
and its report. -/
structure SchedulePass where
  jobs : Table ReplacementJob
  recreated : List (Id × Id)
  counts : ScheduleCounts
  warnings : List ScheduleWarning

/-- The new Job and the record of it, which commit together. -/
def SchedulePass.enqueue (pass : SchedulePass) (entry : CapturedSchedule) (job : ReplacementJob) :
    SchedulePass :=
  { pass with
    jobs := pass.jobs.insert job
    recreated := pass.recreated ++ [(entry.jobPk, pass.jobs.next)] }

/-- The pass with one more schedule that was not recreated. -/
def SchedulePass.skip (pass : SchedulePass) (entry : CapturedSchedule) (reason : SkipReason) :
    SchedulePass :=
  { pass with
    counts := { pass.counts with
      skipped := pass.counts.skipped + 1
      outstanding := pass.counts.outstanding + reason.outstanding.toNat }
    warnings := pass.warnings ++ [⟨entry, .notRecreated reason⟩] }

/-- The pass after one more schedule. -/
def SchedulePass.apply (pass : SchedulePass) (entry : CapturedSchedule) : Examined → SchedulePass
  | .recorded => pass
  | .skipped reason => pass.skip entry reason
  | .createdThenFailed job reason => (pass.enqueue entry job).skip entry reason
  | .created job script shifted =>
    { pass.enqueue entry job with
      counts := { pass.counts with
        recreated := pass.counts.recreated + 1
        shifted := pass.counts.shifted + shifted.toNat }
      warnings := pass.warnings ++
        (if entry.scheduled = none then [⟨entry, .queuedAtOnce script⟩] else []) ++
        (if shifted then [⟨entry, .shifted⟩] else []) }

/-- The loop over some of the captured schedules. -/
def SchedulePass.run (a : ScheduleAttempt) (entries : List CapturedSchedule) (pass : SchedulePass) :
    SchedulePass :=
  entries.foldl (fun pass entry =>
    pass.apply entry (examine a (pass.recreated.map Prod.fst) entry)) pass

/-- `record_warnings(warnings)`: repeats are ignored. -/
def recordMessages (stored : List PyStr) (warnings : List ScheduleWarning) : List PyStr :=
  warnings.foldl (fun merged warning =>
    if warning.message ∈ merged then merged else merged ++ [warning.message]) stored

/-- What is stored between two passes, with the pass that recorded the step and the schedules that
were recorded when it began. -/
structure ScheduleState where
  jobs : Table ReplacementJob
  recreated : List (Id × Id)
  warnings : List PyStr
  completed : Option (SchedulePass × List Id)

/-- `recreate_schedules(run)`. Once the step is recorded it does nothing; a pass that dies in the
loop leaves the Jobs and records that have committed, and one that gets through records its
warnings and then, with nothing outstanding, the step. -/
def ScheduleState.attempt (journal : List CapturedSchedule) (state : ScheduleState)
    (a : ScheduleAttempt) : ScheduleState :=
  if state.completed.isSome then state
  else
    let pass := SchedulePass.run a (journal.take a.reached)
      ⟨state.jobs, state.recreated, ⟨0, 0, 0, 0⟩, []⟩
    let ended := decide (journal.length ≤ a.reached)
    { jobs := pass.jobs
      recreated := pass.recreated
      warnings := if ended && decide (1 ≤ a.records)
        then recordMessages state.warnings pass.warnings else state.warnings
      completed := if ended && decide (2 ≤ a.records) && pass.counts.outstanding = 0
        then some (pass, state.recreated.map Prod.fst) else none }

/-- What a run of passes leaves. -/
def scheduleRuns (journal : List CapturedSchedule) (jobs : Table ReplacementJob)
    (attempts : List ScheduleAttempt) : ScheduleState :=
  attempts.foldl (ScheduleState.attempt journal) ⟨jobs, [], [], none⟩

/-! ## Jobs and records -/

section Books

variable {journal : List CapturedSchedule} {entry : CapturedSchedule} {start : Table ReplacementJob}
  {pass : SchedulePass} {a : ScheduleAttempt}

/-- Every new Job is recorded, under one captured schedule each, and runs as that one did. -/
structure Books (journal : List CapturedSchedule) (start jobs : Table ReplacementJob)
    (recreated : List (Id × Id)) : Prop where
  nodup_keys : (recreated.map Prod.fst).Nodup
  nodup_jobs : (recreated.map Prod.snd).Nodup
  recorded : ∀ pair ∈ recreated, start.next ≤ pair.2 ∧ ∃ entry ∈ journal,
    entry.jobPk = pair.1 ∧ ∃ job, jobs.row pair.2 = some job ∧ job.MadeFor entry
  created : ∀ i, start.next ≤ i → jobs.row i ≠ none → i ∈ recreated.map Prod.snd
  next_le : start.next ≤ jobs.next

/-- How a schedule counts among those that the pass has examined. -/
def Examined.weight : Examined → ℕ
  | .recorded => 0
  | _ => 1

/-- What `examine` enqueues is not recorded yet and runs as the schedule did. -/
def Examined.job? : Examined → Option ReplacementJob
  | .created job _ _ => some job
  | .createdThenFailed job _ => some job
  | _ => none

theorem job?_recreated {script : ScheduleScript} {user : Option Id} {scheduleAt : Option PyStr}
    {shifted : Bool} {job : ReplacementJob}
    (h : (recreated a entry script user scheduleAt shifted).job? = some job) :
    job.MadeFor entry := by
  unfold recreated at h
  cases ha : a.recreate entry <;> simp only [ha, Examined.job?] at h <;> cases h
  · exact ⟨rfl, rfl, rfl, rfl⟩
  · exact ⟨rfl, rfl, rfl, rfl⟩

theorem job?_examineOwner {script : ScheduleScript} {scheduleAt : Option PyStr}
    {shifted : Bool} {job : ReplacementJob}
    (h : (examineOwner a entry script scheduleAt shifted).job? = some job) :
    job.MadeFor entry := by
  unfold examineOwner at h
  split at h
  · exact job?_recreated h
  · split at h
    · cases h
    · split_ifs at h
      · cases h
      · cases h
      · exact job?_recreated h

/-- A schedule is examined to the end only if it is not recorded. -/
theorem examine_job? {recorded : List Id} {job : ReplacementJob}
    (h : (examine a recorded entry).job? = some job) :
    entry.jobPk ∉ recorded ∧ job.MadeFor entry := by
  unfold examine at h
  by_cases hrecorded : entry.jobPk ∈ recorded
  · rw [if_pos hrecorded] at h
    cases h
  refine ⟨hrecorded, ?_⟩
  rw [if_neg hrecorded] at h
  split_ifs at h
  all_goals try cases h
  split at h
  · cases h
  · split at h
    · cases h
    · exact job?_examineOwner h

/-- `recorded` is the exit of the recorded schedules. -/
theorem examine_eq_recorded {recorded : List Id} :
    examine a recorded entry = .recorded ↔ entry.jobPk ∈ recorded := by
  constructor
  · intro h
    by_contra hnot
    unfold examine at h
    rw [if_neg hnot] at h
    split_ifs at h
    split at h
    · cases h
    · split at h
      · cases h
      · unfold examineOwner at h
        split at h
        · unfold recreated at h
          split at h <;> cases h
        · split at h
          · cases h
          · split_ifs at h
            unfold recreated at h
            split at h <;> cases h
  · intro h
    exact if_pos h

/-- The new Job and its record keep the books. -/
theorem Books.enqueue {jobs : Table ReplacementJob} {pairs : List (Id × Id)}
    (h : Books journal start jobs pairs) (hmem : entry ∈ journal) {job : ReplacementJob}
    (hnew : entry.jobPk ∉ pairs.map Prod.fst) (hjob : job.MadeFor entry) :
    Books journal start (jobs.insert job) (pairs ++ [(entry.jobPk, jobs.next)]) := by
  have hnext := h.next_le
  refine ⟨?_, ?_, ?_, ?_, ?_⟩
  · rw [List.map_append, List.nodup_append]
    refine ⟨h.nodup_keys, List.nodup_singleton _, ?_⟩
    rintro key hkey _ hlast rfl
    rw [List.map_singleton, List.mem_singleton] at hlast
    rw [hlast] at hkey
    exact hnew hkey
  · rw [List.map_append, List.nodup_append]
    refine ⟨h.nodup_jobs, List.nodup_singleton _, ?_⟩
    rintro key hkey _ hlast rfl
    rw [List.map_singleton, List.mem_singleton] at hlast
    obtain ⟨pair, hpair, rfl⟩ := List.mem_map.mp hkey
    obtain ⟨-, -, -, -, found, hrow, -⟩ := h.recorded pair hpair
    exact Nat.ne_of_lt (Table.lt_next_of_row hrow) hlast
  · intro pair hpair
    rcases List.mem_append.mp hpair with hold | hlast
    · obtain ⟨hge, other, hother, hkey, found, hrow, hmade⟩ := h.recorded pair hold
      exact ⟨hge, other, hother, hkey, found, Table.row_insert_of_row hrow, hmade⟩
    · obtain rfl := List.mem_singleton.mp hlast
      exact ⟨hnext, entry, hmem, rfl, job, Table.row_insert_next, hjob⟩
  · intro i hi hrow
    rw [List.map_append, List.mem_append, List.map_singleton, List.mem_singleton]
    rw [Table.row_insert] at hrow
    split_ifs at hrow with hlast
    · exact .inr hlast
    · exact .inl (h.created i hi hrow)
  · rw [Table.next_insert]
    exact Nat.le_succ_of_le hnext

/-- **One more schedule** keeps the books. -/
theorem Books.apply (h : Books journal start pass.jobs pass.recreated) (hmem : entry ∈ journal) :
    Books journal start
      (pass.apply entry (examine a (pass.recreated.map Prod.fst) entry)).jobs
      (pass.apply entry (examine a (pass.recreated.map Prod.fst) entry)).recreated := by
  cases hexamined : examine a (pass.recreated.map Prod.fst) entry with
  | recorded => exact h
  | skipped reason => exact h
  | created job script shifted =>
    obtain ⟨hnew, hmade⟩ := @examine_job? entry a (pass.recreated.map Prod.fst) job
      (by rw [hexamined]; rfl)
    exact h.enqueue hmem hnew hmade
  | createdThenFailed job reason =>
    obtain ⟨hnew, hmade⟩ := @examine_job? entry a (pass.recreated.map Prod.fst) job
      (by rw [hexamined]; rfl)
    exact h.enqueue hmem hnew hmade

theorem Books.run (entries : List CapturedSchedule) (hsub : ∀ entry ∈ entries, entry ∈ journal)
    (h : Books journal start pass.jobs pass.recreated) :
    Books journal start (pass.run a entries).jobs (pass.run a entries).recreated := by
  induction entries generalizing pass with
  | nil => exact h
  | cons entry entries ih =>
    exact ih (fun other hother => hsub other (List.mem_cons_of_mem _ hother))
      (h.apply (hsub entry List.mem_cons_self))

end Books

/-! ## What a pass has said -/

section Passes

variable {journal : List CapturedSchedule} {entry : CapturedSchedule} {start : Table ReplacementJob}
  {pass : SchedulePass} {a : ScheduleAttempt} {before : List Id} {done : List CapturedSchedule}

/-- A pass reports a schedule as not recreated. -/
def SchedulePass.Reports (pass : SchedulePass) (entry : CapturedSchedule) : Prop :=
  ∃ reason, ⟨entry, .notRecreated reason⟩ ∈ pass.warnings

/-- A schedule that a pass has examined: recorded and not reported, or reported and not recorded.
Where both hold the schedule counts as outstanding. -/
def SchedulePass.Settled (pass : SchedulePass) (entry : CapturedSchedule) : Prop :=
  (entry.jobPk ∈ pass.recreated.map Prod.fst ∧ ¬ pass.Reports entry) ∨
    (entry.jobPk ∉ pass.recreated.map Prod.fst ∧ pass.Reports entry) ∨
      0 < pass.counts.outstanding

/-- What the loop has made of the schedules it has examined, `before` being those that were
recorded when it began. -/
structure Passed (before : List Id) (done : List CapturedSchedule) (pass : SchedulePass) :
    Prop where
  keys : ∀ key ∈ pass.recreated.map Prod.fst, key ∈ before ∨
    key ∈ done.map CapturedSchedule.jobPk
  kept : ∀ key ∈ before, key ∈ pass.recreated.map Prod.fst
  about : ∀ warning ∈ pass.warnings, warning.entry ∈ done
  settled : ∀ entry ∈ done, pass.Settled entry
  counted : pass.counts.recreated + pass.counts.skipped =
    (done.filter fun entry => entry.jobPk ∉ before).length

/-- The keys, reports and counts that one exit adds. -/
theorem apply_facts (pass : SchedulePass) (entry : CapturedSchedule) (examined : Examined) :
    (∀ key, key ∈ (pass.apply entry examined).recreated.map Prod.fst ↔
      key ∈ pass.recreated.map Prod.fst ∨ examined.job?.isSome = true ∧ key = entry.jobPk) ∧
    (∀ other reason, (⟨other, .notRecreated reason⟩ ∈ (pass.apply entry examined).warnings ↔
      ⟨other, .notRecreated reason⟩ ∈ pass.warnings ∨ other = entry ∧
        (examined = .skipped reason ∨ ∃ job, examined = .createdThenFailed job reason))) ∧
    (∀ warning ∈ (pass.apply entry examined).warnings,
      warning ∈ pass.warnings ∨ warning.entry = entry) ∧
    pass.counts.outstanding ≤ (pass.apply entry examined).counts.outstanding ∧
    (pass.apply entry examined).counts.recreated + (pass.apply entry examined).counts.skipped =
      pass.counts.recreated + pass.counts.skipped + examined.weight := by
  cases examined with
  | recorded =>
    refine ⟨?_, ?_, fun warning hmem => .inl hmem, Nat.le_refl _, rfl⟩
    · simp [SchedulePass.apply, Examined.job?]
    · simp [SchedulePass.apply]
  | skipped reason =>
    refine ⟨?_, ?_, ?_, ?_, ?_⟩
    · simp [SchedulePass.apply, SchedulePass.skip, Examined.job?]
    · intro other reason'
      simp [SchedulePass.apply, SchedulePass.skip, eq_comm]
    · simp only [SchedulePass.apply, SchedulePass.skip, List.mem_append, List.mem_singleton]
      rintro warning (hold | rfl)
      · exact .inl hold
      · exact .inr rfl
    · exact Nat.le_add_right _ _
    · simp [SchedulePass.apply, SchedulePass.skip, Examined.weight, Nat.add_assoc]
  | createdThenFailed job reason =>
    refine ⟨?_, ?_, ?_, ?_, ?_⟩
    · simp [SchedulePass.apply, SchedulePass.skip, SchedulePass.enqueue, Examined.job?]
    · intro other reason'
      simp [SchedulePass.apply, SchedulePass.skip, SchedulePass.enqueue, eq_comm]
    · simp only [SchedulePass.apply, SchedulePass.skip, SchedulePass.enqueue, List.mem_append,
        List.mem_singleton]
      rintro warning (hold | rfl)
      · exact .inl hold
      · exact .inr rfl
    · exact Nat.le_add_right _ _
    · simp [SchedulePass.apply, SchedulePass.skip, SchedulePass.enqueue, Examined.weight,
        Nat.add_assoc]
  | created job script shifted =>
    -- up to two warnings, neither of which reports that no Job was made
    refine ⟨?_, ?_, ?_, ?_, ?_⟩
    · simp [SchedulePass.apply, SchedulePass.enqueue, Examined.job?]
    · intro other reason'
      simp only [SchedulePass.apply, SchedulePass.enqueue, List.mem_append]
      split_ifs <;> simp
    · simp only [SchedulePass.apply, SchedulePass.enqueue, List.mem_append]
      rintro warning ((hold | hqueued) | hshifted)
      · exact .inl hold
      · split_ifs at hqueued <;> simp at hqueued
        exact .inr (congrArg ScheduleWarning.entry hqueued)
      · split_ifs at hshifted <;> simp at hshifted
        exact .inr (congrArg ScheduleWarning.entry hshifted)
    · exact Nat.le_refl _
    · simp only [SchedulePass.apply, SchedulePass.enqueue, Examined.weight]
      omega

/-- A Job whose queue failed leaves its schedule outstanding. -/
theorem outstanding_of_createdThenFailed {recorded : List Id} {job : ReplacementJob}
    {reason : SkipReason} (h : examine a recorded entry = .createdThenFailed job reason) :
    reason.outstanding = true := by
  have hrecreated : ∀ script user scheduleAt shifted,
      recreated a entry script user scheduleAt shifted = .createdThenFailed job reason →
        reason.outstanding = true := by
    intro script user scheduleAt shifted hfailed
    unfold recreated at hfailed
    split at hfailed <;> cases hfailed
    rfl
  unfold examine at h
  split_ifs at h
  split at h
  · cases h
  · split at h
    · cases h
    · unfold examineOwner at h
      split at h
      · exact hrecreated _ _ _ _ h
      · split at h
        · cases h
        · split_ifs at h
          exact hrecreated _ _ _ _ h

/-- The schedule of an iteration is settled by it, if nothing was said of it before. -/
theorem settled_apply {examined : Examined} (hquiet : ¬ pass.Reports entry)
    (hrecorded : examined = .recorded ↔ entry.jobPk ∈ pass.recreated.map Prod.fst)
    (houtstanding : ∀ {job : ReplacementJob} {reason : SkipReason},
      examined = .createdThenFailed job reason → reason.outstanding = true) :
    (pass.apply entry examined).Settled entry := by
  obtain ⟨hkeys, hreports, -⟩ := apply_facts pass entry examined
  cases hcase : examined with
  | recorded => exact .inl ⟨hrecorded.mp hcase, hquiet⟩
  | skipped reason =>
    have hnotKey : entry.jobPk ∉ pass.recreated.map Prod.fst := fun hkey => by
      rw [hrecorded.mpr hkey] at hcase
      cases hcase
    subst hcase
    refine .inr (.inl ⟨fun hkey => ?_, reason, ?_⟩)
    · rcases (hkeys _).mp hkey with hold | ⟨hnone, -⟩
      · exact hnotKey hold
      · cases hnone
    · exact (hreports _ _).mpr (.inr ⟨rfl, .inl rfl⟩)
  | created job script shifted =>
    subst hcase
    refine .inl ⟨(hkeys _).mpr (.inr ⟨rfl, rfl⟩), ?_⟩
    rintro ⟨reason, hmem⟩
    rcases (hreports _ _).mp hmem with hold | ⟨-, hskipped | ⟨_, hfailed⟩⟩
    · exact hquiet ⟨reason, hold⟩
    · cases hskipped
    · cases hfailed
  | createdThenFailed job reason =>
    -- its Job is recorded and the failure reported; that counts as outstanding
    have hout := houtstanding hcase
    refine .inr (.inr ?_)
    simp [SchedulePass.apply, SchedulePass.skip, SchedulePass.enqueue, hout]

/-- **One more schedule**: what the loop has said of those before it stands. -/
theorem Passed.apply (h : Passed before done pass)
    (hnew : entry.jobPk ∉ done.map CapturedSchedule.jobPk) :
    Passed before (done ++ [entry])
      (pass.apply entry (examine a (pass.recreated.map Prod.fst) entry)) := by
  have hne : ∀ other ∈ done, other ≠ entry ∧ other.jobPk ≠ entry.jobPk := by
    intro other hother
    have hpk : other.jobPk ≠ entry.jobPk := fun hsame =>
      hnew (hsame ▸ List.mem_map_of_mem hother)
    exact ⟨fun hsame => hpk (congrArg CapturedSchedule.jobPk hsame), hpk⟩
  have hbefore : entry.jobPk ∈ pass.recreated.map Prod.fst ↔ entry.jobPk ∈ before :=
    ⟨fun hkey => (h.keys _ hkey).resolve_right hnew, h.kept _⟩
  have hunsaid : ∀ warning ∈ pass.warnings, warning.entry ≠ entry := fun warning hmem hsame =>
    (hne _ (h.about warning hmem)).1 hsame
  have hquiet : ¬ pass.Reports entry := fun ⟨_, hmem⟩ => hunsaid _ hmem rfl
  have hrecorded := @examine_eq_recorded entry a (pass.recreated.map Prod.fst)
  have houtstanding := @outstanding_of_createdThenFailed entry a (pass.recreated.map Prod.fst)
  generalize examine a (pass.recreated.map Prod.fst) entry = examined at hrecorded houtstanding ⊢
  obtain ⟨hkeys, hreports, habout, hmore, hcount⟩ := apply_facts pass entry examined
  refine ⟨fun key hkey => ?_, fun key hkey => (hkeys key).mpr (.inl (h.kept key hkey)),
    fun warning hmem => ?_, fun other hother => ?_, ?_⟩
  · rw [List.map_append, List.mem_append]
    rcases (hkeys key).mp hkey with hold | ⟨-, rfl⟩
    · exact (h.keys key hold).imp_right .inl
    · exact .inr (.inr List.mem_cons_self)
  · rcases habout warning hmem with hold | hsame
    · exact List.mem_append_left _ (h.about warning hold)
    · exact List.mem_append_right _ (List.mem_singleton.mpr hsame)
  · rcases List.mem_append.mp hother with hold | hlast
    · -- an earlier schedule has another key, so neither its record nor its report changes
      obtain ⟨hdistinct, hpk⟩ := hne other hold
      have hkey : other.jobPk ∈ (pass.apply entry examined).recreated.map Prod.fst ↔
          other.jobPk ∈ pass.recreated.map Prod.fst := by
        rw [hkeys]
        exact or_iff_left fun hboth => hpk hboth.2
      have hreport : (pass.apply entry examined).Reports other ↔ pass.Reports other := by
        refine exists_congr fun reason => ?_
        rw [hreports]
        exact or_iff_left fun hboth => hdistinct hboth.1
      unfold SchedulePass.Settled
      rw [hkey, hreport]
      exact (h.settled other hold).imp_right
        (Or.imp_right fun hsome => Nat.lt_of_lt_of_le hsome hmore)
    · obtain rfl := List.mem_singleton.mp hlast
      exact settled_apply hquiet hrecorded houtstanding
  · -- one is counted unless its Job was there before the pass
    rw [hcount, h.counted, List.filter_append, List.length_append]
    congr 1
    by_cases hin : entry.jobPk ∈ before
    · rw [hrecorded.mpr (hbefore.mpr hin)]
      simp [hin, Examined.weight]
    · have hnot : examined ≠ .recorded := fun hcase => hin (hbefore.mp (hrecorded.mp hcase))
      have hone : examined.weight = 1 := by
        cases examined <;> first | rfl | exact absurd rfl hnot
      simp [hin, hone]

theorem Passed.run (entries : List CapturedSchedule) (h : Passed before done pass)
    (hnodup : ((done ++ entries).map CapturedSchedule.jobPk).Nodup) :
    Passed before (done ++ entries) (pass.run a entries) := by
  induction entries generalizing pass done with
  | nil =>
    rw [List.append_nil]
    exact h
  | cons entry entries ih =>
    have hnew : entry.jobPk ∉ done.map CapturedSchedule.jobPk := by
      rw [List.map_append, List.map_cons, List.nodup_append] at hnodup
      exact fun hmem => hnodup.2.2 _ hmem _ List.mem_cons_self rfl
    have happend : done ++ entry :: entries = (done ++ [entry]) ++ entries := by simp
    rw [happend] at hnodup ⊢
    exact ih (h.apply hnew) hnodup

/-- The recorded messages are those there were and those of the pass. -/
theorem mem_recordMessages {stored : List PyStr} {warnings : List ScheduleWarning}
    {message : PyStr} : message ∈ recordMessages stored warnings ↔
      message ∈ stored ∨ ∃ warning ∈ warnings, warning.message = message := by
  induction warnings generalizing stored with
  | nil => simp [recordMessages]
  | cons warning warnings ih =>
    rw [recordMessages, List.foldl_cons]
    refine ih.trans ?_
    split_ifs with hrepeat
    · constructor
      · rintro (hold | ⟨other, hother, hsame⟩)
        · exact .inl hold
        · exact .inr ⟨other, List.mem_cons_of_mem _ hother, hsame⟩
      · rintro (hold | ⟨other, hother, rfl⟩)
        · exact .inl hold
        · rcases List.mem_cons.mp hother with rfl | hother
          · exact .inl hrepeat
          · exact .inr ⟨other, hother, rfl⟩
    · rw [List.mem_append, List.mem_singleton, or_assoc]
      refine or_congr_right ?_
      simp [eq_comm]

end Passes

/-! ## Runs of passes -/

section Runs

variable {journal : List CapturedSchedule} {start : Table ReplacementJob} {state : ScheduleState}

/-- What holds between two passes. -/
structure BetweenPasses (journal : List CapturedSchedule) (start : Table ReplacementJob)
    (state : ScheduleState) : Prop where
  books : Books journal start state.jobs state.recreated
  finished : ∀ pass before, state.completed = some (pass, before) →
    pass.counts.outstanding = 0 ∧ Passed before journal pass ∧
      pass.recreated = state.recreated ∧
        ∀ warning ∈ pass.warnings, warning.message ∈ state.warnings

/-- **A pass**, wherever it dies. -/
theorem BetweenPasses.attempt (h : BetweenPasses journal start state)
    (hnodup : (journal.map CapturedSchedule.jobPk).Nodup) (a : ScheduleAttempt) :
    BetweenPasses journal start (state.attempt journal a) := by
  unfold ScheduleState.attempt
  by_cases hdone : state.completed.isSome = true
  · simpa only [if_pos hdone] using h
  · simp only [if_neg hdone]
    refine ⟨@Books.run journal start ⟨state.jobs, state.recreated, ⟨0, 0, 0, 0⟩, []⟩ a
      (journal.take a.reached) (fun _ => List.mem_of_mem_take) h.books,
      fun pass before hcompleted => ?_⟩
    dsimp only at hcompleted
    split_ifs at hcompleted with hends
    simp only [Option.some.injEq, Prod.mk.injEq] at hcompleted
    obtain ⟨hpass, hbefore⟩ := hcompleted
    subst hpass hbefore
    simp only [Bool.and_eq_true, decide_eq_true_eq] at hends
    obtain ⟨⟨hall, hrecords⟩, houtstanding⟩ := hends
    refine ⟨houtstanding, ?_, rfl, fun warning hmem => ?_⟩
    · -- a pass that records the step has gone through the whole journal
      rw [List.take_of_length_le hall]
      have hstart : Passed (state.recreated.map Prod.fst) []
          ⟨state.jobs, state.recreated, ⟨0, 0, 0, 0⟩, []⟩ :=
        ⟨fun _ hkey => .inl hkey, fun _ hkey => hkey, fun _ hmem => absurd hmem List.not_mem_nil,
          fun _ hmem => absurd hmem List.not_mem_nil, rfl⟩
      exact Passed.run (a := a) journal hstart hnodup
    · have hwarned : (decide (journal.length ≤ a.reached) && decide (1 ≤ a.records)) = true := by
        simp only [Bool.and_eq_true, decide_eq_true_eq]
        exact ⟨hall, Nat.le_of_succ_le hrecords⟩
      rw [if_pos hwarned]
      exact mem_recordMessages.mpr (.inr ⟨warning, hmem, rfl⟩)

/-- A schedule with an uploaded file among its input. -/
def uploadSchedule : CapturedSchedule :=
  ⟨5, 10, py "extras.script", py "nightly", .obj [], [py "file"], true, none, some 60,
    py "default", none, py "always", some 1, some (py "cancelled")⟩

/-- A pass that meets no change of any Job and lives to its end. -/
def quietAttempt : ScheduleAttempt where
  changed _ := false
  resolved _ := some ⟨100, py "S"⟩
  mapped _ := true
  upcoming _ := none
  user _ := some ⟨py "alice", true⟩
  permitted _ _ := true
  recreate _ := .enqueued (.obj []) true
  reached := 1
  records := 2

end Runs

end NetBoxScripts
