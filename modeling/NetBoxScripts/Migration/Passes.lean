import Mathlib.Logic.Function.Basic
import NetBoxScripts.Concurrency.Program
import NetBoxScripts.Concurrency.Table
import NetBoxScripts.Migration.Journal

/-!
# The passes of a migration

The services of `migration/` as programs: `migration/locking.py`, `migration/cutover.py`,
`migration/references.py`, `migration/cleanup.py`, and the staging job's part in the run. Each
statement is one action; what a pass reads from tables that are not modelled is an outside
answer. A transaction that only its own pass can see is one action, at its commit.

## Main definitions

* `MigrationWorld`: the runs, their lock, the Jobs, the queue, and who has taken a task
* `recordJournal`, `recordMapping`, `recordStep`, `recordWarnings`, `advance`: the methods of
  `MigrationRun`
* `enterCutover`, `recreateSchedules`, `retireLegacy`, …: the passes
-/

namespace NetBoxScripts

/-- `JobStatusChoices` -/
inductive JobStatus
  | pending | scheduled | running | completed | errored | failed
  deriving DecidableEq, Repr

/-- `cancellable_statuses()` -/
def JobStatus.cancellable (status : JobStatus) : Bool := status = .pending ∨ status = .scheduled

/-- `Job`: `builtin` is its membership in `script_jobs()`, `replaces` the captured Job that a
recreated one stands for. -/
structure JobRow where
  status : JobStatus
  started : Option Time
  builtin : Bool
  replaces : Option Id
  deriving DecidableEq, Repr

/-- What the passes and the workers share. -/
structure MigrationWorld where
  runs : Table MigrationRow
  /-- The session that holds `migration_lock`, and how often. -/
  lock : Option (ThreadId × ℕ)
  jobs : Table JobRow
  /-- The task of a Job is in its queue. -/
  queue : Id → Bool
  /-- The workers that have dequeued the task of a Job and not marked it started. -/
  taken : Id → List ThreadId
  now : Time

/-- An answer from outside. -/
structure Answer where
  yes : Bool
  value : Json
  texts : List PyStr
  number : Id
  ids : Id → Bool
  status : JobStatus

/-- How a pass ends early. -/
inductive MigrationError
  | refused | validation | doesNotExist | database | jobFailed
  deriving DecidableEq, Repr

/-- A pass. -/
abbrev Pass := Prog MigrationWorld Answer MigrationError

/-- A `MigrationRun` in memory. -/
structure RunInstance where
  pk : Id
  row : MigrationRow

namespace MigrationWorld

/-- `MigrationRun.current()` -/
def current (w : MigrationWorld) : Option RunInstance :=
  (w.runs.entries.reverse.find? fun entry => entry.2.state ≠ .migrated).map fun entry =>
    ⟨entry.1, entry.2⟩

/-- The keys of the built-in Jobs in some status. -/
def scriptJobs (w : MigrationWorld) (status : JobStatus → Bool) : List Id :=
  (w.jobs.entries.filter fun job => job.2.builtin && status job.2.status).map Prod.fst

end MigrationWorld

namespace Migration

/-- An answer from outside. -/
def ask {α : Type} (read : Answer → α) : Pass α := .stmt fun _ c w => some (.ok (read c), w)

/-- The program, where a condition allows it. -/
def require (allowed : Bool) (error : MigrationError) : Pass Unit :=
  if allowed then pure () else .raise error

/-- The program where a condition holds, else the instance as it is. -/
def updateIf (condition : Bool) (run : RunInstance) (update : Pass RunInstance) :
    Pass RunInstance :=
  if condition then update else pure run

/-! ## The lock -/

/-- `pg_advisory_lock`: waits while another session holds it, counts while its own does. -/
def acquire : Pass Unit := .stmt fun t _ w =>
  match w.lock with
  | none => some (.ok (), { w with lock := some (t, 1) })
  | some (u, n) => if u = t then some (.ok (), { w with lock := some (t, n + 1) }) else none

/-- `pg_advisory_unlock` -/
def release : Pass Unit := .stmt fun t _ w =>
  match w.lock with
  | none => some (.ok (), w)
  | some (u, n) =>
    if u = t then some (.ok (), { w with lock := if n ≤ 1 then none else some (t, n - 1) })
    else some (.ok (), w)

/-- `with migration_lock():` -/
def migrationLock {α : Type} (body : Pass α) : Pass α := do
  acquire
  body.finallyDo release

/-! ## The run -/

/-- A row as the database holds it. -/
def storedRow (pk : Id) : Pass (Option MigrationRow) := .query fun w => w.runs.row pk

/-- `save(update_fields=…)`: the named fields of the stored row. -/
def saveRow (pk : Id) (write : MigrationRow → MigrationRow) : Pass Unit := .stmt fun _ _ w =>
  match w.runs.row pk with
  | none => some (.error .database, w)
  | some _ => some (.ok (), { w with runs := w.runs.modify pk write })

/-- A save that is made where a condition holds. -/
def saveRowIf (condition : Bool) (pk : Id) (write : MigrationRow → MigrationRow) : Pass Unit :=
  if condition then saveRow pk write else pure ()

/-- Merging into the journal as the database holds it, under the lock. -/
def mergeJournal (run : RunInstance) (merge : Journal → Journal) : Pass RunInstance :=
  migrationLock do
    let stored ← storedRow run.pk
    let journal := merge ((stored.map MigrationRow.journal).getD [])
    saveRow run.pk fun row => { row with journal }
    return { run with row := { run.row with journal } }

/-- `record_journal(**entries)` -/
def recordJournal (run : RunInstance) (entries : Journal) : Pass RunInstance :=
  mergeJournal run fun journal => journal.update entries

/-- `record_mapping(name, entries)` -/
def recordMapping (run : RunInstance) (name : PyStr) (entries : Dict Id) : Pass RunInstance :=
  mergeJournal run fun journal =>
    journal.set name (.mapping ((journal.mapping name).update entries))

/-- `record_step(name, **detail)` -/
def recordStep (run : RunInstance) (name : PyStr) (detail : Json) : Pass RunInstance :=
  mergeJournal run fun journal =>
    journal.set (py "steps") (.steps (journal.steps.set name detail))

/-- `record_warnings(warnings)` -/
def recordWarnings (run : RunInstance) (messages : List PyStr) : Pass RunInstance :=
  migrationLock do
    let stored ← storedRow run.pk
    let stored := (stored.map MigrationRow.warnings).getD []
    let warnings := MigrationRow.mergeWarnings stored (run.row.warnings ++ messages)
    saveRowIf (warnings ≠ stored) run.pk fun row => { row with warnings }
    return { run with row := { run.row with warnings } }

/-- `complete_step(name, counts, warnings)` -/
def completeStep (run : RunInstance) (name : PyStr) (counts : Json) (messages : List PyStr) :
    Pass RunInstance := do
  let run ← recordWarnings run messages
  recordStep run name counts

/-- `advance(state)` -/
def advance (run : RunInstance) (state : MigrationState) : Pass RunInstance := do
  let now ← Prog.query MigrationWorld.now
  match run.row.advance state now with
  | none => .raise .validation
  | some row =>
    saveRow run.pk fun stored => { stored with
      state := row.state, cutoverStarted := row.cutoverStarted, completed := row.completed }
    return { run with row }

/-- `refresh_from_db()` -/
def refresh (run : RunInstance) : Pass RunInstance := .stmt fun _ _ w =>
  match w.runs.row run.pk with
  | none => some (.error .doesNotExist, w)
  | some row => some (.ok { run with row }, w)

/-- `serialized_migration_step` -/
def serialized (stale : Option RunInstance) (body : RunInstance → Pass Unit) : Pass Unit :=
  migrationLock <|
    match stale with
    -- every pass refuses to work without a run
    | none => .raise .refused
    | some run => do
      let run ← refresh run
      body run

/-! ## Staging -/

/-- `MigrationRun.start(user)`, under `unique_open_migration_run`. -/
def start : Pass RunInstance := .stmt fun _ _ w =>
  if w.current.isSome then some (.error .validation, w)
  else
    let row : MigrationRow := ⟨.legacy, [], [], none, none⟩
    some (.ok ⟨w.runs.next, row⟩, { w with runs := w.runs.insert row })

/-- The run a migration stages into. -/
def currentOrStart : Pass RunInstance := do
  match ← Prog.query MigrationWorld.current with
  | some run => pure run
  | none => start

/-- `MigrationStagingJob.run()`, up to the staging itself, which writes no run. -/
def stage : Pass Unit := migrationLock do
  require (← ask Answer.yes) .jobFailed
  let run ← Prog.query MigrationWorld.current
  require (run.all fun run => run.row.state = .legacy ∨ run.row.state = .staging) .jobFailed
  require (run.all fun run => (run.row.journal.get? (py "mapping")).isNone) .jobFailed
  require (← ask Answer.yes) .jobFailed
  let run ← migrationLock currentOrStart
  let _ ← updateIf (run.row.state = .legacy) run (advance run .staging)

/-! ## The cutover -/

/-- Each entry of `_capture` that the journal lacks. -/
def captureAbsent (run : RunInstance) (name : PyStr) : Pass Journal :=
  if (run.row.journal.get? name).isSome then pure []
  else do
    let value ← ask Answer.value
    return [(name, .json value)]

/-- `RQJob.fetch` finds the task of a Job: where it is in its queue, and it may also find one that
a worker has dequeued. -/
def taskFound (job : Id) : Pass Bool := .stmt fun _ c w => some (.ok (w.queue job || c.yes), w)

/-- `_capture_schedule(job)`, for each waiting job: an entry where its task is found. -/
def captureSchedules : List Id → Pass (List ScheduleEntry)
  | [] => pure []
  | job :: jobs => do
    let found ← taskFound job
    let label ← ask fun c => c.texts.headD []
    let dropped ← ask Answer.texts
    let rest ← captureSchedules jobs
    return if found then ⟨job, label, dropped, none⟩ :: rest else rest

/-- The entry for schedules: where there are new ones, or none were captured yet. -/
def scheduleEntries (journal : Journal) (fresh : List ScheduleEntry) : Journal :=
  if fresh ≠ [] ∨ (journal.get? (py "schedules")).isNone then
    [(py "schedules", .schedules (journal.schedules ++ fresh))]
  else []

/-- `_capture(run)` -/
def capture (run : RunInstance) : Pass RunInstance := do
  let permissions ← captureAbsent run (py "permissions")
  let rules ← captureAbsent run (py "event_rules")
  let mapping ← captureAbsent run (py "mapping")
  let seen := run.row.journal.schedules.map ScheduleEntry.jobPk
  let waiting ← Prog.query fun w => (w.scriptJobs JobStatus.cancellable).filter (· ∉ seen)
  let fresh ← captureSchedules waiting
  recordJournal run (permissions ++ rules ++ mapping ++ scheduleEntries run.row.journal fresh)

/-- `record_journal(schedules=captured)` -/
def recordSchedules (run : RunInstance) (captured : List ScheduleEntry) : Pass RunInstance :=
  recordJournal run [(py "schedules", .schedules captured)]

/-- Removing the queued task. -/
def deleteTask (job : Id) : Pass Unit := .stmt fun _ _ w =>
  some (.ok (), { w with queue := Function.update w.queue job false })

/-- The conditional update that fails a waiting, unstarted Job, and whether it did. -/
def failWaiting (job : Id) : Pass Bool := .stmt fun _ _ w =>
  let waiting := (w.jobs.row job).any fun row => row.status.cancellable && row.started.isNone
  some (.ok waiting, if waiting then
    { w with jobs := w.jobs.modify job fun row => { row with status := .failed } } else w)

/-- `_fail_closed(job, error)` -/
def failClosed (job : Id) : Pass Bool := do
  deleteTask job
  failWaiting job

/-- The outcome of a Job that could not be cancelled. -/
def uncancelled (entry : ScheduleEntry) (job : JobRow) : ScheduleEntry :=
  { entry with cancellation := some (if job.status = .running then .running else .executed) }

/-- The outcome of a Job whose row is gone. -/
def gone (entry : ScheduleEntry) : ScheduleEntry :=
  { entry with cancellation := some <|
      if entry.cancellation = some .executed ∨ entry.cancellation = some .running then .executed
      else .vanished }

/-- One waiting Job of `_cancel_schedules`. -/
def cancelWaiting (run : RunInstance) (before : List ScheduleEntry) (entry : ScheduleEntry)
    (after : List ScheduleEntry) : Pass (RunInstance × ScheduleEntry) := do
  -- without this, an interruption leaves a failed row that reads as one a worker ran
  let entry := { entry with cancellation := some .cancelling }
  let run ← recordSchedules run (before ++ entry :: after)
  if ← failClosed entry.jobPk then do
    let entry := { entry with cancellation := some .cancelled }
    let run ← recordSchedules run (before ++ entry :: after)
    return (run, entry)
  else do
    let job ← Prog.query fun w => w.jobs.row entry.jobPk
    return (run, job.elim { entry with cancellation := some .vanished } (uncancelled entry))

/-- One entry of `_cancel_schedules`, between those before it and those after it. -/
def cancelEntry (run : RunInstance) (before : List ScheduleEntry) (entry : ScheduleEntry)
    (after : List ScheduleEntry) : Pass (RunInstance × ScheduleEntry) :=
  if entry.cancellation = some .cancelled then pure (run, entry)
  else do
    match ← Prog.query fun w => w.jobs.row entry.jobPk with
    | none => return (run, gone entry)
    | some job =>
      if entry.cancellation = some .cancelling ∧ job.status.cancellable = false then do
        -- only a worker sets started
        let entry := { entry with
          cancellation := some (if job.started = none then .cancelled else .executed) }
        let run ← recordSchedules run (before ++ entry :: after)
        return (run, entry)
      else if job.status.cancellable then cancelWaiting run before entry after
      else return (run, uncancelled entry job)

/-- `_cancel_schedules(run, captured)`: the entries done, and those left. -/
def cancelSchedules (run : RunInstance) (before : List ScheduleEntry) :
    List ScheduleEntry → Pass (RunInstance × List ScheduleEntry)
  | [] => pure (run, before)
  | entry :: after => do
    let (run, entry) ← cancelEntry run before entry after
    cancelSchedules run (before ++ [entry]) after

/-- `_close(run)`, less what it disables in other tables. -/
def close (run : RunInstance) : Pass RunInstance := do
  let (run, captured) ← cancelSchedules run [] run.row.journal.schedules
  let run ← recordSchedules run captured
  let run ← recordWarnings run (← ask Answer.texts)
  let autoSync ← captureAbsent run (py "auto_sync")
  updateIf (autoSync ≠ []) run (recordJournal run autoSync)

/-- The entries of running Jobs, marked before the cutover refuses. -/
def markRunning (running : List Id) (schedules : List ScheduleEntry) : List ScheduleEntry :=
  schedules.map fun entry =>
    if entry.jobPk ∈ running then { entry with cancellation := some .running } else entry

/-- The cutover in a state that may cross, while nothing runs. -/
def crossOver (run : RunInstance) (acceptConcurrentWorkers : Bool) : Pass Unit := do
  let competing ← ask Answer.texts
  require (competing.length ≤ 1 || acceptConcurrentWorkers) .refused
  -- `unservable_projects(run)`
  require (← ask Answer.yes) .refused
  let accepted := Json.arr (competing.map Json.str)
  let run ← updateIf (1 < competing.length) run
    (recordJournal run [(py "concurrent_workers_accepted", .json accepted)])
  let run ← capture run
  let run ← recordWarnings run (← ask Answer.texts)
  let run ← updateIf (run.row.state = .staging) run (advance run .cutover)
  let run ← close run
  let unfinished ← Prog.query fun w =>
    w.scriptJobs fun status => status.cancellable || status = .running
  let counts ← ask Answer.value
  if unfinished ≠ [] then do
    let _ ← recordWarnings run (← ask Answer.texts)
  else do
    let _ ← completeStep run (py "cutover") counts []

/-- `enter_cutover(run)` -/
def enterCutover (stale : Option RunInstance) (acceptConcurrentWorkers : Bool) : Pass Unit :=
  serialized stale fun run => do
    require (run.row.state = .staging ∨ run.row.state = .cutover) .refused
    if run.row.journal.stepDone (py "cutover") then return ()
    else do
      let running ← Prog.query fun w => w.scriptJobs fun status => status = .running
      if running ≠ [] then do
        let schedules := run.row.journal.schedules
        let _ ← updateIf (schedules.any fun entry => entry.jobPk ∈ running) run
          (recordSchedules run (markRunning running schedules))
        Prog.raise .refused
      else crossOver run acceptConcurrentWorkers

/-- `require_staged(run)` -/
def requireStaged (run : RunInstance) : Pass Unit := do
  require (run.row.journal.stepDone (py "cutover")) .refused
  require (run.row.journal.get? (py "mapping")).isSome .refused

/-- `activate_staged(run)`: what it records. -/
def activateStaged (stale : Option RunInstance) : Pass Unit := serialized stale fun run => do
  requireStaged run
  let _ ← recordStep run (py "activate") (← ask Answer.value)

/-! ## The references -/

/-- `_require_activated(run)` -/
def requireActivated (run : RunInstance) : Pass Unit := do
  requireStaged run
  require (run.row.journal.stepDone (py "activate")) .refused

/-- `_require_serving(run)` -/
def requireServing (run : RunInstance) : Pass Unit := do
  requireActivated run
  require (← ask Answer.yes) .refused

/-- The end of a reference pass: its step is recorded unless work is outstanding. -/
def finishStep (run : RunInstance) (name : PyStr) (outstanding : Bool) : Pass Unit := do
  let messages ← ask Answer.texts
  let counts ← ask Answer.value
  if outstanding then do
    let _ ← recordWarnings run messages
  else do
    let _ ← completeStep run name counts messages

/-- `repoint_event_rules(run)`: what it records. -/
def repointEventRules (stale : Option RunInstance) : Pass Unit := serialized stale fun run => do
  requireServing run
  if run.row.journal.stepDone (py "repoint_event_rules") then return ()
  else finishStep run (py "repoint_event_rules") (← ask Answer.yes)

/-- The permissions that are split, each recorded with its sibling. -/
def splitPermissions (run : RunInstance) : List PyStr → Pass RunInstance
  | [] => pure run
  | permission :: permissions => do
    let sibling ← ask Answer.number
    let run ← recordMapping run (py "split_permissions") [(permission, sibling)]
    splitPermissions run permissions

/-- `repoint_permissions(run)`: what it records. -/
def repointPermissions (stale : Option RunInstance) : Pass Unit := serialized stale fun run => do
  requireActivated run
  if run.row.journal.stepDone (py "repoint_permissions") then return ()
  else do
    let run ← splitPermissions run (← ask Answer.texts)
    finishStep run (py "repoint_permissions") false

/-- The update that moves history: the Jobs it names are no longer built-in ones. -/
def moveHistory : Pass Unit := .stmt fun _ c w =>
  some (.ok (), { w with jobs := w.jobs.modifyAll fun i job =>
    { job with builtin := job.builtin && !c.ids i } })

/-- `repoint_job_history(run)`: the Jobs it moves and what it records. -/
def repointJobHistory (stale : Option RunInstance) : Pass Unit := serialized stale fun run => do
  requireServing run
  if run.row.journal.stepDone (py "repoint_job_history") then return ()
  else do
    moveHistory
    finishStep run (py "repoint_job_history") (← ask Answer.yes)

/-- Whether a cancelled Job changed. A worker that has dequeued its task has marked it started
before, so this waits for that. -/
def changedAfterCancellation (job : Id) : Pass Bool := .stmt fun _ _ w =>
  if w.taken job ≠ [] then none
  else some (.ok ((w.jobs.row job).any fun row => row.status ≠ .failed ∨ row.started.isSome), w)

/-- `_recreate(run, entry, …)`: the new Job and the record of it, in one transaction. -/
def recreate (run : RunInstance) (job : Id) : Pass RunInstance := .stmt fun _ _ w =>
  match w.runs.row run.pk with
  | none => some (.error .database, w)
  | some row =>
    let new := row.recordMapping (py "recreated_schedules") [(decimal job, w.jobs.next)]
    some (.ok { run with row := { run.row with journal := new.journal } },
      { w with
        jobs := w.jobs.insert ⟨.pending, none, false, some job⟩
        runs := w.runs.modify run.pk fun _ => new })

/-- An entry that may still be replayed. -/
def replayEntry (run : RunInstance) (recreated : List PyStr) (entry : ScheduleEntry) :
    Pass (RunInstance × List PyStr) := do
  let changed ← if entry.cancellation = some .cancelled then changedAfterCancellation entry.jobPk
    else pure false
  -- the script, the time, the user and the form may each refuse the replay
  let replayable ← ask Answer.yes
  if changed ∨ entry.legacyObjectType ≠ py "extras.script" ∨ entry.dropped ≠ [] ∨
      replayable = false then
    return (run, recreated)
  else do
    let run ← recreate run entry.jobPk
    return (run, decimal entry.jobPk :: recreated)

/-- One entry of `recreate_schedules`. `recreated` holds the keys already recreated. -/
def recreateEntry (run : RunInstance) (recreated : List PyStr) (entry : ScheduleEntry) :
    Pass (RunInstance × List PyStr) :=
  if decimal entry.jobPk ∈ recreated ∨ entry.cancellation = some .executed ∨
      entry.cancellation = some .running then pure (run, recreated)
  else replayEntry run recreated entry

/-- The loop over the captured schedules; what refuses a replay, and what it says of it, is in
`Migration/Schedules` (`recreateEntries_refines`). -/
def recreateEntries (run : RunInstance) (recreated : List PyStr) :
    List ScheduleEntry → Pass RunInstance
  | [] => pure run
  | entry :: entries => do
    let (run, recreated) ← recreateEntry run recreated entry
    recreateEntries run recreated entries

/-- `recreate_schedules(run)` -/
def recreateSchedules (stale : Option RunInstance) : Pass Unit := serialized stale fun run => do
  requireServing run
  if run.row.journal.stepDone (py "recreate_schedules") then return ()
  else do
    let recreated := (run.row.journal.mapping (py "recreated_schedules")).map Prod.fst
    let run ← recreateEntries run recreated run.row.journal.schedules
    finishStep run (py "recreate_schedules") (← ask Answer.yes)

/-! ## The cleanup -/

/-- `_REQUIRED_STEPS` -/
def requiredSteps : List PyStr :=
  [py "repoint_event_rules", py "repoint_permissions", py "repoint_job_history",
    py "recreate_schedules"]

/-- The transaction that advances the run and completes its last step. -/
def closeRun (run : RunInstance) (messages : List PyStr) (counts : Json) : Pass Unit :=
  .stmt fun _ _ w =>
    match w.runs.row run.pk, run.row.advance .migrated w.now with
    | some row, some advanced =>
      let row := { row with
        state := advanced.state
        cutoverStarted := advanced.cutoverStarted
        completed := advanced.completed }
      let row := (row.recordWarnings (run.row.warnings ++ messages)).recordStep (py "cleanup") counts
      some (.ok (), { w with runs := w.runs.modify run.pk fun _ => row })
    | some _, none => some (.error .validation, w)
    | none, _ => some (.error .database, w)

/-- `retire_legacy(run)`, less the modules it deletes. -/
def retireLegacy (stale : Option RunInstance) : Pass Unit := serialized stale fun run => do
  if run.row.journal.stepDone (py "cleanup") then return ()
  else do
    requireStaged run
    require (requiredSteps.all run.row.journal.stepDone) .refused
    let blocked ← ask Answer.yes
    let messages ← ask Answer.texts
    let counts ← ask Answer.value
    if blocked then do
      let _ ← recordWarnings run messages
    else closeRun run messages counts

/-! ## Jobs -/

/-- A user or a recurring run submits a built-in Custom Script: the row, then its task. -/
def submit : Pass Unit := do
  let job ← .stmt fun _ c w =>
    some (.ok w.jobs.next, { w with
      jobs := w.jobs.insert ⟨if c.yes then .scheduled else .pending, none, true, none⟩ })
  .stmt fun _ _ w => some (.ok (), { w with queue := Function.update w.queue job true })

/-- RQ's scheduler queues a task that it fetched before. -/
def queueTask (job : Id) : Pass Unit := .stmt fun _ _ w =>
  some (.ok (), { w with queue := Function.update w.queue job true })

/-- A worker dequeues a task. No finished or failed Job is requeued, so its Job waits. -/
def dequeue (job : Id) : Pass Unit := .stmt fun t _ w =>
  if w.queue job && (w.jobs.row job).any fun row => row.status.cancellable && row.started.isNone then
    some (.ok (), { w with
      queue := Function.update w.queue job false
      taken := Function.update w.taken job (t :: w.taken job) })
  else none

/-- `Job.start()` -/
def startJob (job : Id) : Pass Unit := .stmt fun t _ w =>
  some (.ok (), { w with
    jobs := w.jobs.modify job fun row =>
      if row.started.isSome then row else { row with status := .running, started := some w.now }
    taken := Function.update w.taken job ((w.taken job).filter (· ≠ t)) })

/-- `Job.terminate(status)` -/
def finishJob (job : Id) : Pass Unit := .stmt fun _ c w =>
  some (.ok (), { w with
    jobs := w.jobs.modify job fun row =>
      if row.status = .running ∧ c.status.cancellable = false then { row with status := c.status }
      else row })

/-- A worker runs a Job. -/
def work (job : Id) : Pass Unit := do
  dequeue job
  startJob job
  finishJob job

end Migration

end NetBoxScripts
