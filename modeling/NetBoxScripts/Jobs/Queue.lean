import NetBoxScripts.Concurrency.History
import NetBoxScripts.Concurrency.Pool
import NetBoxScripts.Database.World
import NetBoxScripts.Execution.RunScript
import NetBoxScripts.Jobs.Settings
import NetBoxScripts.Runtime.Resolution
import NetBoxScripts.Validation.Run

/-!
# Script runs

`NetBoxScriptJob` (`jobs.py`): a run is requested, becomes a Job row and a task of the queue, and
is executed by a worker later; of a recurring run NetBox queues one occurrence after another.
Meanwhile scripts, projects and revisions change, and any process may die.

NetBox, the queue and the code of a project are outside: what they answer is a choice at each
statement, and NetBox may queue the next occurrence of a recurring Job at any time. It also deletes
the Job rows of a script or a project with it, of which the queue is not told.

## Main definitions

* `RunsState`: the tables, the Job rows, the tasks, and what was executed
* `RunsState.present`: the Job rows that NetBox has not deleted
* `enqueueRun`, `enqueue`, `runTask`: the methods of `NetBoxScriptJob`
* `RunOp`, `runs`: what is done, and the system of any number of it
-/

namespace NetBoxScripts

/-! ## States -/

/-- The tables that a run reads. -/
structure Tables where
  world : World
  overrides : Id → ScriptOverrides

/-- What other processes do to the tables: they insert and delete revisions and change them, but a
key is not given out twice and a revision keeps its digest. -/
structure Tables.Later (before after : Tables) : Prop where
  next : before.world.revisions.next ≤ after.world.revisions.next
  gone : ∀ r < before.world.revisions.next, before.world.revisions.row r = none →
    after.world.revisions.row r = none
  digest : ∀ r row row', before.world.revisions.row r = some row →
    after.world.revisions.row r = some row' → row'.digest = row.digest

/-- The revisions are what they were. -/
theorem Tables.Later.of_revisions {before after : Tables}
    (h : after.world.revisions = before.world.revisions) : before.Later after := by
  refine ⟨by rw [h], fun r _ hrow => by rw [h, hrow], fun r row row' hrow hrow' => ?_⟩
  rw [h, hrow] at hrow'
  cases hrow'
  rfl

theorem Tables.Later.refl (tables : Tables) : tables.Later tables := .of_revisions rfl

theorem Tables.Later.trans {a b c : Tables} (h : a.Later b) (h' : b.Later c) : a.Later c where
  next := h.next.trans h'.next
  gone r hr hrow := h'.gone r (hr.trans_le h.next) (h.gone r hr hrow)
  digest r row row' hrow hrow' := by
    have hr : r < b.world.revisions.next :=
      (Table.lt_next_of_row hrow).trans_le h.next
    cases hmiddle : b.world.revisions.row r with
    | none =>
      rw [h'.gone r hr hmiddle] at hrow'
      cases hrow'
    | some middle =>
      exact (h'.digest r middle row' hmiddle hrow').trans (h.digest r row middle hrow hmiddle)

/-- A change that other processes make. -/
structure TablesChange where
  apply : Tables → Tables
  later : ∀ tables : Tables, tables.Later (apply tables)

/-- What was asked for when a run was requested. No code reads it. -/
structure Asked where
  modulePath : PyStr
  className : PyStr
  commit : Bool
  event : Option (Dict Json)
  data : Option (Dict InputValue)
  request : Option RunRequest
  user : Option Id
  notifications : Option PyStr
  jobTimeout : Option (Option ℤ)

/-- A Job row of a run. -/
structure RunJob where
  script : Id
  user : Option Id
  scheduleAt : Option Time
  interval : Option ℕ
  notifications : PyStr
  jobTimeout : Option ℤ
  data : Dict Json
  /-- The identity that the row was created with. Not a column: it goes into `data`. -/
  payload : RunPayload
  /-- What the first request asked for. Not a column. -/
  asked : Asked
  /-- The moments at which its creation began and ended. Not columns. -/
  since : ℕ
  created : ℕ

/-- `if job.interval` -/
def isRecurring (interval : Option ℕ) : Bool := interval.getD 0 ≠ 0

/-- What a worker gets with a task. -/
structure RunTask where
  payload : RunPayload
  data : Option (Dict InputValue)
  request : Option RunRequest
  notificationsInherited : Option Bool

/-- A class that was run. -/
structure Execution where
  job : Id
  revision : Id
  digest : PyStr
  modulePath : PyStr
  className : PyStr
  commit : Bool
  values : Dict InputValue
  /-- The moments at which the run began and at which it came to the class. -/
  began : ℕ
  reached : ℕ

/-- The shared state: the tables, with the history that no code reads, the Job rows, the tasks of
the queue, and what was executed, which no code reads either. A Job row that is gone stands here as
it last was. -/
structure RunsState where
  history : History Tables
  jobs : Table RunJob
  gone : Id → Bool
  tasks : Id → Option RunTask
  executions : List Execution

namespace RunsState

/-- The present tables. -/
def tables (s : RunsState) : Tables := s.history.now

/-- The number of the present moment. -/
def moment (s : RunsState) : ℕ := s.history.moment

/-- The row of a Job in the database. -/
def present (s : RunsState) (job : Id) : Option RunJob :=
  if s.gone job then none else s.jobs.row job

end RunsState

/-! ## Programs -/

/-- What a statement meets outside: why the routing is unsafe; what the classes of a revision are
and what importing its files gives, or why its source is out of reach; the root of the runtime
cache; the run itself; and whether NetBox saves a Job whose row is gone as a new row. -/
structure RunChoice (Cls Database : Type) where
  routing : Option PyStr
  facts : Cls → ClassFacts
  discover : PyStr → Except Raised (List Cls)
  unreachable : Bool
  cacheRoot : Option PyStr
  site : Site
  body : Cls → Dict InputValue → Body Database
  before : RunState Database
  writesBack : Bool

/-- How a method of `NetBoxScriptJob` ends, if it does not return. -/
inductive RunFailure
  | valueError (text : PyStr)
  | runtimeError
  | improperlyConfigured (text : PyStr)
  | notExecutable (text : PyStr)
  | validationError (text : PyStr)
  | doesNotExist
  | typeError
  | storageError
  | jobFailed
  /-- a `BaseException` of the run -/
  | raised (error : RunError)

/-- A program of one process. -/
abbrev RunProg (Cls Database : Type) := Prog RunsState (RunChoice Cls Database) RunFailure

/-- The arguments of `enqueue_run`. -/
structure RunArgs where
  data : Option (Dict InputValue)
  commit : Bool
  request : Option RunRequest
  user : Option Id
  scheduleAt : Option Time
  interval : Option ℕ
  notifications : Option PyStr
  event : Option (Dict Json)
  immediate : Bool
  jobTimeout : Option (Option ℤ)
  /-- The caller holds an open transaction. -/
  inTransaction : Bool

/-- The keyword arguments of `enqueue`, as far as they are given. -/
structure EnqueueArgs where
  script : Id
  user : Option Id
  scheduleAt : Option Time
  interval : Option ℕ
  notifications : Option PyStr
  notificationsInherited : Option Bool
  jobTimeout : Option (Option ℤ)
  revisionId : Option Id
  revisionDigest : Option PyStr
  modulePath : Option PyStr
  className : Option PyStr
  commit : Option Bool
  event : Option (Dict Json)
  data : Option (Dict InputValue)
  request : Option RunRequest
  immediate : Bool

section Programs

variable {Cls Database : Type}

/-- `filter(pk=pk).first()` -/
def loadScript (pk : Id) : RunProg Cls Database (Option LoadedScript) := .query fun s =>
  (s.tables.world.scripts.row pk).map fun row => ⟨pk, row, s.tables.overrides pk⟩

/-- `script.project` and `revision.project` -/
def loadProject (p : Id) : RunProg Cls Database ProjectRow := .stmt fun _ _ s =>
  some ((s.tables.world.projects.row p).elim (.error .doesNotExist) .ok, s)

/-- `filter(pk=r).first()` -/
def loadRevision (r : Id) : RunProg Cls Database (Option RevisionRow) := .query fun s =>
  s.tables.world.revisions.row r

/-- `project.active_revision` -/
def activeRevisionOf (project : ProjectRow) : RunProg Cls Database (Option (Id × RevisionRow)) :=
  match project.activeRevision with
  | none => pure none
  | some r => do
    match ← loadRevision r with
    | none => .raise .doesNotExist
    | some row => pure (some (r, row))

/-- `None if interval else script.project.active_revision` -/
def pinnedRevision (interval : Option ℕ) (project : ProjectRow) :
    RunProg Cls Database (Option (Id × RevisionRow)) :=
  if isRecurring interval then pure none else activeRevisionOf project

/-- `unsafe_routing_reason()` -/
def unsafeRoutingReason : RunProg Cls Database (Option PyStr) := .stmt fun _ c s =>
  some (.ok c.routing, s)

/-- `ROUTING_HINT` -/
def routingHint : PyStr :=
  py "Use a NetBox Branching release that exposes the supports_branching API, since this plugin " ++
    py "cannot confirm the routing without it. If these models are still routed to a branch, " ++
    py "add the labels to PLUGINS_CONFIG['netbox_branching']['exempt_models']: " ++
    py "\"netbox_scripts.netboxscript\", " ++ py "\"netbox_scripts.scriptfile\", " ++
    py "\"netbox_scripts.scriptproject\", " ++ py "\"netbox_scripts.scriptprojectrevision\", " ++
    py "\"netbox_scripts.migrationrun\"."

/-- `require_safe_routing()` -/
def requireSafeRouting : RunProg Cls Database Unit := do
  match ← unsafeRoutingReason with
  | some reason => .raise (.improperlyConfigured (reason ++ py " " ++ routingHint))
  | none => pure ()

/-- The check of `is_executable`, with the project it read. -/
def requireExecutable (script : LoadedScript) : RunProg Cls Database ProjectRow :=
  match script.ownRefusal with
  | some reason => .raise (.notExecutable (script.notExecutable reason))
  | none => do
    let project ← loadProject script.row.project
    match project.refusal with
    | some reason => .raise (.notExecutable (script.notExecutable reason))
    | none => pure project

/-- The row and the task that `enqueue` makes: the settings and the uploads are refused before
there is a row. -/
def prepareRun (script : LoadedScript) (kwargs : EnqueueArgs) (asked : Asked) (since : ℕ) :
    Except RunFailure (RunJob × RunTask) := do
  let recurring := isRecurring kwargs.interval
  let inherited := recurring && kwargs.notificationsInherited.getD true
  let (timeout, policy) ← (script.runSettings
    (if inherited then none else kwargs.notifications)).mapError .validationError
  let payload : RunPayload :=
    { revisionId := if recurring then none else kwargs.revisionId
      revisionDigest := if recurring then none else kwargs.revisionDigest
      modulePath := kwargs.modulePath.getD script.row.modulePath
      className := kwargs.className.getD script.row.className
      commit := kwargs.commit.getD script.commitDefault
      event := kwargs.event }
  let uploads := uploadsOf kwargs.data kwargs.request
  if recurring && uploads.any InputValue.isUpload then
    .error (.validationError
      (py "File uploads are not supported for recurring runs, so nothing was queued. Remove the " ++
        py "upload or run the Script once."))
  else if uploads.any InputValue.isTemporary then
    .error (.validationError
      (py "This request carries an upload held in a temporary file. A background Script " ++
        py "run supports only an upload small enough to stay in memory, so nothing was " ++
        py "queued."))
  else
    return ({ script := script.pk, user := kwargs.user, scheduleAt := kwargs.scheduleAt
              interval := kwargs.interval
              notifications := if inherited then policy else kwargs.notifications.getD policy
              jobTimeout := kwargs.jobTimeout.getD timeout
              data := rowData payload, payload, asked, since, created := since },
      { payload, data := kwargs.data, request := kwargs.request
        notificationsInherited := kwargs.notificationsInherited })

/-- The row, committed with its data. -/
def insertJob (row : RunJob) : RunProg Cls Database Id := .stmt fun _ _ s =>
  some (.ok s.jobs.next, { s with jobs := s.jobs.insert { row with created := s.moment } })

/-- The task, handed over once the row is committed. -/
def queueTask (job : Id) (task : RunTask) : RunProg Cls Database Unit := .stmt fun _ _ s =>
  some (.ok (), { s with tasks := Function.update s.tasks job (some task) })

/-- `enqueue(...)` -/
def enqueue (kwargs : EnqueueArgs) (asked : Asked) (since : ℕ) : RunProg Cls Database Unit :=
  if kwargs.immediate then
    .raise (.valueError
      (py "Use enqueue_run(immediate=True) for synchronous Script execution."))
  else do
    match ← loadScript kwargs.script with
    | none =>
      .raise (.validationError
        (py "The Script no longer exists, so the run cannot be scheduled."))
    | some script =>
      let (row, task) ← .ofExcept (prepareRun script kwargs asked since)
      let job ← insertJob row
      queueTask job task

/-- The checks of `enabled`, with the project that was read. -/
def requireEnabled : Option LoadedScript → RunProg Cls Database (Option ProjectRow)
  | none => pure none
  | some script =>
    if script.row.enabled = false then .raise .jobFailed
    else do
      let project ← loadProject script.row.project
      if project.enabled = false then .raise .jobFailed else pure (some project)

/-- `_revision_for(revision_id, script, module_path, class_name)` -/
def revisionFor (pin : Option Id) (project : Option ProjectRow) :
    RunProg Cls Database (Id × RevisionRow) :=
  match pin with
  | none =>
    match project with
    | none => .raise .jobFailed
    | some project => do
      match ← activeRevisionOf project with
      | none => .raise .jobFailed
      | some revision => pure revision
  | some r => do
    match ← loadRevision r with
    | none => .raise .jobFailed
    | some row => pure (r, row)

/-- `_resolve(...)` -/
def resolveRun (row : RevisionRow) (payload : RunPayload) : RunProg Cls Database Cls :=
  .stmt fun _ c s =>
    some (if c.unreachable then .error .jobFailed
      else match resolveScriptClass c.facts c.discover row.discoveredScripts
          (payload.modulePath, payload.className) with
        | .error _ => .error .jobFailed
        | .ok cls => .ok cls, s)

/-- `build_error_sanitizer(storage_key, revision.digest)` -/
def runSanitizer (key : StorageKey) (digest : PyStr) : RunProg Cls Database (PyStr → PyStr) :=
  .stmt fun _ c s =>
    some ((buildErrorSanitizer c.cacheRoot key digest).elim (.error .storageError) .ok, s)

/-- A new instance of a class. -/
def ScriptInstance.fresh : ScriptInstance := ⟨[], false, none, 0⟩

/-- `run_script(instance, ...)` of a new instance: its log and output, and what was raised. -/
def execute (cls : Cls) (execution : Execution) (request : Option RunRequest) :
    RunProg Cls Database (ScriptInstance × Option RunError) := .stmt fun _ c s =>
  let ended := runScript c.site (c.body cls execution.values) execution.commit
    (request.map RunRequest.number) { c.before with script := .fresh }
  some (.ok (ended.1.script, ended.2),
    { s with executions := s.executions ++ [{ execution with reached := s.moment }] })

/-- The status of a record, as it is stored. -/
def LogLevel.text : LogLevel → PyStr
  | .info => py "info"
  | .warning => py "warning"
  | .failure => py "failure"

/-- What `_run_class` adds to the data of a Job. -/
def runRecord (sanitize : PyStr → PyStr) (instance' : ScriptInstance) (digest : PyStr) :
    Dict Json :=
  [(py "log", .arr (instance'.messages.map fun entry =>
      .obj [(py "status", .str entry.status.text), (py "message", .str (sanitize entry.message))])),
    (py "output", instance'.output.elim .null fun output => .str (sanitize output)),
    (py "revision_digest", .str digest)]

/-- The result joins the pin on the Job, which NetBox saves. -/
def recordRun (job : Id) (entries : Dict Json) : RunProg Cls Database Unit := .stmt fun _ c s =>
  some (.ok (),
    if (s.present job).isNone && !c.writesBack then s
    else { s with
      jobs := s.jobs.modify job fun row => { row with data := row.data.update entries }
      gone := Function.update s.gone job false })

/-- `_run_class(...)`: the class is run, and what it left is recorded either way. -/
def runClass (cls : Cls) (execution : Execution) (request : Option RunRequest)
    (sanitize : PyStr → PyStr) : RunProg Cls Database Unit := do
  let (instance', raised) ← execute cls execution request
  recordRun execution.job (runRecord sanitize instance' execution.digest)
  match raised with
  | none => pure ()
  | some error => .raise (if error.isException then .jobFailed else .raised error)

/-- `run(...)` of the Job, which is on the script `script`. -/
def runTask (job script : Id) (task : RunTask) : RunProg Cls Database Unit := do
  let began ← .query RunsState.moment
  match ← unsafeRoutingReason with
  | some _ => .raise .jobFailed
  | none =>
    let loaded ← loadScript script
    let project ← requireEnabled loaded
    let (r, row) ← revisionFor task.payload.revisionId project
    let owner ← loadProject row.project
    match row.digest with
    | none => .raise .typeError
    | some digest =>
      let sanitize ← runSanitizer owner.storageKey digest
      let cls ← resolveRun row task.payload
      match task.data with
      | none => .raise .jobFailed -- `dict(data)`
      | some data =>
        runClass cls
          { job, revision := r, digest, modulePath := task.payload.modulePath
            className := task.payload.className, commit := task.payload.commit
            values := runValues data task.request, began, reached := began }
          task.request sanitize

/-- `_run_now(...)`: a pinned row, and the run in this process, whose failure stays on the row. -/
def runNow (script : Id) (payload : RunPayload) (args : RunArgs) (policy : PyStr) (asked : Asked)
    (since : ℕ) : RunProg Cls Database Unit :=
  if args.inTransaction then .raise .runtimeError
  else do
    let job ← insertJob
      { script, user := args.user, scheduleAt := none, interval := none, notifications := policy
        jobTimeout := none, data := rowData payload, payload, asked, since, created := since }
    let _ ← (runTask job script
      { payload, data := args.data, request := args.request
        notificationsInherited := none }).attempt
    pure ()

/-- `enqueue_run(script, ...)` -/
def enqueueRun (pk : Id) (args : RunArgs) : RunProg Cls Database Unit := do
  let since ← .query RunsState.moment
  match ← loadScript pk with
  | none => .raise .doesNotExist
  | some script =>
    if args.immediate && (args.scheduleAt.isSome || isRecurring args.interval) then
      .raise (.valueError (py "An immediate run cannot also be deferred or repeated."))
    else
      requireSafeRouting
      let project ← requireExecutable script
      let revision ← pinnedRevision args.interval project
      let payload : RunPayload :=
        { revisionId := revision.map Prod.fst
          revisionDigest := revision.bind fun revision => revision.2.digest
          modulePath := script.row.modulePath, className := script.row.className
          commit := args.commit, event := args.event }
      let (timeout, policy) ← .ofExcept ((script.runSettings args.notifications).mapError
        RunFailure.validationError)
      let asked : Asked :=
        { modulePath := script.row.modulePath, className := script.row.className
          commit := args.commit, event := args.event, data := args.data, request := args.request
          user := args.user, notifications := args.notifications, jobTimeout := args.jobTimeout }
      if args.immediate then runNow pk payload args policy asked since
      else
        enqueue
          { script := pk, user := args.user, scheduleAt := args.scheduleAt
            interval := args.interval
            -- `setdefault` of the policy, and of a timeout that is set
            notifications := some policy
            notificationsInherited := some args.notifications.isNone
            jobTimeout := args.jobTimeout.or (timeout.map some)
            revisionId := payload.revisionId, revisionDigest := payload.revisionDigest
            modulePath := some payload.modulePath, className := some payload.className
            commit := some payload.commit, event := payload.event, data := args.data
            request := args.request, immediate := false }
          asked since

/-- The task of a Job, with the Job as it was handed over. -/
def takeTask (job : Id) : RunProg Cls Database (RunJob × RunTask) := .stmt fun _ _ s => do
  let row ← s.jobs.row job
  let task ← s.tasks job
  return (.ok (row, task), s)

/-- NetBox saves the Job as started: one whose row is gone is a row again, or the start fails. -/
def startJob (job : Id) : RunProg Cls Database Unit := .stmt fun _ c s =>
  if (s.present job).isNone && !c.writesBack then some (.error .doesNotExist, s)
  else some (.ok (), { s with gone := Function.update s.gone job false })

/-- A worker takes the task of a Job. -/
def occurrence (job : Id) : RunProg Cls Database Unit := do
  let (row, task) ← takeTask job
  startJob job
  runTask job row.script task

/-- NetBox queues the next occurrence of a recurring Job: with what the task was given, and with
the notifications of its row. -/
def reschedule (job : Id) (scheduleAt : Option Time) : RunProg Cls Database Unit := do
  let since ← .query RunsState.moment
  let (row, task) ← takeTask job
  if isRecurring row.interval then
    enqueue
      { script := row.script, user := row.user, scheduleAt, interval := row.interval
        notifications := some row.notifications
        notificationsInherited := task.notificationsInherited, jobTimeout := none
        revisionId := task.payload.revisionId, revisionDigest := task.payload.revisionDigest
        modulePath := some task.payload.modulePath, className := some task.payload.className
        commit := some task.payload.commit, event := task.payload.event, data := task.data
        request := task.request, immediate := false }
      row.asked since

/-- NetBox deletes Job rows, or tasks. -/
def removal (rows tasks : Id → Bool) : RunProg Cls Database Unit := .stmt fun _ _ s =>
  some (.ok (), { s with
    gone := fun job => s.gone job || (rows job && (s.jobs.row job).isSome)
    tasks := fun job => if tasks job then none else s.tasks job })

/-- Another process changes the tables. -/
def elsewhere (change : TablesChange) : RunProg Cls Database Unit := .stmt fun _ _ s =>
  some (.ok (), { s with history := s.history.push (change.apply s.tables) })

/-- What is done. -/
inductive RunOp
  | request (script : Id) (args : RunArgs)
  | occurrence (job : Id)
  | reschedule (job : Id) (scheduleAt : Option Time)
  | elsewhere (change : TablesChange)
  | removal (rows tasks : Id → Bool)

variable (Cls Database) in
/-- Any number of these, any of which may end at any point. -/
def runs : System RunsState (RunChoice Cls Database) RunFailure RunOp where
  body
    | .request script args => enqueueRun script args
    | .occurrence job => occurrence job
    | .reschedule job scheduleAt => reschedule job scheduleAt
    | .elsewhere change => elsewhere change
    | .removal rows tasks => removal rows tasks
  reap _ s := s
  tick s := s

end Programs

end NetBoxScripts
