import NetBoxScripts.Execution.Blocks
import NetBoxScripts.Python.Text

/-!
# Running a script

`run_script` of `execution.py`: the request processors around a run, the two transactions inside
them, the exception that reverts a dry run, and what is logged of any other.

NetBox and the other plugins are parameters: the exceptions, and what formatting one gives; the
processors of the registry; the branching that a site has; and where the router sends a
change-logged write. The body of a script is any sequence of writes and of queued events, and the
value or the exception it ends with.

## Main definitions

* `RunState`: the databases, the script instance, the event queue and the request context
* `Body`: what the `run` of a script does
* `Site`: what a run finds around it
* `call`, `executeScript`, `runProcessors`, `runScript`: the run
-/

namespace NetBoxScripts

/-! ## Exceptions -/

/-- What `execution.py` asks of the class of an exception. -/
inductive ErrorKind
  /-- one of `ABORT_EXCEPTIONS` -/
  | abort
  /-- `_DryRunRollback` -/
  | dryRunRollback
  /-- any other `Exception` -/
  | exception
  /-- a `BaseException` that is no `Exception` -/
  | baseException
  deriving DecidableEq, Repr

/-- An exception: its class, and what it was made with. -/
structure RunError where
  kind : ErrorKind
  className : PyStr
  args : PyStr
  deriving DecidableEq, Repr

/-- `isinstance(error, Exception)` -/
def RunError.isException (error : RunError) : Bool := error.kind ≠ .baseException

/-- `_DryRunRollback()` -/
def dryRunRollback : RunError := ⟨.dryRunRollback, py "_DryRunRollback", []⟩

/-- The refusal of a run that could not be rolled back. -/
def improperlyConfigured (reason branch : PyStr) : RunError where
  kind := .exception
  className := py "ImproperlyConfigured"
  args := reason ++ py " Branch " ++ branch ++
    py " is active, so changes this run makes could not be rolled back with it."

/-! ## States -/

/-- A log level a run uses. -/
inductive LogLevel
  | info
  | warning
  | failure
  deriving DecidableEq, Repr

/-- A record of the run log. -/
structure LogRecord where
  status : LogLevel
  message : PyStr
  deriving DecidableEq, Repr

/-- A script instance, and how often its `run` was called. -/
structure ScriptInstance where
  messages : List LogRecord
  failed : Bool
  output : Option PyStr
  calls : ℕ
  deriving DecidableEq, Repr

/-- `DEFAULT_DB_ALIAS` -/
def defaultDbAlias : PyStr := py "default"

/-- What a run works on. A request is known by a number. -/
structure RunState (Database : Type) where
  databases : PyStr → Database
  script : ScriptInstance
  /-- `events_queue` -/
  queue : List PyStr
  /-- the events that event tracking has delivered -/
  delivered : List PyStr
  /-- `current_request` -/
  currentRequest : Option ℕ

variable {Database : Type}

/-- The databases, by their aliases. -/
def databaseStore (Database : Type) : Store (RunState Database) PyStr Database where
  get s := s.databases
  put s key data := { s with databases := Function.update s.databases key data }
  get_put _ _ _ := rfl

/-- `BaseScript._log`, of a record without an object. -/
def ScriptInstance.log (script : ScriptInstance) (status : LogLevel) (message : PyStr) :
    ScriptInstance :=
  if message = [] then script
  else { script with messages := script.messages ++ [⟨status, message⟩] }

/-- `log_info`, `log_warning` and `log_failure`. -/
def RunState.log (s : RunState Database) (status : LogLevel) (message : PyStr) :
    RunState Database :=
  let script := s.script.log status message
  { s with script := { script with failed := script.failed || status = .failure } }

/-! ## Bodies -/

/-- Where a body writes: to the default database, or where a change-logged write is routed. -/
inductive Target
  | default
  | changelogged
  deriving DecidableEq, Repr

/-- The alias a write goes to. -/
def Target.alias (target : Target) (changeloggedAlias : PyStr) : PyStr :=
  match target with
  | .default => defaultDbAlias
  | .changelogged => changeloggedAlias

/-- What a body does on its way. -/
inductive BodyStep (Database : Type)
  | write (target : Target) (change : Database → Database)
  | queueEvent (event : PyStr)

/-- The `run` of a script: its steps, and the value or the exception it ends with. -/
structure Body (Database : Type) where
  steps : List (BodyStep Database)
  ends : Except RunError PyStr

/-- One step of a body. -/
def BodyStep.apply (step : BodyStep Database) (changeloggedAlias : PyStr) (s : RunState Database) :
    RunState Database :=
  match step with
  | .write target change =>
    let key := target.alias changeloggedAlias
    { s with databases := Function.update s.databases key (change (s.databases key)) }
  | .queueEvent event => { s with queue := s.queue ++ [event] }

/-- The steps of a body, in their order. -/
def Body.apply (body : Body Database) (changeloggedAlias : PyStr) (s : RunState Database) :
    RunState Database :=
  body.steps.foldl (fun s step => step.apply changeloggedAlias s) s

/-! ## Sites -/

/-- A context manager of another plugin: how it starts, what it does to the request context, and
what it makes of what its block raised. -/
structure PluginManager where
  start : Option RunError
  entering : Option ℕ → Option ℕ
  leaving : Option ℕ → Option ℕ
  close : Option RunError → Option RunError

/-- A request processor of the registry. What event tracking raises when it cannot start, and when
its flush fails. -/
inductive Processor
  | eventTracking (start flush : Option RunError)
  | plugin (manager : PluginManager)

/-- `processor is event_tracking` -/
def Processor.isEventTracking : Processor → Bool
  | .eventTracking _ _ => true
  | .plugin _ => false

/-- What NetBox and its plugins give a run: the processors of the registry, what
`deactivate_branch` is, what the probe, the branch and the router say, and how an exception reads
as text and in a traceback. -/
structure Site where
  requestProcessors : List Processor
  deactivation : PluginManager
  probeUnusableReason : Except RunError (Option PyStr)
  activeBranchName : Except RunError (Option PyStr)
  dbForWrite : Except RunError PyStr
  str : RunError → Except RunError PyStr
  formatExc : RunError → PyStr

/-- A context manager of another plugin, as a manager. -/
def PluginManager.manager (plugin : PluginManager) : Manager (RunState Database) RunError where
  enter s := ({ s with currentRequest := plugin.entering s.currentRequest }, plugin.start)
  exit raised s :=
    ({ s with currentRequest := plugin.leaving s.currentRequest }, plugin.close raised)

/-- A processor, as the manager it is for a request. Event tracking delivers its queue when its
block ends without an exception, and an exception passes it at its `yield`. -/
def Processor.manager (processor : Processor) (request : Option ℕ) :
    Manager (RunState Database) RunError :=
  match processor with
  | .plugin other => other.manager
  | .eventTracking start flush =>
    { enter := fun s =>
        match start with
        | some error => (s, some error)
        | none => ({ s with currentRequest := request, queue := [] }, none)
      exit := fun raised s =>
        match raised with
        | some error => (s, some error)
        | none =>
          ({ s with delivered := s.delivered ++ s.queue, queue := [], currentRequest := none },
            flush) }

/-! ## The run -/

/-- `_call(instance, data, commit)` -/
def call (body : Body Database) (commit : Bool) (changeloggedAlias : PyStr) :
    Block (RunState Database) RunError := fun s =>
  let s := body.apply changeloggedAlias
    { s with script := { s.script with calls := s.script.calls + 1 } }
  match body.ends with
  | .error error => (s, some error)
  | .ok output =>
    let s := { s with script := { s.script with output := some output } }
    if commit then (s, none) else (s, some dryRunRollback)

/-- The two transactions of `_execute`. -/
def transactions (changeloggedAlias : PyStr) (block : Block (RunState Database) RunError) :
    Block (RunState Database) RunError :=
  Block.atomic (databaseStore Database) defaultDbAlias
    (if changeloggedAlias ≠ defaultDbAlias then
      Block.atomic (databaseStore Database) changeloggedAlias block
    else block)

/-- `_log_failure(instance, error)`, which raises what formatting the error raises. -/
def logFailure (site : Site) (error : RunError) : Block (RunState Database) RunError := fun s =>
  match site.str error with
  | .error raised => (s, some raised)
  | .ok text =>
    if error.kind = .abort then
      (s.log .failure (py "The script stopped with an error: " ++ text), none)
    else
      (s.log .failure (py "An exception occurred: `" ++ error.className ++ py ": " ++ text ++
        py "`" ++ py "\n```\n" ++ site.formatExc error ++ py "\n```"), none)

/-- The text of a value, when it is true. -/
def truthy (text : Option PyStr) : Option PyStr := text.filter (· ≠ [])

/-- What `_execute` does before its transactions: the warning it logs, and the alias of a
change-logged write or what it raises. -/
def prepare (site : Site) : Option PyStr × Except RunError PyStr :=
  match site.probeUnusableReason with
  | .error error => (none, .error error)
  | .ok reason =>
    match truthy reason with
    | none => (none, site.dbForWrite)
    | some reason =>
      match site.activeBranchName with
      | .error error => (none, .error error)
      | .ok branch =>
        match truthy branch with
        | some branch => (none, .error (improperlyConfigured reason branch))
        | none => (some reason, site.dbForWrite)

/-- What the log of a dry run ends with. -/
def dryRunReverted : PyStr := py "Database changes have been reverted, this was a dry run."

/-- What the log of a run that raised ends with. -/
def unfinishedReverted : PyStr :=
  py "Database changes have been reverted because the run did not finish."

/-- The state in which a run enters its transactions. -/
def RunState.warned (s : RunState Database) (warning : Option PyStr) : RunState Database :=
  match warning with
  | some reason => s.log .warning reason
  | none => s

/-- The outer `try` of `_execute`, with the inner one in it. -/
def attemptScript (site : Site) (body : Body Database) (commit : Bool) :
    Block (RunState Database) RunError := fun s =>
  let s := s.warned (prepare site).1
  match (prepare site).2 with
  | .error error => (s, some error)
  | .ok changeloggedAlias =>
    match transactions changeloggedAlias (call body commit changeloggedAlias) s with
    | (s, none) => (s, none)
    | (s, some error) =>
      if error.kind = .dryRunRollback then
        (s.log .info dryRunReverted, none)
      else (s, some error)

/-- `_execute(instance, data, commit, request)` -/
def executeScript (site : Site) (body : Body Database) (commit : Bool) (request : Option ℕ) :
    Block (RunState Database) RunError := fun s =>
  match attemptScript site body commit s with
  | (s, none) => (s, none)
  | (s, some error) =>
    if error.isException then
      match logFailure site error s with
      | (s, some raised) => (s, some raised)
      | (s, none) =>
        let s := s.log .info unfinishedReverted
        (if request.isSome then { s with queue := [] } else s, some error)
    else (s, some error)

/-- The loop of `run_script` over the registry, and what its stack surrounds. -/
def runProcessors (request : Option ℕ) (commit : Bool) (processors : List Processor)
    (block : Block (RunState Database) RunError) : Block (RunState Database) RunError :=
  match processors with
  | [] => block
  | processor :: rest => fun s =>
    if !commit && processor.isEventTracking then runProcessors request commit rest block s
    else
      match (processor.manager request).enter s with
      | (s, none) =>
        let ended := runProcessors request commit rest block s
        (processor.manager request).exit ended.2 ended.1
      | (s, some error) =>
        if error.isException && !processor.isEventTracking then
          runProcessors request commit rest block s
        else (s, some error)

/-- `run_script(instance, data, commit, request)` -/
def runScript (site : Site) (body : Body Database) (commit : Bool) (request : Option ℕ) :
    Block (RunState Database) RunError := fun s =>
  let ended := runProcessors request commit site.requestProcessors
    (Block.within site.deactivation.manager (executeScript site body commit request)) s
  ({ ended.1 with currentRequest := s.currentRequest }, ended.2)

end NetBoxScripts
