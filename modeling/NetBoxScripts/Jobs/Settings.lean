import NetBoxScripts.Python.Dict
import NetBoxScripts.Runtime.Introspection

/-!
# Settings of a run

What a `NetBoxScript` row says of a run (`models/scripts.py`), and what one run is given and
records (`jobs.py`): an operator's override wins over what the class declares, and the row of a
Job keeps the identity of what runs but no object snapshot and no input.

## Main definitions

* `LoadedScript.runSettings`, `LoadedScript.runRefusalReason`: the settings, and why a script does
  not run
* `InputValue`, `RunRequest`: what a run is given
* `RunPayload`, `rowData`: what a Job row keeps of it

## Main results

* `runSettings_eq_ok`: the settings that a run is queued with
* `rowData_without_snapshots`: no snapshot is kept
-/

namespace NetBoxScripts

/-! ## Scripts -/

/-- The columns in which an operator overrides what the class of a `NetBoxScript` declares. -/
structure ScriptOverrides where
  commitDefault : Option Bool
  jobTimeout : Option ℕ
  notificationsDefault : PyStr
  deriving DecidableEq, Repr

/-- A `NetBoxScript`, as it was loaded. -/
structure LoadedScript where
  pk : Id
  row : ScriptRow
  overrides : ScriptOverrides
  deriving DecidableEq, Repr

/-- The first of these texts that is true. -/
def firstTrue (texts : List PyStr) : PyStr := (texts.find? (· ≠ [])).getD []

namespace LoadedScript

variable (script : LoadedScript)

/-- `commit_default` -/
def commitDefault : Bool := script.overrides.commitDefault.getD script.row.metadata.commitDefault

/-- `job_timeout` -/
def jobTimeout : Option ℤ :=
  (script.overrides.jobTimeout.map fun n => (n : ℤ)).or script.row.metadata.jobTimeout

/-- `notifications_default` -/
def notificationsDefault : PyStr :=
  firstTrue [script.overrides.notificationsDefault, script.row.metadata.notificationsDefault,
    py "always"]

/-- What `run_settings` raises. -/
def correctSettings (error : MetadataError) : PyStr :=
  py "\"" ++ script.row.displayName ++
    py "\" cannot be run until its execution settings are corrected. " ++ error.message

/-- The policy of a run that asks for `notifications`. -/
def policyFor (notifications : Option PyStr) : PyStr :=
  firstTrue [notifications.getD [], script.notificationsDefault]

/-- The timeout of a run, where one is set: `None if self.job_timeout is None else ...`. -/
def validTimeout (className : PyStr) : Option ℤ → Except MetadataError (Option ℤ)
  | none => .ok none
  | some seconds => some <$> validateJobTimeout (.int seconds) className

/-- `run_settings(notifications=notifications)` -/
def runSettings (notifications : Option PyStr) : Except PyStr (Option ℤ × PyStr) :=
  (do
    let timeout ← validTimeout script.row.className script.jobTimeout
    let policy ← validateNotificationPolicy (.ofString (script.policyFor notifications))
      script.row.className
    return (timeout, policy) : Except MetadataError (Option ℤ × PyStr)).mapError
      script.correctSettings

/-- The first condition on the row itself that is not met. -/
def ownRefusal : Option PyStr :=
  if script.row.enabled = false then some (py "It is disabled.")
  else if script.row.isRetired then
    some (py "It is retired, so its Project no longer publishes it.")
  else none

end LoadedScript

/-- The first condition on the project of a script that is not met. -/
def ProjectRow.refusal (project : ProjectRow) : Option PyStr :=
  if project.enabled = false then some (py "Its Project is disabled.")
  else if project.activeRevision = none then some (py "Its Project is serving no revision.")
  else none

/-- `run_refusal_reason`, with the project of the script. -/
def LoadedScript.runRefusalReason (script : LoadedScript) (project : ProjectRow) : Option PyStr :=
  script.ownRefusal.or project.refusal

/-- What `enqueue_run` raises of a script that cannot run. -/
def LoadedScript.notExecutable (script : LoadedScript) (reason : PyStr) : PyStr :=
  py "\"" ++ script.row.displayName ++ py "\" cannot be run right now. " ++ reason

theorem firstTrue_cons {text : PyStr} {texts : List PyStr} :
    firstTrue (text :: texts) = if text = [] then firstTrue texts else text := by
  unfold firstTrue
  split_ifs with h
  · rw [List.find?_cons_of_neg (by simpa using h)]
  · rw [List.find?_cons_of_pos (by simpa using h)]
    rfl

theorem validPolicy_eq_ok (className : PyStr) {policy text : PyStr} :
    validateNotificationPolicy (.ofString policy) className = .ok text ↔
      text = policy ∧ policy ∈ jobNotificationChoices := by
  rw [validateNotificationPolicy_eq_ok, List.any_eq_true, and_comm]
  refine and_congr_right fun _ => ⟨?_, fun hmem => ⟨policy, hmem, decide_eq_true rfl⟩⟩
  rintro ⟨choice, hchoice, hsame⟩
  rwa [of_decide_eq_true hsame]

theorem LoadedScript.validTimeout_eq_ok (className : PyStr) {timeout valid : Option ℤ} :
    LoadedScript.validTimeout className timeout = .ok valid ↔
      valid = timeout ∧ ∀ seconds, timeout = some seconds → 0 < seconds := by
  cases timeout with
  | none =>
    constructor
    · intro h
      cases h
      exact ⟨rfl, fun _ h => by cases h⟩
    · rintro ⟨rfl, -⟩
      rfl
  | some seconds =>
    rw [validTimeout]
    constructor
    · intro h
      cases hvalid : validateJobTimeout (.int seconds) className with
      | error error =>
        rw [hvalid] at h
        cases h
      | ok found =>
        rw [hvalid] at h
        cases h
        obtain ⟨hsame, hpos⟩ := validateJobTimeout_eq_ok.mp hvalid
        obtain rfl := Option.some.inj hsame
        exact ⟨rfl, fun _ h => Option.some.inj h ▸ hpos⟩
    · rintro ⟨rfl, hpos⟩
      have hvalid : validateJobTimeout (.int seconds) className = .ok seconds :=
        validateJobTimeout_eq_ok.mpr ⟨rfl, hpos seconds rfl⟩
      rw [hvalid]
      rfl

/-- **The settings of a run**: the timeout that is in effect is positive, and the policy, the one
asked for or else the one in effect, is a choice. -/
theorem runSettings_eq_ok {script : LoadedScript} {notifications : Option PyStr}
    {timeout : Option ℤ} {policy : PyStr} :
    script.runSettings notifications = .ok (timeout, policy) ↔
      (timeout = script.jobTimeout ∧ ∀ seconds, script.jobTimeout = some seconds → 0 < seconds) ∧
        policy = script.policyFor notifications ∧
          script.policyFor notifications ∈ jobNotificationChoices := by
  rw [← LoadedScript.validTimeout_eq_ok script.row.className,
    ← validPolicy_eq_ok script.row.className, LoadedScript.runSettings]
  cases LoadedScript.validTimeout script.row.className script.jobTimeout with
  | error error => simp [bind, Except.bind, Except.mapError]
  | ok found =>
    cases validateNotificationPolicy (.ofString (script.policyFor notifications))
      script.row.className with
    | error error => simp [bind, Except.bind, Except.mapError]
    | ok text => simp [bind, Except.bind, pure, Except.pure, Except.mapError]

/-! ## What a run is given -/

/-- A value that a variable cleaned to. -/
inductive InputValue
  | value (text : PyStr)
  /-- an `UploadedFile` in memory -/
  | memoryUpload (name : PyStr)
  /-- a `TemporaryUploadedFile` -/
  | temporaryUpload (name : PyStr)
  deriving DecidableEq, Repr

namespace InputValue

/-- `isinstance(value, UploadedFile)` -/
def isUpload : InputValue → Bool
  | .value _ => false
  | _ => true

/-- `isinstance(value, TemporaryUploadedFile)` -/
def isTemporary : InputValue → Bool
  | .temporaryUpload _ => true
  | _ => false

end InputValue

/-- `request.FILES`: a `MultiValueDict`, or a plain `dict`. -/
inductive RequestFiles
  | lists (fields : Dict (List InputValue))
  | plain (fields : Dict InputValue)
  deriving DecidableEq, Repr

namespace RequestFiles

/-- Every file that travels with a request. -/
def uploads : RequestFiles → List InputValue
  | .lists fields => fields.flatMap Prod.snd
  | .plain fields => fields.map Prod.snd

/-- `request.FILES.items()`, which reports the last file under a repeated name. -/
def items : RequestFiles → Dict InputValue
  | .lists fields => fields.filterMap fun field => field.2.getLast?.map fun last => (field.1, last)
  | .plain fields => fields

end RequestFiles

/-- The copy of a request that travels with a run. -/
structure RunRequest where
  number : ℕ
  files : Option RequestFiles
  deriving DecidableEq, Repr

/-- `uploads` of `enqueue`: the values, and the files of the request. -/
def uploadsOf (data : Option (Dict InputValue)) (request : Option RunRequest) : List InputValue :=
  (data.getD []).map Prod.snd ++
    (request.bind RunRequest.files).elim [] RequestFiles.uploads

/-- The values that a script is run with: a request file only fills a name that the cleaned values
do not carry. -/
def runValues (data : Dict InputValue) (request : Option RunRequest) : Dict InputValue :=
  ((request.bind RunRequest.files).elim [] RequestFiles.items).foldl
    (fun values file =>
      if (values.get? file.1).isSome then values else values.set file.1 file.2) data

/-! ## What a row records -/

/-- The identity of what runs. -/
structure RunPayload where
  revisionId : Option Id
  revisionDigest : Option PyStr
  modulePath : PyStr
  className : PyStr
  commit : Bool
  event : Option (Dict Json)

/-- A number that may be absent. -/
def Json.ofId? (id : Option Id) : Json := id.elim .null fun n => .int n

/-- A text that may be absent. -/
def Json.ofText? (text : Option PyStr) : Json := text.elim .null .str

/-- The payload, with what is made of its event. -/
def RunPayload.toDict (payload : RunPayload) (event : Json) : Dict Json :=
  [(py "revision_id", .ofId? payload.revisionId),
    (py "revision_digest", .ofText? payload.revisionDigest),
    (py "module_path", .str payload.modulePath), (py "class_name", .str payload.className),
    (py "commit", .bool payload.commit), (py "event", event)]

/-- `_row_data(payload)` -/
def rowData (payload : RunPayload) : Dict Json :=
  payload.toDict <| match payload.event with
    | none => .null
    | some event =>
      if event = [] ∨ event.get? (py "snapshots") = none then .obj event
      else .obj (event.filter fun field => field.1 ≠ py "snapshots")

/-- **No object snapshot is on a row.** -/
theorem rowData_without_snapshots {payload : RunPayload} {fields : Dict Json}
    (h : (rowData payload).get? (py "event") = some (.obj fields)) :
    fields.get? (py "snapshots") = none := by
  have hevent : (rowData payload).get? (py "event") = some (match payload.event with
      | none => .null
      | some event =>
        if event = [] ∨ event.get? (py "snapshots") = none then .obj event
        else .obj (event.filter fun field => field.1 ≠ py "snapshots")) := rfl
  rw [hevent] at h
  cases hpayload : payload.event with
  | none =>
    rw [hpayload] at h
    cases h
  | some event =>
    simp only [hpayload] at h
    split_ifs at h with hnone
    · cases h
      rcases hnone with rfl | hnone
      · rfl
      · exact hnone
    · cases h
      unfold Dict.get?
      rw [List.lookup_eq_none_iff]
      rintro ⟨k, v⟩ hmem
      have hkey : k ≠ py "snapshots" := by simpa using (List.mem_filter.mp hmem).2
      simpa using hkey.symm

/-- The pin is on the row. -/
theorem get?_rowData_revisionId {payload : RunPayload} :
    (rowData payload).get? (py "revision_id") = some (.ofId? payload.revisionId) := rfl

theorem get?_rowData_revisionDigest {payload : RunPayload} :
    (rowData payload).get? (py "revision_digest") = some (.ofText? payload.revisionDigest) := rfl

end NetBoxScripts
