import NetBoxScripts.Models.Rows
import NetBoxScripts.Python.JsonEqual

/-!
# Introspection

`runtime/introspection.py`: a published class is described as a record, and a stored list of
records is checked before it is used. Project code decides what reading a class yields, so each
reading may raise, and a notification policy is any value that a choice may be equal to.

## Main definitions

* `ClassFacts`: what describing a class reads from it
* `describeScript`: the record of a class, or the refusal
* `validateDiscoveredScripts`: the check of a stored list of records

## Main results

* `describeScript_eq_ok`: when a class is described, and as what
* `validateDiscoveredScripts_toJson_iff`: which lists of records the check accepts
-/

namespace NetBoxScripts

/-- `MAX_SCRIPT_CLASS_NAME_LENGTH` -/
def maxScriptClassNameLength : ℕ := 79

/-- `MAX_SCRIPT_DISPLAY_NAME_LENGTH` -/
def maxScriptDisplayNameLength : ℕ := 255

/-- `MAX_SCRIPT_MODULE_PATH_LENGTH` -/
def maxScriptModulePathLength : ℕ := 1000

/-- `RESERVED_VARIABLE_NAMES`, the fields `ScriptForm` declares. -/
def reservedVariableNames : List PyStr :=
  [py "_commit", py "_schedule_at", py "_interval", py "_notifications"]

/-- `JobNotificationChoices.values()` -/
def jobNotificationChoices : List PyStr := [py "always", py "on_failure", py "never"]

/-- An exception that escapes, as far as the text recorded of it reads it: `none` stands for a
rendering that raises in turn. -/
structure Raised where
  /-- `type(error).__name__` -/
  typeName : PyStr
  /-- `str(error)` -/
  text : Option PyStr
  /-- `error.detail['message']`, where the error carries a detail with one. -/
  inner : Option (Option PyStr)
  deriving DecidableEq, Repr

/-- `ScriptMetadataError`: a code and a message. -/
structure MetadataError where
  code : PyStr
  message : PyStr
  deriving DecidableEq, Repr

/-- How describing a class fails: with a refusal, or with whatever project code raised. -/
inductive DescribeFailure
  | refused (error : MetadataError)
  | raised (error : Raised)
  deriving DecidableEq, Repr

/-- What building the run form of a class comes to. -/
inductive FormOutcome
  /-- The form's fields and the fieldsets' labels with the names they list. -/
  | built (fields : List PyStr) (fieldsets : List (PyStr × List PyStr))
  | refused (error : MetadataError)
  /-- Any other exception; `passthrough` says whether it is of a type that must escape. -/
  | raised (passthrough : Bool) (error : Raised)
  deriving DecidableEq, Repr

/-- `cls.job_timeout` as `parse_timeout` reads it. -/
inductive TimeoutValue
  | absent
  | parsed (value : Json)
  | malformed
  | raised (error : Raised)

/-- A notification policy: the choices it is equal to, and its `str`. -/
structure PolicyValue where
  isEqualTo : PyStr → Bool
  text : PyStr

/-- The policy a plain string is. -/
def PolicyValue.ofString (s : PyStr) : PolicyValue := ⟨fun choice => s = choice, s⟩

/-- What describing a class reads from it. -/
structure ClassFacts where
  /-- `cls._get_vars()` -/
  varNames : Except Raised (List PyStr)
  logicalModule : PyStr
  name : PyStr
  /-- `str(cls.name)` -/
  displayName : Except Raised PyStr
  form : FormOutcome
  /-- `str(cls.description)` -/
  description : Except Raised PyStr
  commitDefault : Except Raised Bool
  schedulingEnabled : Except Raised Bool
  jobTimeout : TimeoutValue
  notificationsDefault : Except Raised PolicyValue

/-- The logical identity of a class. -/
def ClassFacts.identity (facts : ClassFacts) : ScriptIdentity := (facts.logicalModule, facts.name)

/-! ## Describing -/

/-- `raise ScriptMetadataError(message, code)` -/
def refuseMetadata {α : Type} (code message : PyStr) : Except MetadataError α :=
  .error ⟨code, message⟩

/-- A refusal of the plugin's own, among the ways describing fails. -/
def orRefuse {α : Type} : Except MetadataError α → Except DescribeFailure α
  | .ok a => .ok a
  | .error error => .error (.refused error)

/-- A reading that project code may make raise. -/
def orRaise {α : Type} : Except Raised α → Except DescribeFailure α
  | .ok a => .ok a
  | .error error => .error (.raised error)

/-- `_require_free_variable_names(cls)` -/
def requireFreeVariableNames (name : PyStr) (varNames : List PyStr) : Except MetadataError Unit :=
  match (reservedVariableNames.filter (· ∈ varNames)).insertionSort (· ≤ ·) with
  | [] => .ok ()
  | reserved :: _ => refuseMetadata (py "reserved_variable_name") (py "The variable \"" ++
      reserved ++ py "\" of \"" ++ name ++ py "\" uses a name the run form reserves.")

/-- `_require_storable_identity(module_path, class_name)` -/
def requireStorableIdentity (modulePath className : PyStr) : Except MetadataError Unit :=
  if className.length > maxScriptClassNameLength then
    refuseMetadata (py "identity_too_long")
      (py "The class name \"" ++ className ++ py "\" is too long to store.")
  else if modulePath.length > maxScriptModulePathLength then
    refuseMetadata (py "identity_too_long")
      (py "The module path of \"" ++ className ++ py "\" is too long to store.")
  else .ok ()

/-- `_require_storable_display_name(display_name, class_name)` -/
def requireStorableDisplayName (displayName className : PyStr) : Except MetadataError Unit :=
  if displayName.length > maxScriptDisplayNameLength then
    refuseMetadata (py "display_name_too_long")
      (py "The display name of \"" ++ className ++ py "\" is too long to store.")
  else .ok ()

/-- `_require_known_fieldset_fields(instance, form)` -/
def requireKnownFieldsetFields (typeName : PyStr) (fields : List PyStr)
    (fieldsets : List (PyStr × List PyStr)) : Except MetadataError Unit :=
  match (fieldsets.flatMap Prod.snd).find? (· ∉ fields) with
  | none => .ok ()
  | some name => refuseMetadata (py "unknown_fieldset_field") (py "The fieldsets of \"" ++
      typeName ++ py "\" name \"" ++ name ++ py "\", which is not a variable.")

/-- `validate_job_timeout(value, name=name)`; an empty name is no name. -/
def validateJobTimeout (value : Json) (name : PyStr) : Except MetadataError ℤ :=
  match value.int? with
  | some n => if 0 < n then .ok n else timeoutRefusal
  | none => timeoutRefusal
where
  timeoutRefusal : Except MetadataError ℤ := refuseMetadata (py "invalid_job_timeout")
    (if name = [] then py "The recorded job timeout must be a positive number of seconds."
      else py "The job timeout of \"" ++ name ++ py "\" must be a positive number of seconds.")

/-- `validate_notification_policy(value, name=name)`: a value equal to a choice is returned as
its `str`. -/
def validateNotificationPolicy (value : PolicyValue) (name : PyStr) : Except MetadataError PyStr :=
  if jobNotificationChoices.any value.isEqualTo then .ok value.text
  else refuseMetadata (py "invalid_notifications_default")
    (if name = [] then
      py "The recorded notification policy is not a supported Job notification choice."
    else py "The notification policy of \"" ++ name ++
      py "\" is not a supported Job notification choice.")

/-- `_job_timeout(cls)` -/
def classJobTimeout (name : PyStr) : TimeoutValue → Except DescribeFailure (Option ℤ)
  | .absent => .ok none
  | .parsed value =>
    match validateJobTimeout value [] with
    | .ok n => .ok (some n)
    | .error _ => orRefuse unusable
  | .malformed => orRefuse unusable
  | .raised error => .error (.raised error)
where
  unusable : Except MetadataError (Option ℤ) :=
    refuseMetadata (py "invalid_job_timeout") (py "The job timeout of \"" ++ name ++
      py "\" must be a positive number of seconds or an RQ duration string.")

/-- The `try` around building the run form. -/
def requireRunForm (facts : ClassFacts) : Except DescribeFailure Unit :=
  match facts.form with
  | .built fields fieldsets => orRefuse (requireKnownFieldsetFields facts.name fields fieldsets)
  | .refused error => .error (.refused error)
  | .raised true error => .error (.raised error)
  | .raised false _ => orRefuse (refuseMetadata (py "form_construction_failed")
      (py "The run form of \"" ++ facts.name ++ py "\" could not be built."))

/-- `describe_script(discovered, script_file_id, script_file_path, position)` -/
def describeScript (facts : ClassFacts) (scriptFileId : Id) (scriptFilePath : PyStr)
    (position : ℕ) : Except DescribeFailure ScriptRecord := do
  let varNames ← orRaise facts.varNames
  orRefuse (requireFreeVariableNames facts.name varNames)
  orRefuse (requireStorableIdentity facts.logicalModule facts.name)
  let displayName ← orRaise facts.displayName
  orRefuse (requireStorableDisplayName displayName facts.name)
  requireRunForm facts
  let description ← orRaise facts.description
  let commitDefault ← orRaise facts.commitDefault
  let schedulingEnabled ← orRaise facts.schedulingEnabled
  let jobTimeout ← classJobTimeout facts.name facts.jobTimeout
  let policy ← orRaise facts.notificationsDefault
  let notificationsDefault ← orRefuse (validateNotificationPolicy policy facts.name)
  return ⟨facts.logicalModule, facts.name, scriptFileId, scriptFilePath, position, displayName,
    description, ⟨commitDefault, schedulingEnabled, jobTimeout, notificationsDefault⟩⟩

/-! ## Checking -/

/-- `_REQUIRED_TEXT_KEYS` -/
def requiredTextKeys : List PyStr :=
  [py "module_path", py "class_name", py "script_file_path", py "display_name",
    py "description"]

/-- `record.get(key)` as a text. -/
def textOf (record : Json) (key : PyStr) : Option PyStr := (record.get? key).bind Json.str?

/-- The checks of a timeout and a policy that are recorded. -/
def validateStoredDefaults (metadata : Json) (className : PyStr) : Except MetadataError Unit := do
  match metadata.get? (py "job_timeout") with
  | none | some .null => pure ()
  | some value => let _ ← validateJobTimeout value className
  match metadata.get? (py "notifications_default") with
  | none | some .null => pure ()
  | some value =>
    let policy := match value with
      | .str s => PolicyValue.ofString s
      | _ => ⟨fun _ => false, []⟩
    let _ ← validateNotificationPolicy policy className

/-- `if not ok: raise ScriptMetadataError(message, code)` -/
def requireMetadata (ok : Bool) (code message : PyStr) : Except MetadataError Unit :=
  if ok then .ok () else refuseMetadata code message

@[simp] theorem requireMetadata_eq_ok {ok : Bool} {code message : PyStr} {u : Unit} :
    requireMetadata ok code message = .ok u ↔ ok = true := by
  cases ok <;> simp [requireMetadata, refuseMetadata]

/-- The words every refusal of one entry starts with. -/
def entryText (index : ℕ) : PyStr := py "Entry " ++ decimal index ++ py " of the discovered scripts"

/-- `isinstance(record, dict)` -/
def isObject : Json → Bool
  | .obj _ => true
  | _ => false

/-- The checks of one entry; the result is the identity it claims. -/
def validateRecord (index : ℕ) (record : Json) (identities : List ScriptIdentity) :
    Except MetadataError ScriptIdentity := do
  requireMetadata (isObject record) (py "invalid_entry") (entryText index ++ py " must be an object.")
  requiredTextKeys.forM fun key => requireMetadata (textOf record key).isSome (py "invalid_entry")
    (entryText index ++ py " is missing a text \"" ++ key ++ py "\".")
  let className := (textOf record (py "class_name")).getD []
  let modulePath := (textOf record (py "module_path")).getD []
  let displayName := (textOf record (py "display_name")).getD []
  requireMetadata (((record.get? (py "script_file_id")).bind Json.int?).any fun n => 0 < n)
    (py "invalid_entry") (entryText index ++ py " is missing a script file id.")
  requireMetadata ((record.get? (py "position")).bind Json.number? = some (index : ℚ))
    (py "invalid_position") (entryText index ++ py " records the wrong position.")
  requireMetadata ((record.get? (py "metadata")).any isObject)
    (py "invalid_entry") (entryText index ++ py " must carry an object of metadata.")
  validateStoredDefaults ((record.get? (py "metadata")).getD .null) className
  requireStorableIdentity modulePath className
  requireStorableDisplayName displayName className
  requireMetadata ((modulePath, className) ∉ identities) (py "duplicate_identity")
    (py "Two entries of the discovered scripts publish as \"" ++ modulePath ++ py "." ++
      className ++ py "\".")
  return (modulePath, className)

/-- The loop over the enumerated entries. -/
def validateRecords : ℕ → List Json → List ScriptIdentity → Except MetadataError Unit
  | _, [], _ => .ok ()
  | index, record :: records, identities => do
    let identity ← validateRecord index record identities
    validateRecords (index + 1) records (identity :: identities)

/-- `validate_discovered_scripts(value)` -/
def validateDiscoveredScripts (value : Json) : Except MetadataError Unit :=
  match value with
  | .arr records => validateRecords 0 records []
  | _ => refuseMetadata (py "invalid_snapshot") (py "The discovered scripts must be a list.")

/-! ## Described classes -/

theorem orRefuse_eq_ok {α : Type} {x : Except MetadataError α} {a : α} :
    orRefuse x = .ok a ↔ x = .ok a := by
  cases x <;> simp [orRefuse]

theorem orRaise_eq_ok {α : Type} {x : Except Raised α} {a : α} :
    orRaise x = .ok a ↔ x = .ok a := by
  cases x <;> simp [orRaise]

theorem requireStorableIdentity_eq_ok {modulePath className : PyStr} {u : Unit} :
    requireStorableIdentity modulePath className = .ok u ↔
      className.length ≤ maxScriptClassNameLength ∧
        modulePath.length ≤ maxScriptModulePathLength := by
  rw [requireStorableIdentity]
  split_ifs with hname hmodule
  · simp [refuseMetadata, Nat.not_le.mpr hname]
  · simp [refuseMetadata, Nat.not_le.mpr hmodule]
  · simp [Nat.not_lt.mp hname, Nat.not_lt.mp hmodule]

theorem requireStorableDisplayName_eq_ok {displayName className : PyStr} {u : Unit} :
    requireStorableDisplayName displayName className = .ok u ↔
      displayName.length ≤ maxScriptDisplayNameLength := by
  rw [requireStorableDisplayName]
  split_ifs with hlength
  · simp [refuseMetadata, Nat.not_le.mpr hlength]
  · simp [Nat.not_lt.mp hlength]

theorem validateJobTimeout_eq_ok {value : Json} {name : PyStr} {n : ℤ} :
    validateJobTimeout value name = .ok n ↔ value.int? = some n ∧ 0 < n := by
  rw [validateJobTimeout, validateJobTimeout.timeoutRefusal, refuseMetadata]
  cases value.int? with
  | none => simp
  | some m =>
    by_cases hm : 0 < m
    · simp only [hm, if_true, Except.ok.injEq, Option.some.injEq]
      exact ⟨fun h => ⟨h, h ▸ hm⟩, fun h => h.1⟩
    · simp only [hm, if_false, reduceCtorEq, Option.some.injEq, false_iff]
      rintro ⟨rfl, h⟩
      exact hm h

theorem validateNotificationPolicy_eq_ok {value : PolicyValue} {name text : PyStr} :
    validateNotificationPolicy value name = .ok text ↔
      jobNotificationChoices.any value.isEqualTo ∧ text = value.text := by
  rw [validateNotificationPolicy, refuseMetadata]
  split_ifs with h
  · simp [h, eq_comm]
  · simp [h]

theorem classJobTimeout_pos {name : PyStr} {value : TimeoutValue} {timeout : Option ℤ}
    (h : classJobTimeout name value = .ok timeout) : ∀ n ∈ timeout, 0 < n := by
  intro n hn
  rw [Option.mem_def] at hn
  subst hn
  cases value with
  | absent => cases h
  | malformed => cases h
  | raised error => cases h
  | parsed value =>
    rw [classJobTimeout] at h
    cases hv : validateJobTimeout value [] with
    | error error => rw [hv] at h; cases h
    | ok m =>
      rw [hv] at h
      obtain rfl : m = n := by simpa using h
      exact (validateJobTimeout_eq_ok.mp hv).2

/-- What a class that was described looks like in its record. -/
structure DescribedAs (facts : ClassFacts) (record : ScriptRecord) : Prop where
  identity : record.identity = facts.identity
  name_length : record.className.length ≤ maxScriptClassNameLength
  module_length : record.modulePath.length ≤ maxScriptModulePathLength
  display_length : record.displayName.length ≤ maxScriptDisplayNameLength
  timeout_pos : ∀ n ∈ record.metadata.jobTimeout, 0 < n
  policy : ∃ value, facts.notificationsDefault = .ok value ∧
    jobNotificationChoices.any value.isEqualTo ∧ record.metadata.notificationsDefault = value.text

/-- The record of a class apart from where it was found. -/
theorem describeScript_eq_ok {facts : ClassFacts} {scriptFileId : Id} {scriptFilePath : PyStr}
    {position : ℕ} {record : ScriptRecord}
    (h : describeScript facts scriptFileId scriptFilePath position = .ok record) :
    DescribedAs facts record ∧ record.scriptFileId = scriptFileId ∧
      record.scriptFilePath = scriptFilePath ∧ record.position = position ∧
      ∀ id path index, describeScript facts id path index = .ok
        { record with scriptFileId := id, scriptFilePath := path, position := index } := by
  simp only [describeScript, Except.bind_eq_ok_iff, orRefuse_eq_ok, orRaise_eq_ok] at h ⊢
  obtain ⟨names, hnames, _, hfree, _, hidentity, display, hdisplay, _, hlength, _, hform,
    description, hdescription, commit, hcommit, scheduling, hscheduling, timeout, htimeout,
    policy, hpolicy, text, htext, h⟩ := h
  obtain rfl := Except.ok.inj h
  obtain ⟨hname, hmodule⟩ := requireStorableIdentity_eq_ok.mp hidentity
  obtain ⟨hchoice, rfl⟩ := validateNotificationPolicy_eq_ok.mp htext
  refine ⟨⟨rfl, hname, hmodule, requireStorableDisplayName_eq_ok.mp hlength,
    classJobTimeout_pos htimeout, policy, hpolicy, hchoice, rfl⟩, rfl, rfl, rfl, ?_⟩
  intro id path index
  exact ⟨names, hnames, (), hfree, (), hidentity, display, hdisplay, (), hlength, (), hform,
    description, hdescription, commit, hcommit, scheduling, hscheduling, timeout, htimeout,
    policy, hpolicy, policy.text, htext, rfl⟩

/-! ## Accepted records -/

/-- A record as it is stored. -/
def ScriptRecord.toJson (record : ScriptRecord) : Json :=
  .obj [(py "module_path", .str record.modulePath), (py "class_name", .str record.className),
    (py "script_file_id", .int record.scriptFileId),
    (py "script_file_path", .str record.scriptFilePath), (py "position", .int record.position),
    (py "display_name", .str record.displayName), (py "description", .str record.description),
    (py "metadata", .obj [(py "commit_default", .bool record.metadata.commitDefault),
      (py "scheduling_enabled", .bool record.metadata.schedulingEnabled),
      (py "job_timeout", (record.metadata.jobTimeout.map Json.int).getD .null),
      (py "notifications_default", .str record.metadata.notificationsDefault)])]

/-- What the check requires of the record at one index. -/
structure StorableRecord (index : ℕ) (record : ScriptRecord) : Prop where
  file_id : 0 < record.scriptFileId
  position : record.position = index
  name_length : record.className.length ≤ maxScriptClassNameLength
  module_length : record.modulePath.length ≤ maxScriptModulePathLength
  display_length : record.displayName.length ≤ maxScriptDisplayNameLength
  timeout_pos : ∀ n ∈ record.metadata.jobTimeout, 0 < n
  policy : record.metadata.notificationsDefault ∈ jobNotificationChoices

section Stored

variable (record : ScriptRecord)

@[simp] theorem textOf_module_path :
    textOf record.toJson (py "module_path") = some record.modulePath := rfl

@[simp] theorem textOf_class_name :
    textOf record.toJson (py "class_name") = some record.className := rfl

@[simp] theorem textOf_display_name :
    textOf record.toJson (py "display_name") = some record.displayName := rfl

@[simp] theorem get?_script_file_id :
    record.toJson.get? (py "script_file_id") = some (.int record.scriptFileId) := rfl

@[simp] theorem get?_position : record.toJson.get? (py "position") = some (.int record.position) :=
  rfl

theorem textKeys_toJson {u : PUnit} (index : ℕ) :
    (requiredTextKeys.forM fun key => requireMetadata (textOf record.toJson key).isSome
      (py "invalid_entry") (entryText index ++ py " is missing a text \"" ++ key ++ py "\".")) =
      .ok u := rfl

theorem validateStoredDefaults_toJson {u : Unit} :
    validateStoredDefaults ((record.toJson.get? (py "metadata")).getD .null) record.className =
      .ok u ↔ (∀ n ∈ record.metadata.jobTimeout, 0 < n) ∧
        record.metadata.notificationsDefault ∈ jobNotificationChoices := by
  have htimeout : ((record.toJson.get? (py "metadata")).getD .null).get? (py "job_timeout") =
      some ((record.metadata.jobTimeout.map Json.int).getD .null) := rfl
  have hpolicy : ((record.toJson.get? (py "metadata")).getD .null).get?
      (py "notifications_default") = some (.str record.metadata.notificationsDefault) := rfl
  have hchoice : jobNotificationChoices.any
      (PolicyValue.ofString record.metadata.notificationsDefault).isEqualTo = true ↔
      record.metadata.notificationsDefault ∈ jobNotificationChoices := by
    simp [PolicyValue.ofString]
  rw [validateStoredDefaults, htimeout, hpolicy]
  cases record.metadata.jobTimeout with
  | none =>
    simp [Except.bind_eq_ok_iff, validateNotificationPolicy_eq_ok, hchoice, pure, Except.pure]
  | some n =>
    simp [Except.bind_eq_ok_iff, validateNotificationPolicy_eq_ok, validateJobTimeout_eq_ok,
      hchoice, pure, Except.pure, Json.int?]

theorem validateRecord_toJson_iff {index : ℕ} {identities : List ScriptIdentity}
    {identity : ScriptIdentity} :
    validateRecord index record.toJson identities = .ok identity ↔
      StorableRecord index record ∧ record.identity ∉ identities ∧ identity = record.identity := by
  have hobject : isObject record.toJson = true := rfl
  have hmetadata : (record.toJson.get? (py "metadata")).any isObject = true := rfl
  simp only [validateRecord, Except.bind_eq_ok_iff, requireMetadata_eq_ok, hobject, hmetadata,
    textOf_module_path, textOf_class_name, textOf_display_name, get?_script_file_id, get?_position,
    validateStoredDefaults_toJson, requireStorableIdentity_eq_ok, requireStorableDisplayName_eq_ok,
    Option.getD_some, Option.bind_some, Json.int?, Json.number?, Option.any_some,
    decide_eq_true_eq, Option.some.injEq, Int.cast_natCast, Nat.cast_inj, Int.natCast_pos,
    textKeys_toJson, exists_const, true_and]
  constructor
  · rintro ⟨-, -, hid, hposition, ⟨htimeout, hpolicy⟩, ⟨hname, hmodule⟩, hdisplay, hnew, h⟩
    exact ⟨⟨hid, hposition, hname, hmodule, hdisplay, htimeout, hpolicy⟩, of_decide_eq_true hnew,
      (Except.ok.inj h).symm⟩
  · rintro ⟨⟨hid, hposition, hname, hmodule, hdisplay, htimeout, hpolicy⟩, hnew, rfl⟩
    exact ⟨(), textKeys_toJson record index, hid, hposition, ⟨htimeout, hpolicy⟩,
      ⟨hname, hmodule⟩, hdisplay, decide_eq_true hnew, rfl⟩

end Stored

theorem validateRecords_toJson_iff {index : ℕ} {records : List ScriptRecord}
    {identities : List ScriptIdentity} :
    validateRecords index (records.map ScriptRecord.toJson) identities = .ok () ↔
      (∀ i record, records[i]? = some record → StorableRecord (index + i) record) ∧
        (records.map ScriptRecord.identity).Nodup ∧
        ∀ record ∈ records, record.identity ∉ identities := by
  induction records generalizing index identities with
  | nil => simp [validateRecords]
  | cons record records ih =>
    rw [List.map_cons, validateRecords, Except.bind_eq_ok_iff]
    constructor
    · rintro ⟨identity, hrecord, hrest⟩
      obtain ⟨hstorable, hnew, rfl⟩ := (validateRecord_toJson_iff record).mp hrecord
      obtain ⟨hall, hnodup, hfresh⟩ := ih.mp hrest
      refine ⟨fun i r hr => ?_, ?_, ?_⟩
      · cases i with
        | zero =>
          obtain rfl : record = r := by simpa using hr
          exact hstorable
        | succ i => simpa [Nat.add_assoc, Nat.add_comm 1] using hall i r (by simpa using hr)
      · rw [List.map_cons, List.nodup_cons]
        refine ⟨fun hmem => ?_, hnodup⟩
        obtain ⟨r, hr, heq⟩ := List.mem_map.mp hmem
        exact hfresh r hr (heq ▸ List.mem_cons_self)
      · refine List.forall_mem_cons.mpr ⟨hnew, fun r hr hmem => ?_⟩
        exact hfresh r hr (List.mem_cons_of_mem _ hmem)
    · rintro ⟨hall, hnodup, hfresh⟩
      obtain ⟨hnotMem, hnodup⟩ := List.nodup_cons.mp hnodup
      obtain ⟨hnew, hfresh⟩ := List.forall_mem_cons.mp hfresh
      refine ⟨record.identity, (validateRecord_toJson_iff record).mpr
        ⟨hall 0 record (by simp), hnew, rfl⟩, ih.mpr ⟨fun i r hr => ?_, hnodup, fun r hr hmem => ?_⟩⟩
      · simpa [Nat.add_assoc, Nat.add_comm 1] using hall (i + 1) r (by simpa using hr)
      · rcases List.mem_cons.mp hmem with heq | hmem
        · exact hnotMem (heq ▸ List.mem_map_of_mem hr)
        · exact hfresh r hr hmem

/-- **The check of stored records** accepts a list exactly when each record is storable at its
index and no identity is published twice. -/
theorem validateDiscoveredScripts_toJson_iff (records : List ScriptRecord) :
    validateDiscoveredScripts (.arr (records.map ScriptRecord.toJson)) = .ok () ↔
      (∀ i record, records[i]? = some record → StorableRecord i record) ∧
        (records.map ScriptRecord.identity).Nodup := by
  rw [validateDiscoveredScripts, validateRecords_toJson_iff]
  simp

end NetBoxScripts
