import NetBoxScripts.Storage.Manifest

/-!
# Rows

The rows the plugin's tables hold, with the fields its services read or write. A primary key is
a number that is never given out twice.

## Main definitions

* `RevisionStatus` and its groupings (`constants.py`)
* `ProjectRow`, `RevisionRow`, `ScriptFileRow`, `ScriptRow`
-/

namespace NetBoxScripts

/-- A primary key. -/
abbrev Id := ℕ

/-- A project's storage key, the number of its UUID. -/
abbrev StorageKey := ℕ

/-- A point in time, in seconds. -/
abbrev Time := ℕ

/-- `RevisionStatusChoices` -/
inductive RevisionStatus
  | staging | materialized | storageFailed | validating | valid | invalid | active | retired
  deriving DecidableEq, Repr

namespace RevisionStatus

/-- `ACTIVATABLE_REVISION_STATUSES` -/
def activatable : RevisionStatus → Bool
  | .valid | .retired => true
  | _ => false

/-- `STORED_REVISION_STATUSES` -/
def stored : RevisionStatus → Bool
  | .materialized | .valid | .active | .retired => true
  | _ => false

/-- `RETRYABLE_REVISION_STATUSES` -/
def retryable : RevisionStatus → Bool
  | .staging | .storageFailed => true
  | _ => false

/-- `UNSTORED_REVISION_STATUSES` -/
def unstored : RevisionStatus → Bool
  | .staging | .storageFailed => true
  | _ => false

theorem retryable_eq_unstored (status : RevisionStatus) : status.retryable = status.unstored := by
  cases status <;> rfl

end RevisionStatus

/-- `ProjectSourceTypeChoices` -/
inductive SourceType
  | upload | dataSource
  deriving DecidableEq, Repr

/-- `ActivationPolicyChoices` -/
inductive ActivationPolicy
  | manual | automaticIfValid
  deriving DecidableEq, Repr

/-- `FileDiscoveryStatusChoices` -/
inductive FileDiscoveryStatus
  | pending | discovered | noScripts | failed
  deriving DecidableEq, Repr

/-- One declaration frozen into a script file snapshot. -/
structure SnapshotEntry where
  scriptFile : Id
  sourcePath : PyStr
  deriving DecidableEq, Repr

/-- One failure a validation recorded. -/
structure FailureRecord where
  sourcePath : PyStr
  code : PyStr
  message : PyStr
  exceptionType : Option PyStr
  traceback : Option PyStr
  deriving DecidableEq, Repr

/-- One record of `validation_errors`: of the manifest builder, of a failed write, or of a
validation. -/
inductive ErrorRecord
  | rejected (error : ManifestError)
  | storageWriteFailed
  | failure (record : FailureRecord)
  deriving DecidableEq, Repr

/-- The execution defaults a validation read from a class. -/
structure ScriptMetadata where
  commitDefault : Bool
  schedulingEnabled : Bool
  jobTimeout : Option ℤ
  notificationsDefault : PyStr
  deriving DecidableEq, Repr

/-- One published script as a revision records it. -/
structure ScriptRecord where
  modulePath : PyStr
  className : PyStr
  scriptFileId : Id
  scriptFilePath : PyStr
  position : ℕ
  displayName : PyStr
  description : PyStr
  metadata : ScriptMetadata
  deriving DecidableEq, Repr

/-- The identity a script is published under. -/
abbrev ScriptIdentity := PyStr × PyStr

/-- The identity of a record. -/
def ScriptRecord.identity (record : ScriptRecord) : ScriptIdentity :=
  (record.modulePath, record.className)

/-- `ScriptProject` -/
structure ProjectRow where
  key : PyStr
  storageKey : StorageKey
  sourceType : SourceType
  dataSource : Option Id
  dataPath : PyStr
  activationPolicy : ActivationPolicy
  activeRevision : Option Id
  sourceRevision : Option Id
  sourceActivationPending : Bool
  enabled : Bool
  deriving DecidableEq, Repr

/-- `ScriptProjectRevision` -/
structure RevisionRow where
  project : Id
  digest : Option PyStr
  status : RevisionStatus
  manifest : List ManifestEntry
  fileCount : ℕ
  totalSize : ℕ
  validationErrors : List ErrorRecord
  discoveredScripts : List ScriptRecord
  scriptFileSnapshot : List SnapshotEntry
  scriptFileDigest : PyStr
  validationJob : Option Id
  validationStarted : Option Time
  lastValidationFailure : PyStr
  activated : Option Time
  created : Time
  deriving DecidableEq, Repr

/-- `ScriptFile` -/
structure ScriptFileRow where
  project : Id
  sourcePath : PyStr
  enabled : Bool
  discoveryStatus : FileDiscoveryStatus
  discoveryError : PyStr
  lastDiscoveredRevision : Option Id
  deriving DecidableEq, Repr

/-- `NetBoxScript` -/
structure ScriptRow where
  project : Id
  modulePath : PyStr
  className : PyStr
  displayName : PyStr
  description : PyStr
  metadata : ScriptMetadata
  isRetired : Bool
  lastSeenRevision : Option Id
  enabled : Bool
  deriving DecidableEq, Repr

/-- The identity of a row. -/
def ScriptRow.identity (row : ScriptRow) : ScriptIdentity := (row.modulePath, row.className)

end NetBoxScripts
