import NetBoxScripts.Models.Rows
import NetBoxScripts.Python.Dict
import NetBoxScripts.Python.Json

/-!
# The migration run

`MigrationRun` (`models/migration.py`): a row with a state, a journal and warnings, which the
migration's passes extend.

## Main definitions

* `MigrationRow`, `Journal`: the row, and the journal as its entries are read
* `Recorded`: what one committed write makes of a row

## Main results

* `Recorded.kept`: no write loses a journal key, a mapping entry, a step or a warning
* `Recorded.state`: the state moves one step, or stays
-/

namespace NetBoxScripts

/-- `MigrationStateChoices`, in the order of `_STATE_ORDER`. -/
inductive MigrationState
  | legacy | staging | cutover | migrated
  deriving DecidableEq, Repr

/-- The state after this one. -/
def MigrationState.next? : MigrationState → Option MigrationState
  | .legacy => some .staging
  | .staging => some .cutover
  | .cutover => some .migrated
  | .migrated => none

/-- What became of a captured job, `entry['cancellation']`. -/
inductive Cancellation
  | cancelling | cancelled | executed | running | vanished
  deriving DecidableEq, Repr

/-- A captured schedule: the keys that decide whether it is replayed. -/
structure ScheduleEntry where
  jobPk : Id
  legacyObjectType : PyStr
  dropped : List PyStr
  cancellation : Option Cancellation
  deriving DecidableEq, Repr

/-- What a journal key holds. -/
inductive JournalValue
  | json (value : Json)
  | schedules (entries : List ScheduleEntry)
  | mapping (entries : Dict Id)
  | steps (steps : Dict Json)

/-- `MigrationRun.journal` -/
abbrev Journal := Dict JournalValue

namespace Journal

/-- `journal.get('schedules', [])` -/
def schedules (journal : Journal) : List ScheduleEntry :=
  match journal.get? (py "schedules") with
  | some (.schedules entries) => entries
  | _ => []

/-- `journal.get(name, {})` -/
def mapping (journal : Journal) (name : PyStr) : Dict Id :=
  match journal.get? name with
  | some (.mapping entries) => entries
  | _ => []

/-- `journal.get('steps', {})` -/
def steps (journal : Journal) : Dict Json :=
  match journal.get? (py "steps") with
  | some (.steps steps) => steps
  | _ => []

/-- `step_done(name)` -/
def stepDone (journal : Journal) (name : PyStr) : Bool := (journal.steps.get? name).isSome

/-- The keys `record_mapping` merges into. -/
def mappingNames : List PyStr := [py "recreated_schedules", py "split_permissions"]

end Journal

/-- `MigrationRun` -/
structure MigrationRow where
  state : MigrationState
  journal : Journal
  warnings : List PyStr
  cutoverStarted : Option Time
  completed : Option Time

namespace MigrationRow

/-- The row `record_journal` saves. -/
def recordJournal (row : MigrationRow) (entries : Journal) : MigrationRow :=
  { row with journal := row.journal.update entries }

/-- The row `record_mapping` saves. -/
def recordMapping (row : MigrationRow) (name : PyStr) (entries : Dict Id) : MigrationRow :=
  { row with
    journal := row.journal.set name (.mapping ((row.journal.mapping name).update entries)) }

/-- The row `record_step` saves. -/
def recordStep (row : MigrationRow) (name : PyStr) (detail : Json) : MigrationRow :=
  { row with
    journal := row.journal.set (py "steps") (.steps (row.journal.steps.set name detail)) }

/-- The messages that `merged` does not hold yet, at its end and each once. -/
def mergeWarnings (merged : List PyStr) (messages : List PyStr) : List PyStr :=
  messages.foldl (fun merged message =>
    if message ∈ merged then merged else merged ++ [message]) merged

/-- The row `record_warnings` saves. -/
def recordWarnings (row : MigrationRow) (messages : List PyStr) : MigrationRow :=
  { row with warnings := mergeWarnings row.warnings messages }

/-- The instance `advance` saves, where the state is the next one. -/
def advance (row : MigrationRow) (state : MigrationState) (now : Time) : Option MigrationRow :=
  if row.state.next? = some state then
    some { row with
      state
      cutoverStarted := if state = .cutover then some now else row.cutoverStarted
      completed := if state = .migrated then some now else row.completed }
  else none

end MigrationRow

/-- What one committed write makes of a stored row. -/
inductive Recorded (row : MigrationRow) : MigrationRow → Prop
  | journal (entries : Journal) (hnew : ∀ entry ∈ entries,
      entry.1 ≠ py "steps" ∧ entry.1 ∉ Journal.mappingNames) :
      Recorded row (row.recordJournal entries)
  | mapping (name : PyStr) (entries : Dict Id) (hname : name ∈ Journal.mappingNames) :
      Recorded row (row.recordMapping name entries)
  | step (name : PyStr) (detail : Json) : Recorded row (row.recordStep name detail)
  | warnings (messages : List PyStr) : Recorded row (row.recordWarnings messages)
  | advance {state : MigrationState} {now : Time} {row' : MigrationRow}
      (h : row.advance state now = some row') (hopen : state ≠ .migrated) : Recorded row row'
  /-- The one transaction of `retire_legacy`. -/
  | close {now : Time} {row' : MigrationRow} (messages : List PyStr) (counts : Json)
      (h : row.advance .migrated now = some row') :
      Recorded row ((row'.recordWarnings messages).recordStep (py "cleanup") counts)

/-- One row still records all that another one did. -/
structure MigrationRow.Kept (row row' : MigrationRow) : Prop where
  keys : ∀ k, (row.journal.get? k).isSome = true → (row'.journal.get? k).isSome = true
  mappings : ∀ name ∈ Journal.mappingNames, ∀ k,
    ((row.journal.mapping name).get? k).isSome = true →
      ((row'.journal.mapping name).get? k).isSome = true
  steps : ∀ name, row.journal.stepDone name = true → row'.journal.stepDone name = true
  warnings : ∀ message ∈ row.warnings, message ∈ row'.warnings

theorem MigrationRow.Kept.refl (row : MigrationRow) : row.Kept row :=
  ⟨fun _ h => h, fun _ _ _ h => h, fun _ h => h, fun _ h => h⟩

theorem MigrationRow.Kept.trans {row row' row'' : MigrationRow} (h : row.Kept row')
    (h' : row'.Kept row'') : row.Kept row'' :=
  ⟨fun k hk => h'.keys k (h.keys k hk),
    fun name hname k hk => h'.mappings name hname k (h.mappings name hname k hk),
    fun name hk => h'.steps name (h.steps name hk),
    fun message hk => h'.warnings message (h.warnings message hk)⟩

/-! ## What a write leaves alone -/

namespace Journal

variable {journal entries : Journal} {name name' : PyStr} {detail : Json}

theorem steps_congr {journal' : Journal}
    (h : journal'.get? (py "steps") = journal.get? (py "steps")) :
    journal'.steps = journal.steps := by
  simp only [steps, h]

theorem mapping_congr {journal' : Journal} (h : journal'.get? name = journal.get? name) :
    journal'.mapping name = journal.mapping name := by
  simp only [mapping, h]

theorem schedules_congr {journal' : Journal}
    (h : journal'.get? (py "schedules") = journal.get? (py "schedules")) :
    journal'.schedules = journal.schedules := by
  simp only [schedules, h]

theorem steps_ne_of_mem_mappingNames (h : name ∈ mappingNames) : py "steps" ≠ name := by
  rintro rfl
  revert h
  decide

theorem schedules_ne_of_mem_mappingNames (h : name ∈ mappingNames) : py "schedules" ≠ name := by
  rintro rfl
  revert h
  decide

theorem notMem_keys (h : ∀ entry ∈ entries, entry.1 ≠ name) : name ∉ entries.map Prod.fst := by
  intro hmem
  obtain ⟨entry, hentry, rfl⟩ := List.mem_map.mp hmem
  exact h entry hentry rfl

end Journal

section Writes

variable {row : MigrationRow} {entries : Journal} {name name' : PyStr} {detail : Json}

@[simp] theorem steps_recordStep :
    (row.recordStep name detail).journal.steps = row.journal.steps.set name detail := by
  simp [MigrationRow.recordStep, Journal.steps]

@[simp] theorem stepDone_recordStep_self :
    (row.recordStep name detail).journal.stepDone name = true := by
  simp [Journal.stepDone]

theorem stepDone_recordStep_of_ne (h : name' ≠ name) :
    (row.recordStep name detail).journal.stepDone name' = row.journal.stepDone name' := by
  simp [Journal.stepDone, Dict.get?_set_of_ne h]

@[simp] theorem mapping_recordStep (h : name' ∈ Journal.mappingNames) :
    (row.recordStep name detail).journal.mapping name' = row.journal.mapping name' :=
  Journal.mapping_congr
    (Dict.get?_set_of_ne (Journal.steps_ne_of_mem_mappingNames h).symm)

@[simp] theorem schedules_recordStep :
    (row.recordStep name detail).journal.schedules = row.journal.schedules :=
  Journal.schedules_congr (Dict.get?_set_of_ne (by decide))

@[simp] theorem mapping_recordMapping_self {entries : Dict Id} :
    (row.recordMapping name entries).journal.mapping name =
      (row.journal.mapping name).update entries := by
  simp [MigrationRow.recordMapping, Journal.mapping]

theorem mapping_recordMapping_of_ne {entries : Dict Id} (h : name' ≠ name) :
    (row.recordMapping name entries).journal.mapping name' = row.journal.mapping name' :=
  Journal.mapping_congr (Dict.get?_set_of_ne h)

theorem steps_recordMapping {entries : Dict Id} (h : name ∈ Journal.mappingNames) :
    (row.recordMapping name entries).journal.steps = row.journal.steps :=
  Journal.steps_congr (Dict.get?_set_of_ne (Journal.steps_ne_of_mem_mappingNames h))

theorem schedules_recordMapping {entries : Dict Id} (h : name ∈ Journal.mappingNames) :
    (row.recordMapping name entries).journal.schedules = row.journal.schedules :=
  Journal.schedules_congr (Dict.get?_set_of_ne (Journal.schedules_ne_of_mem_mappingNames h))

theorem steps_recordJournal (h : ∀ entry ∈ entries,
    entry.1 ≠ py "steps" ∧ entry.1 ∉ Journal.mappingNames) :
    (row.recordJournal entries).journal.steps = row.journal.steps :=
  Journal.steps_congr (Dict.get?_update_of_notMem
    (Journal.notMem_keys fun entry hentry => (h entry hentry).1))

theorem mapping_recordJournal (h : ∀ entry ∈ entries,
    entry.1 ≠ py "steps" ∧ entry.1 ∉ Journal.mappingNames) (hname : name ∈ Journal.mappingNames) :
    (row.recordJournal entries).journal.mapping name = row.journal.mapping name :=
  Journal.mapping_congr (Dict.get?_update_of_notMem
    (Journal.notMem_keys fun entry hentry heq => (h entry hentry).2 (heq ▸ hname)))

/-- The warnings there are stay in front. -/
theorem prefix_mergeWarnings (merged messages : List PyStr) :
    merged <+: MigrationRow.mergeWarnings merged messages := by
  unfold MigrationRow.mergeWarnings
  induction messages generalizing merged with
  | nil => exact List.prefix_rfl
  | cons message messages ih =>
    rw [List.foldl_cons]
    split_ifs with hmem
    · exact ih merged
    · exact (List.prefix_append merged [message]).trans (ih _)

theorem advance_eq_some {state : MigrationState} {now : Time} {row' : MigrationRow}
    (h : row.advance state now = some row') : row.state.next? = some state ∧ row'.state = state ∧
      row'.journal = row.journal ∧ row'.warnings = row.warnings := by
  unfold MigrationRow.advance at h
  split at h
  next hnext =>
    cases h
    exact ⟨hnext, rfl, rfl, rfl⟩
  · cases h

end Writes

/-- A step that is recorded keeps the others. -/
theorem stepDone_recordStep {row : MigrationRow} {name name' : PyStr} {detail : Json}
    (h : row.journal.stepDone name' = true) :
    (row.recordStep name detail).journal.stepDone name' = true := by
  rcases eq_or_ne name' name with rfl | hne
  · exact stepDone_recordStep_self
  · rwa [stepDone_recordStep_of_ne hne]

/-- **A write loses nothing**. -/
theorem Recorded.kept {row row' : MigrationRow} (h : Recorded row row') : row.Kept row' := by
  cases h with
  | journal entries hnew =>
    refine ⟨fun k hk => Dict.isSome_get?_update hk, fun name hname k hk => ?_, fun name hk => ?_,
      fun message hk => hk⟩
    · rwa [mapping_recordJournal hnew hname]
    · rwa [Journal.stepDone, steps_recordJournal hnew]
  | mapping name entries hname =>
    refine ⟨fun k hk => Dict.isSome_get?_set hk, fun name' _ k hk => ?_, fun name' hk => ?_,
      fun message hk => hk⟩
    · rcases eq_or_ne name' name with rfl | hne
      · rw [mapping_recordMapping_self]
        exact Dict.isSome_get?_update hk
      · rwa [mapping_recordMapping_of_ne hne]
    · rwa [Journal.stepDone, steps_recordMapping hname]
  | step name detail =>
    refine ⟨fun k hk => Dict.isSome_get?_set hk, fun name' hname' k hk => ?_,
      fun name' hk => stepDone_recordStep hk, fun message hk => hk⟩
    rwa [mapping_recordStep hname']
  | warnings messages =>
    exact ⟨fun k hk => hk, fun _ _ _ hk => hk, fun _ hk => hk,
      fun message hk => (prefix_mergeWarnings _ _).subset hk⟩
  | advance h _ =>
    obtain ⟨-, -, hjournal, hwarnings⟩ := advance_eq_some h
    refine ⟨?_, ?_, ?_, ?_⟩
    · exact fun k hk => hjournal ▸ hk
    · exact fun name _ k hk => hjournal ▸ hk
    · exact fun name hk => hjournal ▸ hk
    · exact fun message hk => hwarnings ▸ hk
  | close messages counts h =>
    obtain ⟨-, -, hjournal, hwarnings⟩ := advance_eq_some h
    refine ⟨fun k hk => Dict.isSome_get?_set (hjournal ▸ hk), fun name hname k hk => ?_,
      fun name hk => stepDone_recordStep ?_, fun message hk => ?_⟩
    · rw [mapping_recordStep hname]
      exact hjournal ▸ hk
    · exact hjournal ▸ hk
    · exact (prefix_mergeWarnings _ _).subset (hwarnings ▸ hk)

/-- **The state** stays or moves one step. -/
theorem Recorded.state {row row' : MigrationRow} (h : Recorded row row') :
    row'.state = row.state ∨ row.state.next? = some row'.state := by
  cases h with
  | journal entries _ => exact .inl rfl
  | mapping name entries _ => exact .inl rfl
  | step name detail => exact .inl rfl
  | warnings messages => exact .inl rfl
  | advance h _ =>
    obtain ⟨hnext, hstate, -⟩ := advance_eq_some h
    exact .inr (hstate ▸ hnext)
  | close messages counts h =>
    obtain ⟨hnext, hstate, -⟩ := advance_eq_some h
    exact .inr (hnext.trans (congrArg some hstate.symm))

end NetBoxScripts
