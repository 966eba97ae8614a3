import NetBoxScripts.Concurrency.Table
import NetBoxScripts.Runtime.Introspection

/-!
# Synchronizing Script rows

`synchronize_scripts` over whole rows and over the records as a revision stores them: what it
writes, what it counts, and which columns it leaves to operators. A row is looked up by its
identity, and only the fields that differ are saved.

## Main definitions

* `NetBoxScript`: a Script row with the columns operators own
* `saveChanges`: `_save_changes`
* `synchronizeScriptRows`: the rows a synchronization leaves and its `ScriptSyncResult`
* `Syncing`: what the loop over the records has made of the rows

## Main results

* `Syncing.run`: the loop over the records
* `foldl_retireRow`: the loop over the rows that are left
-/

namespace NetBoxScripts

/-! ## Rows -/

/-- `NetBoxScript` -/
structure NetBoxScript where
  project : Id
  modulePath : PyStr
  className : PyStr
  displayName : PyStr
  description : PyStr
  metadata : Json
  isRetired : Bool
  lastSeenRevision : Option Id
  enabled : Bool
  commitDefaultOverride : Option Bool
  jobTimeoutOverride : Option ℕ
  notificationsDefaultOverride : PyStr

/-- One of the `values` of a save. -/
inductive ScriptValue
  | displayName (s : PyStr)
  | description (s : PyStr)
  | metadata (value : Json)
  | isRetired (b : Bool)
  | lastSeenRevision (r : Id)

namespace NetBoxScript

/-- The identity of a row. -/
def identity (row : NetBoxScript) : ScriptIdentity := (row.modulePath, row.className)

/-- Whether the row has another value. -/
def differs (row : NetBoxScript) : ScriptValue → Bool
  | .displayName s => row.displayName ≠ s
  | .description s => row.description ≠ s
  | .metadata value => !row.metadata.same value
  | .isRetired b => row.isRetired ≠ b
  | .lastSeenRevision r => row.lastSeenRevision ≠ some r

/-- `setattr(row, name, values[name])` -/
def assign (row : NetBoxScript) : ScriptValue → NetBoxScript
  | .displayName s => { row with displayName := s }
  | .description s => { row with description := s }
  | .metadata value => { row with metadata := value }
  | .isRetired b => { row with isRetired := b }
  | .lastSeenRevision r => { row with lastSeenRevision := some r }

/-- `_save_changes(row, values)`: the row as it is saved, or `none` where nothing is written. -/
def saveChanges (row : NetBoxScript) (values : List ScriptValue) : Option NetBoxScript :=
  let changed := values.filter row.differs
  if changed.isEmpty then none else some (changed.foldl assign row)

/-- The row after `_save_changes`. -/
def saved (row : NetBoxScript) (values : List ScriptValue) : NetBoxScript :=
  (row.saveChanges values).getD row

/-- The columns that are not the synchronizer's. -/
structure SameOwned (a b : NetBoxScript) : Prop where
  project : b.project = a.project
  identity : b.identity = a.identity
  enabled : b.enabled = a.enabled
  commitDefaultOverride : b.commitDefaultOverride = a.commitDefaultOverride
  jobTimeoutOverride : b.jobTimeoutOverride = a.jobTimeoutOverride
  notificationsDefaultOverride : b.notificationsDefaultOverride = a.notificationsDefaultOverride

end NetBoxScript

/-- What one record publishes. -/
structure RecordedScript where
  modulePath : PyStr
  className : PyStr
  displayName : PyStr
  description : PyStr
  metadata : Json

/-- The identity of a record. -/
def RecordedScript.identity (script : RecordedScript) : ScriptIdentity :=
  (script.modulePath, script.className)

/-- The lookups of the loop in one record; `none` is a `KeyError`. -/
def recordedScript (record : Json) : Option RecordedScript := do
  let modulePath ← textOf record (py "module_path")
  let className ← textOf record (py "class_name")
  let displayName ← textOf record (py "display_name")
  let description ← textOf record (py "description")
  let metadata ← record.get? (py "metadata")
  return ⟨modulePath, className, displayName, description, metadata⟩

/-- The `values` of one record. -/
def publishedValues (r : Id) (script : RecordedScript) : List ScriptValue :=
  [.displayName script.displayName, .description script.description, .metadata script.metadata,
    .isRetired false, .lastSeenRevision r]

/-- `objects.create(project=project, module_path=…, class_name=…, **values)` -/
def createdScript (p r : Id) (script : RecordedScript) : NetBoxScript where
  project := p
  modulePath := script.modulePath
  className := script.className
  displayName := script.displayName
  description := script.description
  metadata := script.metadata
  isRetired := false
  lastSeenRevision := some r
  enabled := true
  commitDefaultOverride := none
  jobTimeoutOverride := none
  notificationsDefaultOverride := []

/-! ## One call -/

/-- The table, the rows that no record named yet, and the counts. -/
structure SyncState where
  table : Table NetBoxScript
  rows : List (Id × NetBoxScript)
  written : ℕ
  retired : ℕ

/-- `ScriptSyncResult` -/
structure ScriptSyncResult where
  published : ℕ
  retired : ℕ
  written : ℕ
  deriving DecidableEq, Repr

/-- One turn of the loop over the records; `none` where it raises. -/
def syncRecord (p r : Id) (st : SyncState) (record : Json) : Option SyncState :=
  (recordedScript record).bind fun script =>
    match st.rows.find? fun row => row.2.identity = script.identity with
    | none =>
      -- `unique_project_module_class`
      if st.table.entries.any fun row => row.2.project = p ∧ row.2.identity = script.identity then
        none
      else some { st with
        table := st.table.insert (createdScript p r script)
        written := st.written + 1 }
    | some (i, row) =>
      let rows := st.rows.filter fun row => row.2.identity ≠ script.identity
      match row.saveChanges (publishedValues r script) with
      | none => some { st with rows := rows }
      | some new => some { st with
          table := st.table.modify i fun _ => new
          rows := rows
          written := st.written + 1 }

/-- One turn of the loop over the rows that are left. -/
def retireRow (st : SyncState) (row : Id × NetBoxScript) : SyncState :=
  match row.2.saveChanges [.isRetired true] with
  | none => st
  | some new => { st with
      table := st.table.modify row.1 fun _ => new
      written := st.written + 1
      retired := st.retired + 1 }

/-- `project.scripts.order_by('pk')` -/
def projectScripts (p : Id) (table : Table NetBoxScript) : List (Id × NetBoxScript) :=
  table.entries.filter fun row => row.2.project = p

/-- `synchronize_scripts(project, revision, records)` -/
def synchronizeScriptRows (p r : Id) (records : List Json) (table : Table NetBoxScript) :
    Option (Table NetBoxScript × ScriptSyncResult) :=
  (records.foldlM (syncRecord p r) ⟨table, projectScripts p table, 0, 0⟩).map fun st =>
    let st := st.rows.foldl retireRow st
    (st.table, ⟨records.length, st.retired, st.written⟩)

/-! ## Saving -/

section Save

variable {row a : NetBoxScript} {values : List ScriptValue} {r : Id} {script : RecordedScript}

/-- A field assigned where it differs has the value. -/
def assignChanged (row a : NetBoxScript) (value : ScriptValue) : NetBoxScript :=
  if row.differs value then a.assign value else a

theorem saved_eq_foldl : row.saved values = values.foldl (assignChanged row) row := by
  have hfold : ∀ (values : List ScriptValue) (a : NetBoxScript),
      (values.filter row.differs).foldl NetBoxScript.assign a =
        values.foldl (assignChanged row) a := by
    intro values
    -- a value that does not differ is filtered on one side, skipped on the other
    induction values with
    | nil => exact fun _ => rfl
    | cons value values ih =>
      intro a
      rw [List.filter_cons, List.foldl_cons, assignChanged]
      split_ifs with hdiffers
      · exact ih _
      · exact ih _
  rw [← hfold, NetBoxScript.saved, NetBoxScript.saveChanges]
  split_ifs with hempty
  · rw [List.isEmpty_iff.mp hempty]
    rfl
  · rfl

theorem assignChanged_displayName {s : PyStr} (h : a.displayName = row.displayName) :
    assignChanged row a (.displayName s) = { a with displayName := s } := by
  rw [assignChanged]
  split_ifs with hdiffers
  · rfl
  -- equal values: the assignment would change nothing
  · have heq : row.displayName = s := by simpa [NetBoxScript.differs] using hdiffers
    rw [← heq, ← h]

theorem assignChanged_description {s : PyStr} (h : a.description = row.description) :
    assignChanged row a (.description s) = { a with description := s } := by
  rw [assignChanged]
  split_ifs with hdiffers
  · rfl
  · have heq : row.description = s := by simpa [NetBoxScript.differs] using hdiffers
    rw [← heq, ← h]

theorem assignChanged_metadata {value : Json} (h : a.metadata = row.metadata) :
    assignChanged row a (.metadata value) =
      { a with metadata := if row.metadata.same value then row.metadata else value } := by
  rw [assignChanged]
  by_cases hsame : row.metadata.same value = true
  · rw [if_neg (by simp [NetBoxScript.differs, Json.same_iff.mp hsame]), if_pos hsame, ← h]
  · have hdiffers : row.differs (.metadata value) = true := by
      rw [NetBoxScript.differs, Bool.eq_false_iff.mpr hsame, Bool.not_false]
    rw [if_pos hdiffers, if_neg hsame]
    rfl

theorem assignChanged_isRetired {b : Bool} (h : a.isRetired = row.isRetired) :
    assignChanged row a (.isRetired b) = { a with isRetired := b } := by
  rw [assignChanged]
  split_ifs with hdiffers
  · rfl
  · have heq : row.isRetired = b := by simpa [NetBoxScript.differs] using hdiffers
    rw [← heq, ← h]

theorem assignChanged_lastSeenRevision {r : Id} (h : a.lastSeenRevision = row.lastSeenRevision) :
    assignChanged row a (.lastSeenRevision r) = { a with lastSeenRevision := some r } := by
  rw [assignChanged]
  split_ifs with hdiffers
  · rfl
  · have heq : row.lastSeenRevision = some r := by simpa [NetBoxScript.differs] using hdiffers
    rw [← heq, ← h]

/-- A row after it was published; equal metadata stay as they are written. -/
theorem saved_publishedValues : row.saved (publishedValues r script) =
    { row with
      displayName := script.displayName
      description := script.description
      metadata := if row.metadata.same script.metadata then row.metadata else script.metadata
      isRetired := false
      lastSeenRevision := some r } := by
  rw [saved_eq_foldl]
  simp only [publishedValues, List.foldl_cons, List.foldl_nil, assignChanged_displayName,
    assignChanged_description, assignChanged_metadata, assignChanged_isRetired,
    assignChanged_lastSeenRevision]

/-- A row after it was retired. -/
theorem saved_isRetired : row.saved [.isRetired true] = { row with isRetired := true } := by
  rw [saved_eq_foldl, List.foldl_cons, assignChanged_isRetired rfl, List.foldl_nil]

theorem saveChanges_eq_none_iff :
    row.saveChanges values = none ↔ ∀ value ∈ values, row.differs value = false := by
  rw [NetBoxScript.saveChanges]
  simp only [ite_eq_left_iff, reduceCtorEq, imp_false, not_not, List.isEmpty_iff,
    List.filter_eq_nil_iff, Bool.not_eq_true]

/-- What a save that writes leaves. -/
theorem saveChanges_cases {new : NetBoxScript} (h : row.saveChanges values = some new) :
    row.saved values = new := by
  rw [NetBoxScript.saved, h, Option.getD_some]

theorem saved_of_saveChanges_none (h : row.saveChanges values = none) :
    row.saved values = row := by
  rw [NetBoxScript.saved, h, Option.getD_none]

theorem saved_publishedValues_ne {new : NetBoxScript}
    (h : row.saveChanges (publishedValues r script) = some new) : new ≠ row := by
  intro heq
  have hsaved := saveChanges_cases h
  rw [heq, saved_publishedValues] at hsaved
  have hnone : row.saveChanges (publishedValues r script) = none := by
    rw [saveChanges_eq_none_iff]
    have hmetadata : row.metadata.same script.metadata = true := by
      by_contra hsame
      have := congrArg NetBoxScript.metadata hsaved
      rw [if_neg hsame] at this
      exact hsame (Json.same_iff.mpr (congrArg Json.seen this.symm))
    have hdisplay := congrArg NetBoxScript.displayName hsaved
    have hdescription := congrArg NetBoxScript.description hsaved
    have hretired := congrArg NetBoxScript.isRetired hsaved
    have hseen := congrArg NetBoxScript.lastSeenRevision hsaved
    dsimp only at hdisplay hdescription hretired hseen
    simp only [publishedValues, List.forall_mem_cons, NetBoxScript.differs, hmetadata, ← hdisplay,
      ← hdescription, ← hretired, ← hseen, List.not_mem_nil, false_imp_iff, implies_true,
      ne_eq, not_true_eq_false, decide_false, Bool.not_true, and_self]
  -- a row that already has every value is not written
  rw [hnone] at h
  cases h

theorem saved_isRetired_ne {new : NetBoxScript}
    (h : row.saveChanges [.isRetired true] = some new) : row.isRetired = false := by
  by_contra hretired
  have hnone : row.saveChanges [.isRetired true] = none := by
    rw [saveChanges_eq_none_iff]
    simpa [NetBoxScript.differs] using hretired
  rw [hnone] at h
  cases h

end Save

/-! ## The loop over the records -/

section Loop

variable {p r : Id} {T : Table NetBoxScript} {done : List RecordedScript} {st : SyncState}
  {script : RecordedScript} {i : Id} {row : NetBoxScript}

/-- `unique_project_module_class` -/
def UniqueRows (table : Table NetBoxScript) : Prop :=
  ∀ i j a b, table.row i = some a → table.row j = some b → a.project = b.project →
    a.identity = b.identity → i = j

/-- The row is one of the project's, under the identity of the record. -/
def HasIdentity (p : Id) (script : RecordedScript) (row : NetBoxScript) : Prop :=
  row.project = p ∧ row.identity = script.identity

/-- The row is one of the project's that a record names. -/
def IsRecorded (p : Id) (scripts : List RecordedScript) (row : NetBoxScript) : Prop :=
  row.project = p ∧ row.identity ∈ scripts.map RecordedScript.identity

/-- **What the loop has made of the rows there were** when some of the records are done. -/
structure Syncing (p r : Id) (T : Table NetBoxScript) (done : List RecordedScript)
    (st : SyncState) : Prop where
  rows : ∀ i row, (i, row) ∈ st.rows ↔
    T.row i = some row ∧ row.project = p ∧ row.identity ∉ done.map RecordedScript.identity
  nodup : (st.rows.map Prod.fst).Nodup
  kept : ∀ i row, T.row i = some row → ¬ IsRecorded p done row → st.table.row i = some row
  saved : ∀ i row, T.row i = some row → ∀ script ∈ done, HasIdentity p script row →
    st.table.row i = some (row.saved (publishedValues r script))
  created : ∀ i row, T.row i = none → st.table.row i = some row → ∃ script ∈ done,
    row = createdScript p r script ∧ ∀ j a, T.row j = some a → ¬ HasIdentity p script a
  created_once : ∀ i j a b, T.row i = none → T.row j = none → st.table.row i = some a →
    st.table.row j = some b → a.identity = b.identity → i = j
  complete : ∀ script ∈ done, (∃ i row, T.row i = some row ∧ HasIdentity p script row) ∨
    ∃ i, T.row i = none ∧ st.table.row i = some (createdScript p r script)
  next_le : T.next ≤ st.table.next
  next_eq : (∀ script ∈ done, ∃ i row, T.row i = some row ∧ HasIdentity p script row) →
    st.table.next = T.next
  retired : st.retired = 0
  written : ∃ ids : List Id, ids.Nodup ∧ ids.length = st.written ∧
    ∀ i, i ∈ ids ↔ st.table.row i ≠ T.row i

theorem identity_saved : (row.saved (publishedValues r script)).identity = row.identity := by
  rw [saved_publishedValues]
  rfl

theorem project_saved : (row.saved (publishedValues r script)).project = row.project := by
  rw [saved_publishedValues]

theorem isRecorded_concat : IsRecorded p (done ++ [script]) row ↔
    IsRecorded p done row ∨ HasIdentity p script row := by
  simp only [IsRecorded, HasIdentity, List.map_append, List.map_cons, List.map_nil,
    List.mem_append, List.mem_singleton]
  tauto

theorem syncing_nil : Syncing p r T [] ⟨T, projectScripts p T, 0, 0⟩ := by
  have hmem : ∀ i row, (i, row) ∈ projectScripts p T ↔ T.row i = some row ∧ row.project = p := by
    intro i row
    rw [projectScripts, List.mem_filter, Table.mem_entries, decide_eq_true_eq]
  refine ⟨fun i row => by simp [hmem], ?_, fun i row h _ => h, nofun, ?_, ?_, nofun, le_refl _,
    fun _ => rfl, rfl, [], List.nodup_nil, rfl, fun i => by simp⟩
  -- the keys of the entries are those of a range
  · refine (List.filter_sublist.map Prod.fst).nodup ?_
    rw [Table.entries, List.map_filterMap]
    refine List.Nodup.filterMap (fun a b k ha hb => ?_) List.nodup_range
    simp only [Option.map_map, Option.mem_map, Function.comp_apply] at ha hb
    obtain ⟨-, -, rfl⟩ := ha
    obtain ⟨-, -, rfl⟩ := hb
    rfl
  · intro i row hnone h
    rw [hnone] at h
    cases h
  · intro i j a b hnone _ h
    rw [hnone] at h
    cases h

/-- A row of the project in the table has an identity that was there or is done. -/
theorem Syncing.identity_of_row (h : Syncing p r T done st) (hrow : st.table.row i = some row)
    (hidentity : HasIdentity p script row)
    (hnew : script.identity ∉ done.map RecordedScript.identity) : T.row i = some row := by
  cases hT : T.row i with
  -- a created row has the identity of a record that is done
  | none =>
    obtain ⟨other, hother, rfl, -⟩ := h.created i row hT hrow
    exact absurd (hidentity.2 ▸ List.mem_map_of_mem hother) hnew
  | some a =>
    -- so has a saved one; what is left was kept
    by_cases hrecorded : IsRecorded p done a
    · obtain ⟨hproject, hmem⟩ := hrecorded
      obtain ⟨other, hother, heq⟩ := List.mem_map.mp hmem
      have hsaved := h.saved i a hT other hother ⟨hproject, heq.symm⟩
      rw [hsaved] at hrow
      cases hrow
      have hsame : a.identity = script.identity := identity_saved.symm.trans hidentity.2
      exact absurd (hsame ▸ hmem) hnew
    · rw [h.kept i a hT hrecorded] at hrow
      exact hrow

/-- **A record no row has the identity of** is published under a new key. -/
theorem Syncing.create (h : Syncing p r T done st)
    (hnew : script.identity ∉ done.map RecordedScript.identity)
    (hnone : ∀ j a, T.row j = some a → ¬ HasIdentity p script a) :
    Syncing p r T (done ++ [script])
      { st with
        table := st.table.insert (createdScript p r script)
        written := st.written + 1 } := by
  have hfresh : T.row st.table.next = none := T.fresh _ h.next_le
  -- no row of the table is recorded by the new script
  have hother : ∀ {i a}, T.row i = some a → (IsRecorded p (done ++ [script]) a ↔
      IsRecorded p done a) := by
    intro i a ha
    rw [isRecorded_concat]
    exact ⟨fun hor => hor.resolve_right (hnone i a ha), .inl⟩
  constructor
  · intro i row
    rw [h.rows]
    refine and_congr_right fun hT => and_congr_right fun hproject => ?_
    have := hnone i row hT
    simp only [List.map_append, List.map_cons, List.map_nil, List.mem_append, List.mem_singleton,
      not_or]
    exact ⟨fun hnot => ⟨hnot, fun heq => this ⟨hproject, heq⟩⟩, And.left⟩
  · exact h.nodup
  · intro i row hT hnot
    exact Table.row_insert_of_row (h.kept i row hT fun hrecorded => hnot ((hother hT).mpr hrecorded))
  · intro i row hT other hmem hidentity
    rcases List.mem_append.mp hmem with hmem | hmem
    · exact Table.row_insert_of_row (h.saved i row hT other hmem hidentity)
    · obtain rfl := List.mem_singleton.mp hmem
      exact absurd hidentity (hnone i row hT)
  · intro i row hT hrow
    rcases Table.row_insert_eq_some hrow with ⟨-, rfl⟩ | hrow
    · exact ⟨script, List.mem_concat_self, rfl, hnone⟩
    · obtain ⟨other, hmem, heq⟩ := h.created i row hT hrow
      exact ⟨other, List.mem_append_left _ hmem, heq⟩
  -- two created rows: the new one has an identity that is not done
  · have hold : ∀ {i a}, T.row i = none → st.table.row i = some a →
        a.identity ≠ script.identity := by
      intro i a hT ha heq
      obtain ⟨other, hmem, rfl, -⟩ := h.created i a hT ha
      exact hnew (heq ▸ List.mem_map_of_mem hmem)
    intro i j a b hi hj ha hb heq
    rcases Table.row_insert_eq_some ha with ⟨rfl, rfl⟩ | ha <;>
      rcases Table.row_insert_eq_some hb with ⟨rfl, rfl⟩ | hb
    · rfl
    · exact absurd heq.symm (hold hj hb)
    · exact absurd heq (hold hi ha)
    · exact h.created_once i j a b hi hj ha hb heq
  · intro other hmem
    rcases List.mem_append.mp hmem with hmem | hmem
    · refine (h.complete other hmem).imp id ?_
      rintro ⟨i, hT, hrow⟩
      exact ⟨i, hT, Table.row_insert_of_row hrow⟩
    · obtain rfl := List.mem_singleton.mp hmem
      exact .inr ⟨st.table.next, hfresh, Table.row_insert_next⟩
  · exact Nat.le_succ_of_le h.next_le
  · intro hall
    obtain ⟨i, row, hT, hidentity⟩ := hall script List.mem_concat_self
    exact absurd hidentity (hnone i row hT)
  · exact h.retired
  · obtain ⟨ids, hnodup, hlength, hids⟩ := h.written
    -- the new key is written, and it was free before
    have hnotMem : st.table.next ∉ ids := by
      intro hmem
      exact (hids _).mp hmem (Table.row_next.trans hfresh.symm)
    refine ⟨st.table.next :: ids, List.nodup_cons.mpr ⟨hnotMem, hnodup⟩, by simp [hlength], ?_⟩
    intro i
    rw [List.mem_cons, hids, Table.row_insert]
    by_cases hi : i = st.table.next
    · simp [hi, hfresh]
    · simp [hi]

/-- The rows a record leaves for those after it. -/
theorem Syncing.rows_popped (h : Syncing p r T done st) (i : Id) (row : NetBoxScript) :
    (i, row) ∈ st.rows.filter (fun row => row.2.identity ≠ script.identity) ↔
      T.row i = some row ∧ row.project = p ∧
        row.identity ∉ (done ++ [script]).map RecordedScript.identity := by
  rw [List.mem_filter, h.rows]
  simp only [decide_eq_true_eq, List.map_append, List.map_cons, List.map_nil, List.mem_append,
    List.mem_singleton, not_or]
  tauto

/-- **A record whose identity a row has** is saved to that row. -/
theorem Syncing.publish (h : Syncing p r T done st) (hunique : UniqueRows T)
    (hnew : script.identity ∉ done.map RecordedScript.identity) (hmem : (i, row) ∈ st.rows)
    (hidentity : row.identity = script.identity) {table : Table NetBoxScript} {written : ℕ}
    (hsaved : table.row i = some (row.saved (publishedValues r script)))
    (hothers : ∀ j ≠ i, table.row j = st.table.row j) (hnext : table.next = st.table.next)
    (hwritten : ∃ ids : List Id, ids.Nodup ∧ ids.length = written ∧
      ∀ j, j ∈ ids ↔ table.row j ≠ T.row j) :
    Syncing p r T (done ++ [script])
      { st with
        table := table
        rows := st.rows.filter fun row => row.2.identity ≠ script.identity
        written := written } := by
  obtain ⟨hT, hproject, hnot⟩ := (h.rows i row).mp hmem
  have hhas : HasIdentity p script row := ⟨hproject, hidentity⟩
  -- `unique_project_module_class`: no other row has the identity
  have honly : ∀ j a, T.row j = some a → HasIdentity p script a → j = i := by
    intro j a ha hida
    exact hunique j i a row ha hT (hida.1.trans hproject.symm) (hida.2.trans hidentity.symm)
  constructor
  · exact h.rows_popped
  · exact (List.filter_sublist.map Prod.fst).nodup h.nodup
  · intro j a ha hother
    rw [isRecorded_concat, not_or] at hother
    have hj : j ≠ i := by
      rintro rfl
      rw [hT] at ha
      cases ha
      exact hother.2 hhas
    rw [hothers j hj]
    exact h.kept j a ha hother.1
  · intro j a ha other hother hida
    -- a record that was done names another row; the new one names this row
    rcases List.mem_append.mp hother with hother | hother
    · have hj : j ≠ i := by
        rintro rfl
        rw [hT] at ha
        cases ha
        exact hnot (hida.2 ▸ List.mem_map_of_mem hother)
      rw [hothers j hj]
      exact h.saved j a ha other hother hida
    · obtain rfl := List.mem_singleton.mp hother
      obtain rfl := honly j a ha hida
      rw [hT] at ha
      cases ha
      exact hsaved
  · intro j a hnone ha
    have hj : j ≠ i := by
      rintro rfl
      rw [hT] at hnone
      cases hnone
    rw [hothers j hj] at ha
    obtain ⟨other, hother, heq⟩ := h.created j a hnone ha
    exact ⟨other, List.mem_append_left _ hother, heq⟩
  · have hfree : ∀ {j}, T.row j = none → j ≠ i := by
      rintro j hnone rfl
      rw [hT] at hnone
      cases hnone
    intro j k a b hj hk ha hb
    rw [hothers j (hfree hj)] at ha
    rw [hothers k (hfree hk)] at hb
    exact h.created_once j k a b hj hk ha hb
  · intro other hother
    rcases List.mem_append.mp hother with hother | hother
    · refine (h.complete other hother).imp id ?_
      rintro ⟨j, hnone, hrow⟩
      have hj : j ≠ i := by
        rintro rfl
        rw [hT] at hnone
        cases hnone
      exact ⟨j, hnone, (hothers j hj).trans hrow⟩
    · obtain rfl := List.mem_singleton.mp hother
      exact .inl ⟨i, row, hT, hhas⟩
  · exact h.next_le.trans hnext.ge
  · intro hall
    rw [hnext]
    exact h.next_eq fun other hother => hall other (List.mem_append_left _ hother)
  · exact h.retired
  · exact hwritten

/-- **One turn of the loop** does not raise, and the record is done. -/
theorem Syncing.step (h : Syncing p r T done st) (hunique : UniqueRows T) {record : Json}
    (hrecord : recordedScript record = some script)
    (hnew : script.identity ∉ done.map RecordedScript.identity) :
    ∃ st', syncRecord p r st record = some st' ∧ Syncing p r T (done ++ [script]) st' := by
  rw [syncRecord, hrecord, Option.bind_some]
  cases hfind : st.rows.find? fun row => row.2.identity = script.identity with
  | none =>
    have hnone : ∀ j a, T.row j = some a → ¬ HasIdentity p script a := by
      rintro j a ha ⟨hproject, hidentity⟩
      have hmem := (h.rows j a).mpr ⟨ha, hproject, hidentity ▸ hnew⟩
      exact List.find?_eq_none.mp hfind (j, a) hmem (decide_eq_true hidentity)
    -- the constraint does not fire: a row with the identity would have been found
    have hfree : (st.table.entries.any fun row =>
        row.2.project = p ∧ row.2.identity = script.identity) = false := by
      refine List.any_eq_false.mpr fun ⟨j, a⟩ hmem hsame => ?_
      have hida := of_decide_eq_true hsame
      exact hnone j a (h.identity_of_row (Table.mem_entries.mp hmem) hida hnew) hida
    dsimp only
    rw [hfree]
    exact ⟨_, rfl, h.create hnew hnone⟩
  | some found =>
    obtain ⟨i, row⟩ := found
    have hmem := List.mem_of_find?_eq_some hfind
    have hidentity : row.identity = script.identity := by simpa using List.find?_some hfind
    obtain ⟨hT, hproject, hnot⟩ := (h.rows i row).mp hmem
    -- the row is still as the call found it
    have hrow : st.table.row i = some row := h.kept i row hT fun hrecorded => hnot hrecorded.2
    obtain ⟨ids, hnodup, hlength, hids⟩ := h.written
    dsimp only
    cases hsave : row.saveChanges (publishedValues r script) with
    | none =>
      refine ⟨_, rfl, h.publish hunique hnew hmem hidentity ?_ (fun _ _ => rfl) rfl
        ⟨ids, hnodup, hlength, hids⟩⟩
      rw [hrow, saved_of_saveChanges_none hsave]
    | some new =>
      have hnotMem : i ∉ ids := fun hi => (hids i).mp hi (hrow.trans hT.symm)
      refine ⟨_, rfl, h.publish hunique hnew hmem hidentity ?_
        (fun j hj => Table.row_modify_of_ne hj) rfl
        ⟨i :: ids, List.nodup_cons.mpr ⟨hnotMem, hnodup⟩, by simp [hlength], ?_⟩⟩
      · rw [Table.row_modify_self, hrow, Option.map_some, saveChanges_cases hsave]
      · intro j
        rw [List.mem_cons, hids]
        rcases eq_or_ne j i with rfl | hj
        · have hne := saved_publishedValues_ne hsave
          simp [hrow, hT, hne]
        · rw [Table.row_modify_of_ne hj]
          exact or_iff_right hj

/-- **The whole loop** over records of distinct identities. -/
theorem Syncing.run (h : Syncing p r T done st) (hunique : UniqueRows T) {records : List Json}
    {scripts : List RecordedScript}
    (hrecords : List.Forall₂ (fun record script => recordedScript record = some script)
      records scripts)
    (hnodup : ((done ++ scripts).map RecordedScript.identity).Nodup) :
    ∃ st', records.foldlM (syncRecord p r) st = some st' ∧ Syncing p r T (done ++ scripts) st' := by
  induction hrecords generalizing done st with
  | nil => exact ⟨st, rfl, by rwa [List.append_nil]⟩
  | @cons record script records scripts hrecord _ ih =>
    -- the identities still to come are none of those done
    have hnew : script.identity ∉ done.map RecordedScript.identity := by
      intro hmem
      rw [List.map_append, List.map_cons] at hnodup
      exact (List.nodup_append.mp hnodup).2.2 _ hmem _ List.mem_cons_self rfl
    obtain ⟨st₁, hstep, h₁⟩ := h.step hunique hrecord hnew
    rw [List.append_cons] at hnodup ⊢
    obtain ⟨st₂, hrun, h₂⟩ := ih h₁ hnodup
    exact ⟨st₂, by rw [List.foldlM_cons, hstep]; exact hrun, h₂⟩

end Loop

/-! ## The rows that are left -/

section Retire

variable {rows : List (Id × NetBoxScript)} {st : SyncState}

/-- **The loop over the rows that are left** retires each of them, once. -/
theorem foldl_retireRow (hnodup : (rows.map Prod.fst).Nodup)
    (hrows : ∀ row ∈ rows, st.table.row row.1 = some row.2) :
    (∀ row ∈ rows, (rows.foldl retireRow st).table.row row.1 =
      some { row.2 with isRetired := true }) ∧
    (∀ j ∉ rows.map Prod.fst, (rows.foldl retireRow st).table.row j = st.table.row j) ∧
    (rows.foldl retireRow st).table.next = st.table.next ∧
    (rows.foldl retireRow st).written =
      st.written + (rows.filter fun row => !row.2.isRetired).length ∧
    (rows.foldl retireRow st).retired =
      st.retired + (rows.filter fun row => !row.2.isRetired).length := by
  induction rows generalizing st with
  | nil => simp
  | cons row rows ih =>
    rw [List.map_cons, List.nodup_cons] at hnodup
    rw [List.forall_mem_cons] at hrows
    -- one turn writes its own row, and only where it is not retired yet
    have hstep : (retireRow st row).table.row row.1 = some { row.2 with isRetired := true } ∧
        (∀ j ≠ row.1, (retireRow st row).table.row j = st.table.row j) ∧
        (retireRow st row).table.next = st.table.next ∧
        (retireRow st row).written = st.written + (if row.2.isRetired then 0 else 1) ∧
        (retireRow st row).retired = st.retired + (if row.2.isRetired then 0 else 1) := by
      rw [retireRow, ← saved_isRetired]
      cases hsave : row.2.saveChanges [.isRetired true] with
      | none =>
        have hretired : row.2.isRetired = true := by
          simpa [NetBoxScript.differs] using saveChanges_eq_none_iff.mp hsave (.isRetired true)
        rw [saved_of_saveChanges_none hsave, hretired]
        exact ⟨hrows.1, fun _ _ => rfl, rfl, rfl, rfl⟩
      | some new =>
        rw [saveChanges_cases hsave, saved_isRetired_ne hsave]
        exact ⟨by rw [Table.row_modify_self, hrows.1, Option.map_some],
          fun j hj => Table.row_modify_of_ne hj, rfl, rfl, rfl⟩
    obtain ⟨hself, hothers, hnext, hwritten, hretired⟩ := hstep
    -- the keys are distinct, so the rows still to come are untouched
    have hlater : ∀ other ∈ rows, (retireRow st row).table.row other.1 = some other.2 := by
      intro other hother
      have hne : other.1 ≠ row.1 := by
        intro heq
        exact hnodup.1 (heq ▸ List.mem_map_of_mem hother)
      rw [hothers _ hne]
      exact hrows.2 other hother
    obtain ⟨ih₁, ih₂, ih₃, ih₄, ih₅⟩ := ih hnodup.2 hlater
    have hcount : ((row :: rows).filter fun row => !row.2.isRetired).length =
        (if row.2.isRetired then 0 else 1) + (rows.filter fun row => !row.2.isRetired).length := by
      rw [List.filter_cons]
      cases row.2.isRetired <;> simp [Nat.add_comm]
    rw [List.foldl_cons]
    refine ⟨List.forall_mem_cons.mpr ⟨?_, ih₁⟩, ?_, ih₃.trans hnext, ?_, ?_⟩
    · rw [ih₂ _ hnodup.1, hself]
    · intro j hj
      rw [List.map_cons, List.mem_cons, not_or] at hj
      rw [ih₂ j hj.2, hothers j hj.1]
    · rw [ih₄, hwritten, hcount, Nat.add_assoc]
    · rw [ih₅, hretired, hcount, Nat.add_assoc]

end Retire

end NetBoxScripts
