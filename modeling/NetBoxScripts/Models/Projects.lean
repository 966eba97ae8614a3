import NetBoxScripts.Concurrency.Table
import NetBoxScripts.Models.Rows

/-!
# Saving projects

`ScriptProject.clean` and `save` (`models/projects.py`), the data paths they compare
(`validators.py`), and the gate on the fields that decide what a project serves
(`permissions.py`).

## Main definitions

* `normalizeDataPath`, `dataPathsOverlap`: the canonical data path, and when two share files
* `movedSourceFields`, `unpermittedSourceMoves`: the source gate
* `cleanProject`, `saveProject`: the check of an instance, and its save under the lock

## Main results

* `dataPathsOverlap_iff`: paths overlap when one's segments start the other's
* `overlappingSibling_eq_none_iff`: what an instance without an overlap has been compared with
* `saveProject_ok`, `mem_of_saveRefusal`: what a save has passed, and what it may move
-/

namespace NetBoxScripts

/-! ## Data paths -/

/-- Why `normalize_data_path` refuses a value. -/
inductive DataPathError
  | backslash | controlCharacter | absolute | traversal
  deriving DecidableEq, Repr

/-- `normalize_data_path(value)` -/
def normalizeDataPath (value : PyStr) : Except DataPathError PyStr :=
  let value := strip value
  if value = [] then .ok []
  else if backslash ∈ value then .error .backslash
  else if value.any fun c => c < 32 ∨ c = 127 then .error .controlCharacter
  else if value.head? = some slash then .error .absolute
  else
    let segments := (split value).filter fun segment => segment ≠ [] ∧ segment ≠ py "."
    if py ".." ∈ segments then .error .traversal else .ok (join segments)

/-- The directories a data path names, none for the root. -/
def dataSegments (path : PyStr) : List PyStr := if path = [] then [] else split path

/-- `data_paths_overlap(path_a, path_b)` -/
def dataPathsOverlap (pathA pathB : PyStr) : Bool :=
  if pathA = pathB then true
  else
    let segmentsA := dataSegments pathA
    let segmentsB := dataSegments pathB
    let (shorter, longer) := if segmentsA.length ≤ segmentsB.length then (segmentsA, segmentsB)
      else (segmentsB, segmentsA)
    longer.take shorter.length = shorter

/-- Two paths overlap when the directories of one start those of the other. -/
theorem dataPathsOverlap_iff (pathA pathB : PyStr) : dataPathsOverlap pathA pathB = true ↔
    dataSegments pathA <+: dataSegments pathB ∨ dataSegments pathB <+: dataSegments pathA := by
  unfold dataPathsOverlap
  split_ifs with heq
  · simp [heq]
  · dsimp only
    split_ifs with hle
    · rw [decide_eq_true_eq, eq_comm, ← List.prefix_iff_eq_take]
      refine ⟨.inl, fun h => h.elim id fun hpre => ?_⟩
      exact hpre.eq_of_length_le hle ▸ List.prefix_rfl
    · rw [decide_eq_true_eq, eq_comm, ← List.prefix_iff_eq_take]
      refine ⟨.inr, fun h => h.elim (fun hpre => ?_) id⟩
      exact hpre.eq_of_length_le (by omega) ▸ List.prefix_rfl

theorem dataPathsOverlap_comm (pathA pathB : PyStr) :
    dataPathsOverlap pathA pathB = dataPathsOverlap pathB pathA := by
  rw [Bool.eq_iff_iff, dataPathsOverlap_iff, dataPathsOverlap_iff, or_comm]

example : dataPathsOverlap (py "automation/netbox") (py "automation/netbox-old") = false := by
  decide

/-! ## Instances -/

/-- `GATED_SOURCE_FIELDS` -/
inductive GatedField
  | activationPolicy | dataSource | dataPath
  deriving DecidableEq, Repr

/-- The columns of a project. -/
inductive ProjectField
  | key | storageKey | sourceType | activeRevision | sourceRevision | sourceActivationPending
  | enabled
  | gated (field : GatedField)
  deriving DecidableEq, Repr

/-- Two rows differ in a gated field. -/
def GatedField.differs : GatedField → ProjectRow → ProjectRow → Bool
  | .activationPolicy, a, b => a.activationPolicy ≠ b.activationPolicy
  | .dataSource, a, b => a.dataSource ≠ b.dataSource
  | .dataPath, a, b => a.dataPath ≠ b.dataPath

/-- A Script Project in memory: its fields, and what the source gate recorded on it. -/
structure ProjectInstance where
  pk : Option Id
  fields : ProjectRow
  /-- `AUTHORIZED_SOURCE_MOVES`, `none` where no gate ran. -/
  authorized : Option (List GatedField)
  deriving DecidableEq, Repr

/-! ## The source gate -/

/-- The gated fields among the submitted values. -/
structure Submitted where
  activationPolicy : Option ActivationPolicy
  dataSource : Option (Option Id)
  dataPath : Option PyStr
  deriving DecidableEq, Repr

/-- `moved_source_fields(pk, submitted)` -/
def movedSourceFields (projects : Table ProjectRow) (pk : Option Id) (submitted : Submitted) :
    Except DataPathError (List GatedField) :=
  if submitted = ⟨none, none, none⟩ then .ok []
  else
    match pk.bind projects.row with
    | none => .ok []
    | some stored => do
      let policy := if submitted.activationPolicy.any (· ≠ stored.activationPolicy) then
        [GatedField.activationPolicy] else []
      let source := if submitted.dataSource.any (· ≠ stored.dataSource) then
        [GatedField.dataSource] else []
      -- canonicalized on the way in, so a trailing separator is no move
      let path ← submitted.dataPath.mapM normalizeDataPath
      return policy ++ source ++ if path.any (· ≠ stored.dataPath) then [.dataPath] else []

/-- `unpermitted_source_moves(user, project, submitted)`, with the instance as it is left.
`hasPerm` is the user's activate permission on the project, `none` without a user. -/
def unpermittedSourceMoves (projects : Table ProjectRow) (hasPerm : Option Bool)
    (project : ProjectInstance) (submitted : Submitted) :
    Except DataPathError (List GatedField × ProjectInstance) :=
  match hasPerm with
  | none => .ok ([], project)
  | some allowed => do
    let moved ← movedSourceFields projects project.pk submitted
    if moved ≠ [] ∧ allowed = false then return (moved, project)
    else return ([], { project with authorized := some moved })

/-- A submitted value is another one than the stored row's. -/
def Submitted.Moves (submitted : Submitted) (stored : ProjectRow) : GatedField → Prop
  | .activationPolicy => ∃ value, submitted.activationPolicy = some value ∧
      value ≠ stored.activationPolicy
  | .dataSource => ∃ value, submitted.dataSource = some value ∧ value ≠ stored.dataSource
  | .dataPath => ∃ value canonical, submitted.dataPath = some value ∧
      normalizeDataPath value = .ok canonical ∧ canonical ≠ stored.dataPath

/-- The fields the gate calls moved are those the request moves. -/
theorem moves_of_mem_movedSourceFields {projects : Table ProjectRow} {pk : Option Id}
    {submitted : Submitted} {moved : List GatedField}
    (h : movedSourceFields projects pk submitted = .ok moved) {field : GatedField}
    (hmem : field ∈ moved) :
    ∃ stored, pk.bind projects.row = some stored ∧ submitted.Moves stored field := by
  unfold movedSourceFields at h
  split_ifs at h with hnone
  · cases h
    cases hmem
  split at h
  · cases h
    cases hmem
  next stored hstored =>
  refine ⟨stored, hstored, ?_⟩
  obtain ⟨path, hpath, hmoved⟩ := Except.bind_eq_ok_iff.mp h
  cases hmoved
  rw [List.mem_append, List.mem_append] at hmem
  obtain (hmem | hmem) | hmem := hmem
  · split_ifs at hmem with hany
    · obtain rfl := List.mem_singleton.mp hmem
      obtain ⟨value, hvalue, hne⟩ := (Option.any_eq_true _ _).mp hany
      exact ⟨value, hvalue, of_decide_eq_true hne⟩
    · cases hmem
  · split_ifs at hmem with hany
    · obtain rfl := List.mem_singleton.mp hmem
      obtain ⟨value, hvalue, hne⟩ := (Option.any_eq_true _ _).mp hany
      exact ⟨value, hvalue, of_decide_eq_true hne⟩
    · cases hmem
  · split_ifs at hmem with hany
    · obtain rfl := List.mem_singleton.mp hmem
      obtain ⟨canonical, rfl, hne⟩ := (Option.any_eq_true _ _).mp hany
      cases hvalue : submitted.dataPath with
      | none =>
        rw [hvalue] at hpath
        cases hpath
      | some value =>
        rw [hvalue] at hpath
        obtain ⟨canonical', hcanonical, heq⟩ := Except.bind_eq_ok_iff.mp hpath
        cases heq
        exact ⟨value, canonical, hvalue, hcanonical, of_decide_eq_true hne⟩
    · cases hmem

/-- What the gate records on an instance it lets through. -/
theorem unpermittedSourceMoves_ok {projects : Table ProjectRow} {allowed : Bool}
    {project gated : ProjectInstance} {submitted : Submitted}
    (h : unpermittedSourceMoves projects (some allowed) project submitted = .ok ([], gated)) :
    gated.pk = project.pk ∧ gated.fields = project.fields ∧ ∃ moved,
      gated.authorized = some moved ∧ ∀ field ∈ moved, allowed = true ∧
        ∃ stored, project.pk.bind projects.row = some stored ∧
          submitted.Moves stored field := by
  obtain ⟨moved, hmoved, h⟩ := Except.bind_eq_ok_iff.mp h
  split_ifs at h with hrefused
  · cases h
    exact absurd rfl hrefused.1
  · cases h
    refine ⟨rfl, rfl, moved, rfl, fun field hmem => ⟨?_, moves_of_mem_movedSourceFields hmoved hmem⟩⟩
    cases allowed with
    | true => rfl
    | false => exact absurd ⟨List.ne_nil_of_mem hmem, rfl⟩ hrefused

/-! ## Checking an instance -/

/-- Why `_active_revision_error` refuses a pointer. -/
inductive PointerError
  | missing | otherProject | notActive | noDigest
  deriving DecidableEq, Repr

/-- `_active_revision_error()` -/
def activeRevisionError (revisions : Table RevisionRow) (project : ProjectInstance) :
    Option PointerError :=
  project.fields.activeRevision.bind fun id =>
    match revisions.row id with
    | none => some .missing
    | some revision =>
      if some revision.project ≠ project.pk then some .otherProject
      else if revision.status ≠ .active then some .notActive
      else if revision.digest = none then some .noDigest
      else none

/-- `_overlapping_sibling()` -/
def overlappingSibling (projects : Table ProjectRow) (project : ProjectInstance) : Option Id :=
  (projects.entries.find? fun other => other.2.sourceType = .dataSource ∧
    other.2.dataSource = project.fields.dataSource ∧ some other.1 ≠ project.pk ∧
    dataPathsOverlap project.fields.dataPath other.2.dataPath).map Prod.fst

/-- Why `clean` refuses a data path. -/
inductive DataPathProblem
  | invalid (error : DataPathError) | required | foreign | overlaps (other : Id)
  deriving DecidableEq, Repr

/-- Why `clean` refuses a data source. -/
inductive DataSourceProblem
  | required | foreign
  deriving DecidableEq, Repr

/-- The errors `clean` collects, by field. -/
structure ProjectErrors where
  dataPath : Option DataPathProblem
  dataSource : Option DataSourceProblem
  activeRevision : Option PointerError
  key : Bool
  sourceType : Bool
  deriving DecidableEq, Repr

/-- What is wrong with the data source. -/
def dataSourceProblem (fields : ProjectRow) : Option DataSourceProblem :=
  match fields.sourceType with
  | .dataSource => if fields.dataSource = none then some .required else none
  | .upload => if fields.dataSource ≠ none then some .foreign else none

/-- What is wrong with the data path, before it is compared with others. -/
def dataPathProblem (fields : ProjectRow) (invalid : Option DataPathError) :
    Option DataPathProblem :=
  match fields.sourceType with
  | .dataSource => if fields.dataPath = [] ∧ invalid = none then some .required
    else invalid.map .invalid
  | .upload => if fields.dataPath ≠ [] then some .foreign else invalid.map .invalid

/-- The errors of an instance whose data path is canonical, or could not be made so. -/
def projectErrors (projects : Table ProjectRow) (revisions : Table RevisionRow)
    (project : ProjectInstance) (invalid : Option DataPathError) : ProjectErrors where
  dataPath := (dataPathProblem project.fields invalid).or <|
    if project.fields.sourceType = .dataSource ∧ project.fields.dataSource ≠ none then
      (overlappingSibling projects project).map .overlaps
    else none
  dataSource := dataSourceProblem project.fields
  activeRevision := activeRevisionError revisions project
  key := (project.pk.bind projects.row).any (·.key ≠ project.fields.key)
  sourceType := (project.pk.bind projects.row).any (·.sourceType ≠ project.fields.sourceType)

/-- The instance if it has no errors. -/
def ProjectErrors.check (errors : ProjectErrors) (project : ProjectInstance) :
    Except ProjectErrors ProjectInstance :=
  if errors = ⟨none, none, none, false, false⟩ then .ok project else .error errors

/-- `clean()`, with the instance it leaves. -/
def cleanProject (projects : Table ProjectRow) (revisions : Table RevisionRow)
    (project : ProjectInstance) : Except ProjectErrors ProjectInstance :=
  match normalizeDataPath project.fields.dataPath with
  | .ok path =>
    let project := { project with fields := { project.fields with dataPath := path } }
    (projectErrors projects revisions project none).check project
  | .error error => (projectErrors projects revisions project (some error)).check project

/-- An instance has no overlapping sibling when it has been compared with every other project of
its data source. -/
theorem overlappingSibling_eq_none_iff {projects : Table ProjectRow} {project : ProjectInstance} :
    overlappingSibling projects project = none ↔ ∀ i row, projects.row i = some row →
      row.sourceType = .dataSource → row.dataSource = project.fields.dataSource →
      some i ≠ project.pk → dataPathsOverlap project.fields.dataPath row.dataPath = false := by
  rw [overlappingSibling, Option.map_eq_none_iff, List.find?_eq_none]
  constructor
  · intro h i row hrow htype hsource hpk
    have := h (i, row) (Table.mem_entries.mpr hrow)
    simpa [htype, hsource, hpk] using this
  · rintro h ⟨i, row⟩ hmem hall
    obtain ⟨htype, hsource, hpk, hoverlap⟩ := of_decide_eq_true hall
    have := h i row (Table.mem_entries.mp hmem) htype hsource hpk
    exact absurd hoverlap (by simp [this])

/-- A Data Source project that `clean` lets through overlaps none that it read. -/
theorem cleanProject_ok {projects : Table ProjectRow} {revisions : Table RevisionRow}
    {project cleaned : ProjectInstance}
    (h : cleanProject projects revisions project = .ok cleaned) :
    cleaned.pk = project.pk ∧ cleaned.authorized = project.authorized ∧
      (cleaned.fields.sourceType = .dataSource → overlappingSibling projects cleaned = none) := by
  have hcheck : ∀ checked invalid, (projectErrors projects revisions checked invalid).check checked =
      .ok cleaned → checked = cleaned ∧
        (cleaned.fields.sourceType = .dataSource → overlappingSibling projects cleaned = none) := by
    intro checked invalid hok
    unfold ProjectErrors.check at hok
    split_ifs at hok with hnone
    cases hok
    obtain ⟨hproblem, hsource, -⟩ := ProjectErrors.mk.inj hnone
    refine ⟨rfl, fun hbacked => ?_⟩
    have hdata : cleaned.fields.dataSource ≠ none := by
      intro hdata
      simp [dataSourceProblem, hbacked, hdata] at hsource
    simpa [hbacked, hdata] using (Option.or_eq_none_iff.mp hproblem).2
  unfold cleanProject at h
  split at h
  · obtain ⟨rfl, hoverlap⟩ := hcheck _ _ h
    exact ⟨rfl, rfl, hoverlap⟩
  · obtain ⟨rfl, hoverlap⟩ := hcheck _ _ h
    exact ⟨rfl, rfl, hoverlap⟩

/-! ## Saving an instance -/

/-- How a save is refused. -/
inductive ProjectRefusal
  | missing
  | identityChanged
  | unauthorizedMoves (fields : List GatedField)
  | activeRevision (error : PointerError)
  | integrity
  deriving DecidableEq, Repr

/-- A save writes a column: it names none, or names this one. -/
def writes (updateFields : Option (List ProjectField)) (field : ProjectField) : Bool :=
  updateFields.all fun fields => field ∈ fields

/-- The row with the columns a save writes. -/
def ProjectRow.overwrite (row fields : ProjectRow) (updateFields : Option (List ProjectField)) :
    ProjectRow where
  key := if writes updateFields .key then fields.key else row.key
  storageKey := if writes updateFields .storageKey then fields.storageKey else row.storageKey
  sourceType := if writes updateFields .sourceType then fields.sourceType else row.sourceType
  dataSource := if writes updateFields (.gated .dataSource) then fields.dataSource
    else row.dataSource
  dataPath := if writes updateFields (.gated .dataPath) then fields.dataPath else row.dataPath
  activationPolicy := if writes updateFields (.gated .activationPolicy) then
    fields.activationPolicy else row.activationPolicy
  activeRevision := if writes updateFields .activeRevision then fields.activeRevision
    else row.activeRevision
  sourceRevision := if writes updateFields .sourceRevision then fields.sourceRevision
    else row.sourceRevision
  sourceActivationPending := if writes updateFields .sourceActivationPending then
    fields.sourceActivationPending else row.sourceActivationPending
  enabled := if writes updateFields .enabled then fields.enabled else row.enabled

/-- The constraint `enforce_source_ownership`. -/
def ownsSource (row : ProjectRow) : Bool :=
  match row.sourceType with
  | .upload => row.dataSource = none ∧ row.dataPath = []
  | .dataSource => row.dataSource ≠ none ∧ row.dataPath ≠ []

/-- Two rows break a unique constraint: of `key`, `storage_key`, or `unique_data_source_path`. -/
def clashes (a b : ProjectRow) : Bool :=
  a.key = b.key ∨ a.storageKey = b.storageKey ∨
    (a.sourceType = .dataSource ∧ b.sourceType = .dataSource ∧ a.dataSource = b.dataSource ∧
      a.dataPath = b.dataPath)

/-- The statement that writes a row, under the table's constraints. -/
def storeProject (projects : Table ProjectRow) (pk : Option Id) (row : ProjectRow) :
    Except ProjectRefusal (Table ProjectRow) :=
  if ownsSource row = false ∨
      projects.entries.any (fun other => some other.1 ≠ pk ∧ clashes row other.2) then
    .error .integrity
  else
    match pk with
    | none => .ok (projects.insert row)
    | some pk => .ok (projects.modify pk fun _ => row)

/-- The gated fields a save would move without being authorized to. -/
def unauthorizedMoves (authorized : List GatedField) (fields original : ProjectRow)
    (updateFields : Option (List ProjectField)) : List GatedField :=
  [GatedField.activationPolicy, .dataSource, .dataPath].filter fun field =>
    writes updateFields (.gated field) ∧ field.differs fields original ∧ field ∉ authorized

/-- The fields as a save leaves them on the instance: markers and pointer of a stale instance are
discarded. -/
def ProjectInstance.restored (project : ProjectInstance) (original : ProjectRow)
    (updateFields : Option (List ProjectField)) : ProjectRow :=
  { project.fields with
    sourceRevision := original.sourceRevision
    sourceActivationPending := original.sourceActivationPending
    activeRevision := if updateFields = none then original.activeRevision
      else project.fields.activeRevision }

/-- Why `_save_project` refuses the restored fields of an instance. -/
def saveRefusal (revisions : Table RevisionRow) (project : ProjectInstance)
    (fields original : ProjectRow) (updateFields : Option (List ProjectField)) :
    Option ProjectRefusal :=
  if original.key ≠ fields.key ∨ original.sourceType ≠ fields.sourceType ∨
      original.storageKey ≠ fields.storageKey then some .identityChanged
  else
    -- no record means no gate ran, so there is nothing to compare
    match project.authorized.elim [] fun authorized =>
      unauthorizedMoves authorized fields original updateFields with
    | [] =>
      if writes updateFields .activeRevision then
        (activeRevisionError revisions { project with fields }).map .activeRevision
      else none
    | moves => some (.unauthorizedMoves moves)

/-- `_save_project(original=..., update_fields=...)`; `original` is the row read under the lock. -/
def saveProject (projects : Table ProjectRow) (revisions : Table RevisionRow)
    (project : ProjectInstance) (original : Option ProjectRow)
    (updateFields : Option (List ProjectField)) : Except ProjectRefusal (Table ProjectRow) :=
  match project.pk with
  | none =>
    match activeRevisionError revisions project with
    | some error => .error (.activeRevision error)
    | none => storeProject projects none project.fields
  | some pk =>
    match original, projects.row pk with
    | some original, some row =>
      let fields := project.restored original updateFields
      match saveRefusal revisions project fields original updateFields with
      | some refusal => .error refusal
      | none => storeProject projects (some pk) (row.overwrite fields updateFields)
    -- no request deletes a project
    | _, _ => .error .missing

theorem storeProject_ok {projects projects' : Table ProjectRow} {pk : Option Id} {row : ProjectRow}
    (h : storeProject projects pk row = .ok projects') :
    projects' = pk.elim (projects.insert row) fun pk => projects.modify pk fun _ => row := by
  unfold storeProject at h
  split_ifs at h with hclash
  split at h
  · exact (Except.ok.inj h).symm
  · exact (Except.ok.inj h).symm

/-- What a save of a stored project has passed, and what it leaves. -/
theorem saveProject_ok {projects projects' : Table ProjectRow} {revisions : Table RevisionRow}
    {project : ProjectInstance} {original : Option ProjectRow}
    {updateFields : Option (List ProjectField)} {pk : Id} (hpk : project.pk = some pk)
    (h : saveProject projects revisions project original updateFields = .ok projects') :
    ∃ row read, projects.row pk = some row ∧ original = some read ∧
      saveRefusal revisions project (project.restored read updateFields) read updateFields = none ∧
      projects' = projects.modify pk fun _ =>
        row.overwrite (project.restored read updateFields) updateFields := by
  simp only [saveProject, hpk] at h
  split at h
  next original read row hrow =>
    split at h
    · cases h
    next hnone =>
      exact ⟨row, read, hrow, rfl, hnone, storeProject_ok h⟩
  · cases h

/-- A gated field that a save changes in the row is one it writes, with another value. -/
theorem differs_overwrite {field : GatedField} {row fields : ProjectRow}
    {updateFields : Option (List ProjectField)}
    (h : field.differs row (row.overwrite fields updateFields) = true) :
    writes updateFields (.gated field) = true ∧ field.differs fields row = true := by
  cases hwrites : writes updateFields (.gated field) with
  | false =>
    cases field <;> simp [GatedField.differs, ProjectRow.overwrite, hwrites] at h
  | true =>
    refine ⟨rfl, ?_⟩
    cases field <;>
      simp only [GatedField.differs, ProjectRow.overwrite, hwrites, if_true, decide_eq_true_eq]
        at h ⊢ <;>
      exact Ne.symm h

/-- Rows agree on the gated fields. -/
def SameGated (a b : ProjectRow) : Prop := ∀ field : GatedField, field.differs a b = false

theorem SameGated.refl (a : ProjectRow) : SameGated a a := by
  intro field
  cases field <;> simp [GatedField.differs]

theorem SameGated.differs_congr {a b c : ProjectRow} (h : SameGated b c) (field : GatedField) :
    field.differs a b = field.differs a c := by
  have := h field
  cases field <;> simp only [GatedField.differs, decide_eq_false_iff_not, not_not] at this <;>
    simp only [GatedField.differs, this]

/-- A save that was not refused moves only the gated fields it is authorized to move. -/
theorem mem_of_saveRefusal {revisions : Table RevisionRow} {project : ProjectInstance}
    {fields original : ProjectRow} {updateFields : Option (List ProjectField)}
    {authorized : List GatedField} (hauthorized : project.authorized = some authorized)
    (h : saveRefusal revisions project fields original updateFields = none) {field : GatedField}
    (hwrites : writes updateFields (.gated field) = true)
    (hdiffers : field.differs fields original = true) : field ∈ authorized := by
  rw [saveRefusal, hauthorized, Option.elim_some] at h
  split at h
  · cases h
  split at h
  next hnil =>
    by_contra hmem
    have hin : field ∈ unauthorizedMoves authorized fields original updateFields := by
      refine List.mem_filter.mpr ⟨?_, decide_eq_true ⟨hwrites, hdiffers, hmem⟩⟩
      cases field <;> simp
    rw [hnil] at hin
    cases hin
  · cases h

end NetBoxScripts
