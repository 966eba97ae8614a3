import NetBoxScripts.Database.World
import NetBoxScripts.Execution.Blocks
import NetBoxScripts.Models.Declarations
import NetBoxScripts.Models.ProjectTrees
import Mathlib.Data.List.Dedup

/-!
# Selecting script files

`ScriptProject.select_script_files` (`models/projects.py`): what a user selects among the modules
of a project's source becomes its enabled declarations. New paths are declared one at a time, each
of them cleaned against the rows just written; rows whose switch differs are updated; and the
permissions are asked before and after. All of it is one transaction.

Paths are compared as they are spelled, and a new declaration is stored under its canonical
spelling. A path that is spelled in another way is therefore declared and not found again.

## Main definitions

* `sourcePaths`, `scriptFileCandidates`, `declarableScriptFiles`: what can be selected
* `fullClean`: the validation of one new declaration
* `selectScriptFiles`: the transaction
* `SelectedExactly`: what a selection is to leave behind

## Main results

* `createDeclarations_spec`, `updateDeclarations_spec`: what the two loops write
* `selectScriptFiles_rows`: the rows after a selection that returned
* `selectedExactly_iff`: a selection leaves what it is to leave if and only if its new paths are
  canonical, and one that raises leaves everything as it was
-/

namespace NetBoxScripts

section Select

variable [Unicode]

/-! ## What can be selected -/

/-- What the method works on: the project as it was loaded, the paths of the files of each data
source, and what the validation of NetBox's own fields refuses. -/
structure SelectionContext where
  pk : Id
  project : ProjectRow
  dataFiles : Id → List PyStr
  refused : ScriptFileInstance → Bool

/-- `current_revision`: the active revision, or else the latest stored one. -/
def SelectionContext.currentRevision (context : SelectionContext) (w : World) :
    Option RevisionRow :=
  (context.project.activeRevision.bind w.revisions.row).or
    ((w.latestStoredRevision context.pk).map Prod.snd)

/-- `_source_paths()` -/
def sourcePaths (context : SelectionContext) (w : World) : List PyStr :=
  match context.project.sourceType, context.project.dataSource with
  | .dataSource, some source =>
    (context.dataFiles source).filterMap fun path =>
      dataSourceRelativePath path context.project.dataPath
  | _, _ => ((context.currentRevision w).map fun revision =>
      revision.manifest.map ManifestEntry.path).getD []

/-- `script_file_candidates()` -/
def scriptFileCandidates (context : SelectionContext) (w : World) : List PyStr :=
  ((sourcePaths context w).filter fun path => (py ".py").isSuffixOf path).insertionSort (· ≤ ·)

/-- The declarations of a project, `script_files.all()`: no two of them have one path. -/
def declarationsOf (project : Id) (files : Table ScriptFileRow) : List (Id × ScriptFileRow) :=
  files.entries.filter fun file => file.2.project = project

/-- The paths of the declarations of a project. -/
def declaredPaths (project : Id) (files : Table ScriptFileRow) : List PyStr :=
  (declarationsOf project files).map fun file => file.2.sourcePath

/-- `declarable_script_files()` -/
def declarableScriptFiles (context : SelectionContext) (w : World)
    (files : Table ScriptFileRow) : List PyStr :=
  (declaredPaths context.pk files ++ scriptFileCandidates context w).dedup.insertionSort (· ≤ ·)

/-! ## One new declaration -/

/-- An error of `full_clean()`. -/
inductive CleanError
  | blank
  | tooLong
  | unsafePath (failure : PathFailure)
  | unimportable (error : PathNameError)
  | siblingConflict
  | notUnique
  /-- of one of NetBox's own fields -/
  | refused
  deriving DecidableEq, Repr

/-- The `max_length` of `source_path`. -/
def sourcePathMaxLength : ℕ := 1000

/-- `clean_fields()`, of the path as it was given. -/
def cleanFields (path : PyStr) : List CleanError :=
  (if path = [] then [.blank] else []) ++
    if sourcePathMaxLength < path.length then [.tooLong] else []

/-- `clean()`, which makes the path canonical. -/
def cleanDeclaration (files : Table ScriptFileRow) (file : ScriptFileInstance) :
    Except CleanError ScriptFileInstance :=
  match normalizeSourcePath file.sourcePath with
  | .error failure => .error (.unsafePath failure)
  | .ok path =>
    match sourcePathToDottedName path with
    | .error error => .error (.unimportable error)
    | .ok _ =>
      if siblingPathConflict files file path then .error .siblingConflict
      else .ok { file with sourcePath := path }

/-- `full_clean()` of a new declaration. -/
def fullClean (context : SelectionContext) (files : Table ScriptFileRow)
    (file : ScriptFileInstance) : Except (List CleanError) ScriptFileInstance :=
  match cleanDeclaration files file with
  | .error error => .error (cleanFields file.sourcePath ++ [error])
  | .ok cleaned =>
    let errors := cleanFields file.sourcePath ++
      (if context.refused cleaned then [.refused] else []) ++
      if cleaned.sourcePath ∈ declaredPaths cleaned.project files then [.notUnique] else []
    if errors = [] then .ok cleaned else .error errors

/-! ## The transaction -/

/-- What a permission is asked for. -/
inductive PermissionAction
  | add
  | change
  deriving DecidableEq, Repr

/-- The rows of a table that an action of a user reaches, `restrict(user, action)`. -/
abbrev UserScope := PermissionAction → Table ScriptFileRow → Id → Bool

/-- `validate_script_file_permissions(user, created, changed)` -/
def validateScriptFilePermissions (user : Option UserScope) (created changed : List Id)
    (files : Table ScriptFileRow) : Bool :=
  match user with
  | none => true
  | some scope => [(PermissionAction.add, created), (.change, changed)].all fun asked =>
      asked.2.all fun pk => (files.row pk).isSome && scope asked.1 files pk

/-- Why a selection raises. -/
inductive SelectionError
  | unknownPaths (paths : List PyStr)
  | permissionsViolation
  | invalid (errors : List CleanError)
  | save (refusal : SaveRefusal)
  deriving DecidableEq, Repr

/-- The state of the transaction: the rows, and the keys of the new ones. -/
structure Selection where
  files : Table ScriptFileRow
  created : List Id

/-- The rows, as the one store of the transaction. -/
def filesStore : Store Selection Unit (Table ScriptFileRow) where
  get s _ := s.files
  put s _ files := { s with files }
  get_put _ _ _ := by
    funext key
    cases key
    simp

/-- The loop over the paths that are not declared yet. -/
def createDeclarations (context : SelectionContext) :
    List PyStr → Block Selection SelectionError
  | [] => fun s => (s, none)
  | path :: paths => fun s =>
    match fullClean context s.files ⟨none, context.pk, path, true⟩ with
    | .error errors => (s, some (.invalid errors))
    | .ok file =>
      match saveDeclaration s.files file .all with
      | .error refusal => (s, some (.save refusal))
      | .ok files => createDeclarations context paths ⟨files, s.created ++ [s.files.next]⟩

/-- The loop over the declarations whose switch differs. -/
def updateDeclarations (selected : List PyStr) :
    List (Id × ScriptFileRow) → Block Selection SelectionError
  | [] => fun s => (s, none)
  | (pk, item) :: items => fun s =>
    match saveDeclaration s.files
        ⟨some pk, item.project, item.sourcePath, decide (item.sourcePath ∈ selected)⟩ .enabled with
    | .error refusal => (s, some (.save refusal))
    | .ok files => updateDeclarations selected items { s with files }

/-- The declarations whose switch is not what the selection asks for. -/
def changedDeclarations (project : Id) (selected : List PyStr) (files : Table ScriptFileRow) :
    List (Id × ScriptFileRow) :=
  (declarationsOf project files).filter fun file =>
    file.2.enabled ≠ decide (file.2.sourcePath ∈ selected)

/-- The selected paths that are not declared, sorted. -/
def newPaths (project : Id) (selected : List PyStr) (files : Table ScriptFileRow) : List PyStr :=
  (selected.dedup.filter (· ∉ declaredPaths project files)).insertionSort (· ≤ ·)

/-- What `select_script_files` does under its lock. -/
def selectDeclarations (context : SelectionContext) (w : World) (user : Option UserScope)
    (selected : List PyStr) : Block Selection SelectionError := fun s =>
  let unknown := selected.dedup.filter (· ∉ declarableScriptFiles context w s.files)
  let changed := changedDeclarations context.pk selected s.files
  if unknown ≠ [] then (s, some (.unknownPaths (unknown.insertionSort (· ≤ ·))))
  else if !validateScriptFilePermissions user [] (changed.map Prod.fst) s.files then
    (s, some .permissionsViolation)
  else
    match createDeclarations context (newPaths context.pk selected s.files) s with
    | (s, some error) => (s, some error)
    | (s, none) =>
      match updateDeclarations selected changed s with
      | (s, some error) => (s, some error)
      | (s, none) =>
        if !validateScriptFilePermissions user s.created (changed.map Prod.fst) s.files then
          (s, some .permissionsViolation)
        else (s, none)

/-- `select_script_files(paths, user)`: the rows it leaves, and whether the enabled set changed or
why it raised. -/
def selectScriptFiles (context : SelectionContext) (w : World) (user : Option UserScope)
    (selected : List PyStr) (files : Table ScriptFileRow) :
    Table ScriptFileRow × Except SelectionError Bool :=
  match Block.atomic filesStore () (selectDeclarations context w user selected) ⟨files, []⟩ with
  | (s, some error) => (s.files, .error error)
  | (s, none) => (s.files, .ok (decide (s.created ≠ [] ∨
      changedDeclarations context.pk selected files ≠ [])))

end Select

/-! ## What the loops write -/

section Loops

variable {context : SelectionContext} {files files' : Table ScriptFileRow}
  {selected : List PyStr} {s s' : Selection} {project : Id}

/-- What the constraint `unique_project_source_path` keeps true of the rows. -/
def UniqueSourcePaths (files : Table ScriptFileRow) : Prop :=
  ∀ i j a b, files.row i = some a → files.row j = some b → a.project = b.project →
    a.sourcePath = b.sourcePath → i = j

theorem mem_declarationsOf {file : Id × ScriptFileRow} : file ∈ declarationsOf project files ↔
    files.row file.1 = some file.2 ∧ file.2.project = project := by
  obtain ⟨i, row⟩ := file
  simp [declarationsOf, Table.mem_entries]

theorem mem_declaredPaths {path : PyStr} : path ∈ declaredPaths project files ↔
    ∃ i row, files.row i = some row ∧ row.project = project ∧ row.sourcePath = path := by
  simp only [declaredPaths, List.mem_map, mem_declarationsOf, Prod.exists]
  constructor
  · rintro ⟨i, row, ⟨hrow, hproject⟩, hpath⟩
    exact ⟨i, row, hrow, hproject, hpath⟩
  · rintro ⟨i, row, hrow, hproject, hpath⟩
    exact ⟨i, row, ⟨hrow, hproject⟩, hpath⟩

theorem mem_newPaths {path : PyStr} : path ∈ newPaths project selected files ↔
    path ∈ selected ∧ path ∉ declaredPaths project files := by
  simp [newPaths]

theorem mem_changedDeclarations {file : Id × ScriptFileRow} :
    file ∈ changedDeclarations project selected files ↔ files.row file.1 = some file.2 ∧
      file.2.project = project ∧ file.2.enabled ≠ decide (file.2.sourcePath ∈ selected) := by
  simp only [changedDeclarations, List.mem_filter, mem_declarationsOf, decide_eq_true_eq, and_assoc]

/-- The row of a new declaration. -/
def freshDeclaration (project : Id) (path : PyStr) : ScriptFileRow :=
  ⟨project, path, true, .pending, [], none⟩

/-- A new path that no row of its project has keeps the paths unique. -/
theorem UniqueSourcePaths.insert (h : UniqueSourcePaths files) {row : ScriptFileRow}
    (hnew : row.sourcePath ∉ declaredPaths row.project files) :
    UniqueSourcePaths (files.insert row) := by
  intro i j a b ha hb hproject hpath
  rcases Table.row_insert_eq_some ha with ⟨rfl, rfl⟩ | hold
  · rcases Table.row_insert_eq_some hb with ⟨rfl, -⟩ | hold
    · rfl
    · exact absurd (mem_declaredPaths.mpr ⟨j, b, hold, hproject.symm, hpath.symm⟩) hnew
  · rcases Table.row_insert_eq_some hb with ⟨rfl, rfl⟩ | hold'
    · exact absurd (mem_declaredPaths.mpr ⟨i, a, hold, hproject, hpath⟩) hnew
    · exact h i j a b hold hold' hproject hpath

/-- What the loop over changed declarations leaves: each of them with the switch the selection
asks for, and every other row as it was. -/
structure Updated (selected : List PyStr) (items : List (Id × ScriptFileRow))
    (s s' : Selection) : Prop where
  next : s'.files.next = s.files.next
  created : s'.created = s.created
  other : ∀ i, i ∉ items.map Prod.fst → s'.files.row i = s.files.row i
  item : ∀ item ∈ items, s'.files.row item.1 = (s.files.row item.1).map fun row =>
    { row with enabled := decide (item.2.sourcePath ∈ selected) }

/-- Neither a project nor a path is updated. -/
theorem Updated.unique {items : List (Id × ScriptFileRow)} (h : Updated selected items s s')
    (hunique : UniqueSourcePaths s.files) : UniqueSourcePaths s'.files := by
  have hback : ∀ i row, s'.files.row i = some row → ∃ old, s.files.row i = some old ∧
      row.project = old.project ∧ row.sourcePath = old.sourcePath := by
    intro i row hrow
    by_cases hmem : i ∈ items.map Prod.fst
    · obtain ⟨item, hitem, rfl⟩ := List.mem_map.mp hmem
      rw [h.item item hitem, Option.map_eq_some_iff] at hrow
      obtain ⟨old, hold, rfl⟩ := hrow
      exact ⟨old, hold, rfl, rfl⟩
    · exact ⟨row, (h.other i hmem).symm.trans hrow, rfl, rfl⟩
  intro i j a b ha hb hproject hpath
  obtain ⟨olda, holda, hprojecta, hpatha⟩ := hback i a ha
  obtain ⟨oldb, holdb, hprojectb, hpathb⟩ := hback j b hb
  exact hunique i j olda oldb holda holdb (by rw [← hprojecta, ← hprojectb, hproject])
    (by rw [← hpatha, ← hpathb, hpath])

/-- A row with the switch a selection asks for, if it is of the project. -/
def switched (project : Id) (selected : List PyStr) (row : ScriptFileRow) : ScriptFileRow :=
  if row.project = project then { row with enabled := decide (row.sourcePath ∈ selected) } else row

variable {row : ScriptFileRow}

@[simp] theorem switched_project : (switched project selected row).project = row.project := by
  unfold switched
  split_ifs <;> rfl

@[simp] theorem switched_sourcePath :
    (switched project selected row).sourcePath = row.sourcePath := by
  unfold switched
  split_ifs <;> rfl

theorem switched_enabled (h : row.project = project) :
    (switched project selected row).enabled = decide (row.sourcePath ∈ selected) := by
  rw [switched, if_pos h]

theorem switched_of_ne (h : row.project ≠ project) : switched project selected row = row :=
  if_neg h

variable [Unicode]

/-- A new declaration that is clean has the canonical spelling of its path, which imports. -/
theorem fullClean_eq_ok {path : PyStr} {file : ScriptFileInstance}
    (h : fullClean context files ⟨none, context.pk, path, true⟩ = .ok file) :
    ∃ canonical dotted, normalizeSourcePath path = .ok canonical ∧
      sourcePathToDottedName canonical = .ok dotted ∧
      file = ⟨none, context.pk, canonical, true⟩ := by
  unfold fullClean at h
  split at h
  · cases h
  next cleaned hcleaned =>
  dsimp only at h
  generalize cleanFields path ++ _ ++ _ = errors at h
  split_ifs at h
  obtain rfl := Except.ok.inj h
  unfold cleanDeclaration at hcleaned
  split at hcleaned
  · cases hcleaned
  next canonical hcanonical =>
  split at hcleaned
  · cases hcleaned
  next dotted hdotted =>
  split_ifs at hcleaned
  exact ⟨canonical, dotted, hcanonical, hdotted, (Except.ok.inj hcleaned).symm⟩

/-- What a new declaration that is cleaned and saved leaves: a row under the canonical path, which
no other row of the project has. -/
theorem create_eq_ok (hlaws : IdentifierLaws) {path : PyStr} {file : ScriptFileInstance}
    (hclean : fullClean context files ⟨none, context.pk, path, true⟩ = .ok file)
    (hsave : saveDeclaration files file .all = .ok files') :
    ∃ canonical, normalizeSourcePath path = .ok canonical ∧ Importable canonical ∧
      canonical ∉ declaredPaths context.pk files ∧
      files' = files.insert (freshDeclaration context.pk canonical) := by
  obtain ⟨canonical, dotted, hcanonical, hdotted, rfl⟩ := fullClean_eq_ok hclean
  have himportable := importable_of_dotted hlaws hcanonical hdotted
  simp only [saveDeclaration, himportable.canonical, hdotted, insertDeclaration] at hsave
  split_ifs at hsave with hconflict hunique
  refine ⟨canonical, hcanonical, himportable, fun hdeclared => hunique ?_,
    (Except.ok.inj hsave).symm⟩
  obtain ⟨i, row, hrow, hproject, hpath⟩ := mem_declaredPaths.mp hdeclared
  exact List.any_eq_true.mpr ⟨(i, row), Table.mem_entries.mpr hrow, by simp [hproject, hpath]⟩

/-- What the loop over new paths leaves: the old rows, and one row for each path, in their order,
under its canonical spelling. -/
structure Created (context : SelectionContext) (paths : List PyStr) (s s' : Selection) : Prop where
  next : s'.files.next = s.files.next + paths.length
  old : ∀ i < s.files.next, s'.files.row i = s.files.row i
  new : ∀ k path, paths[k]? = some path → ∃ canonical,
    normalizeSourcePath path = .ok canonical ∧ Importable canonical ∧
      s'.files.row (s.files.next + k) = some (freshDeclaration context.pk canonical)
  created : s'.created.length = s.created.length + paths.length
  unique : UniqueSourcePaths s'.files

theorem createDeclarations_spec (hlaws : IdentifierLaws) (hunique : UniqueSourcePaths s.files)
    {paths : List PyStr} (h : createDeclarations context paths s = (s', none)) :
    Created context paths s s' := by
  induction paths generalizing s with
  | nil =>
    obtain rfl : s = s' := congrArg Prod.fst h
    exact ⟨rfl, fun _ _ => rfl, by simp, rfl, hunique⟩
  | cons path paths ih =>
    simp only [createDeclarations] at h
    split at h
    · cases h
    next file hclean =>
    split at h
    · cases h
    next files hsave =>
    obtain ⟨canonical, hcanonical, himportable, hnew, rfl⟩ := create_eq_ok hlaws hclean hsave
    have hrest := ih (hunique.insert hnew) h
    have hnext := hrest.next
    have hcreated := hrest.created
    simp only [Table.next_insert, List.length_append, List.length_singleton] at hnext hcreated
    refine ⟨?_, fun i hi => ?_, fun k other hother => ?_, ?_, hrest.unique⟩
    · rw [hnext, List.length_cons]
      omega
    · rw [hrest.old i (by simp only [Table.next_insert]; omega), Table.row_insert_of_lt hi]
    · cases k with
      | zero =>
        obtain rfl : path = other := by simpa using hother
        refine ⟨canonical, hcanonical, himportable, ?_⟩
        rw [Nat.add_zero, hrest.old _ (by simp), Table.row_insert_next]
      | succ k =>
        obtain ⟨canonical', hcanonical', himportable', hrow⟩ :=
          hrest.new k other (by simpa using hother)
        refine ⟨canonical', hcanonical', himportable', ?_⟩
        rw [← hrow, Table.next_insert]
        congr 1
        omega
    · rw [hcreated, List.length_cons]
      omega

/-- A save of the switch alone rewrites the switch alone. -/
theorem saveDeclaration_enabled {pk owner : Id} {path : PyStr} {enabled : Bool}
    (h : saveDeclaration files ⟨some pk, owner, path, enabled⟩ .enabled = .ok files') :
    files' = files.modify pk fun row => { row with enabled } := by
  unfold saveDeclaration at h
  split at h
  · cases h
  split at h
  · cases h
  rw [if_neg (by simp)] at h
  dsimp only at h
  split at h
  · cases h
  · split_ifs at h
    exact (Except.ok.inj h).symm

theorem updateDeclarations_spec {items : List (Id × ScriptFileRow)}
    (hnodup : (items.map Prod.fst).Nodup)
    (h : updateDeclarations selected items s = (s', none)) : Updated selected items s s' := by
  induction items generalizing s with
  | nil =>
    obtain rfl : s = s' := congrArg Prod.fst h
    exact ⟨rfl, rfl, fun _ _ => rfl, by simp⟩
  | cons item items ih =>
    simp only [updateDeclarations] at h
    split at h
    · cases h
    next files hsave =>
    obtain rfl := saveDeclaration_enabled hsave
    rw [List.map_cons, List.nodup_cons] at hnodup
    have hrest := ih hnodup.2 h
    refine ⟨hrest.next, hrest.created, fun i hi => ?_, fun other hother => ?_⟩
    · rw [List.map_cons, List.mem_cons, not_or] at hi
      rw [hrest.other i hi.2]
      exact Table.row_modify_of_ne hi.1
    · rcases List.mem_cons.mp hother with rfl | hother
      · rw [hrest.other _ hnodup.1]
        exact Table.row_modify_self
      · have hne : other.1 ≠ item.1 := fun heq => hnodup.1 (heq ▸ List.mem_map_of_mem hother)
        rw [hrest.item other hother]
        exact congrArg _ (Table.row_modify_of_ne hne)

end Loops

/-! ## What a selection leaves -/

section Exactly

variable [Unicode] {context : SelectionContext} {w : World} {user : Option UserScope}
  {selected : List PyStr} {files after : Table ScriptFileRow} {returned : Bool}

/-- The rows after a selection: the old ones with the switch it asks for, and a new one for each
path that was not declared. -/
structure SelectedRows (context : SelectionContext) (selected : List PyStr)
    (files after : Table ScriptFileRow) : Prop where
  next : after.next = files.next + (newPaths context.pk selected files).length
  old : ∀ i < files.next, after.row i = (files.row i).map (switched context.pk selected)
  new : ∀ k path, (newPaths context.pk selected files)[k]? = some path → ∃ canonical,
    normalizeSourcePath path = .ok canonical ∧ Importable canonical ∧
      after.row (files.next + k) = some (freshDeclaration context.pk canonical)
  unique : UniqueSourcePaths after

/-- A selection that raises nothing has run both loops. -/
theorem selectDeclarations_eq_none {s s₂ : Selection}
    (h : selectDeclarations context w user selected s = (s₂, none)) :
    ∃ s₁, createDeclarations context (newPaths context.pk selected s.files) s = (s₁, none) ∧
      updateDeclarations selected (changedDeclarations context.pk selected s.files) s₁ =
        (s₂, none) := by
  simp only [selectDeclarations] at h
  split_ifs at h
  · simp at h
  · simp at h
  split at h
  · simp at h
  next s₁ hcreate =>
  split at h
  · simp at h
  next s₃ hupdate =>
  split_ifs at h
  · simp at h
  obtain rfl : s₃ = s₂ := congrArg Prod.fst h
  exact ⟨s₁, hcreate, hupdate⟩

/-- A selection that returned leaves what the two loops leave. -/
theorem selectScriptFiles_eq_ok
    (h : selectScriptFiles context w user selected files = (after, .ok returned)) :
    ∃ s : Selection, selectDeclarations context w user selected ⟨files, []⟩ = (s, none) ∧
      after = s.files ∧
      returned = decide (s.created ≠ [] ∨ changedDeclarations context.pk selected files ≠ []) := by
  unfold selectScriptFiles at h
  cases hended : selectDeclarations context w user selected ⟨files, []⟩ with
  | mk s raised =>
    cases raised with
    | some error =>
      rw [Block.atomic_of_raised (by rw [hended])] at h
      simp at h
    | none =>
      rw [Block.atomic_of_returned (by rw [hended]), hended] at h
      simp only [Prod.mk.injEq, Except.ok.injEq] at h
      exact ⟨s, rfl, h.1.symm, h.2.symm⟩

/-- **A selection that raises** leaves the declarations as they were. -/
theorem selectScriptFiles_raised {error : SelectionError}
    (h : selectScriptFiles context w user selected files = (after, .error error)) :
    after = files := by
  unfold selectScriptFiles at h
  cases hended : selectDeclarations context w user selected ⟨files, []⟩ with
  | mk s raised =>
    cases raised with
    | some error =>
      rw [Block.atomic_of_raised (by rw [hended])] at h
      exact (congrArg Prod.fst h).symm
    | none =>
      rw [Block.atomic_of_returned (by rw [hended]), hended] at h
      simp at h

/-- **The rows after a selection that returned**, and what it returned. -/
theorem selectScriptFiles_rows (hlaws : IdentifierLaws) (hunique : UniqueSourcePaths files)
    (h : selectScriptFiles context w user selected files = (after, .ok returned)) :
    SelectedRows context selected files after ∧
      returned = decide (newPaths context.pk selected files ≠ [] ∨
        changedDeclarations context.pk selected files ≠ []) := by
  obtain ⟨s₂, hended, rfl, rfl⟩ := selectScriptFiles_eq_ok h
  obtain ⟨s₁, hcreate, hupdate⟩ := selectDeclarations_eq_none hended
  have hcreated := createDeclarations_spec hlaws hunique hcreate
  have hnodup : ((changedDeclarations context.pk selected files).map Prod.fst).Nodup :=
    ((List.filter_sublist.trans List.filter_sublist).map _).nodup files.nodup_entries
  have hupdated := updateDeclarations_spec hnodup hupdate
  -- the rows that are updated are old ones
  have hold : ∀ i ∈ (changedDeclarations context.pk selected files).map Prod.fst,
      i < files.next := by
    intro i hi
    obtain ⟨item, hitem, rfl⟩ := List.mem_map.mp hi
    exact Table.lt_next_of_row (mem_changedDeclarations.mp hitem).1
  have hrow : ∀ i < files.next,
      s₂.files.row i = (files.row i).map (switched context.pk selected) := by
    intro i hi
    have hfirst := hcreated.old i hi
    by_cases hmem : i ∈ (changedDeclarations context.pk selected files).map Prod.fst
    · obtain ⟨⟨_, row⟩, hitem, rfl⟩ := List.mem_map.mp hmem
      obtain ⟨hfile, hproject, -⟩ := mem_changedDeclarations.mp hitem
      dsimp only at hfile hproject hfirst ⊢
      rw [hupdated.item _ hitem, hfirst, hfile, Option.map_some, Option.map_some, switched,
        if_pos hproject]
    · rw [hupdated.other i hmem, hfirst]
      cases hfile : files.row i with
      | none => rfl
      | some row =>
        rw [Option.map_some, switched]
        split_ifs with hproject
        · -- a row that is not changed has the switch already
          have hswitch : row.enabled = decide (row.sourcePath ∈ selected) := by
            by_contra hne
            exact hmem (List.mem_map.mpr
              ⟨(i, row), mem_changedDeclarations.mpr ⟨hfile, hproject, hne⟩, rfl⟩)
          rw [← hswitch]
        · rfl
  have hnew : ∀ i, files.next ≤ i → s₂.files.row i = s₁.files.row i := by
    intro i hi
    exact hupdated.other i fun hmem => absurd (hold i hmem) (Nat.not_lt.mpr hi)
  refine ⟨⟨hupdated.next.trans hcreated.next, hrow, fun k path hpath => ?_, ?_⟩, ?_⟩
  · obtain ⟨canonical, hcanonical, himportable, hdeclared⟩ := hcreated.new k path hpath
    exact ⟨canonical, hcanonical, himportable, (hnew _ (by omega)).trans hdeclared⟩
  · exact hupdated.unique hcreated.unique
  · have hlength : s₂.created.length = (newPaths context.pk selected files).length := by
      simpa [hupdated.created] using hcreated.created
    simp only [ne_eq, ← List.length_eq_zero_iff, hlength]

/-- The project has an enabled declaration of the path. -/
def EnabledPath (project : Id) (files : Table ScriptFileRow) (path : PyStr) : Prop :=
  ∃ i row, files.row i = some row ∧ row.project = project ∧ row.enabled = true ∧
    row.sourcePath = path

/-- What a selection that returned is to leave behind. -/
structure SelectedExactly (context : SelectionContext) (w : World) (selected : List PyStr)
    (files after : Table ScriptFileRow) (returned : Bool) : Prop where
  /-- The enabled declarations of the project are the selected paths. -/
  enabled : ∀ path, EnabledPath context.pk after path ↔ path ∈ selected
  /-- No declaration is deleted, and none of another project is touched. -/
  kept : ∀ i row, files.row i = some row → ∃ row', after.row i = some row' ∧
    row'.project = row.project ∧ row'.sourcePath = row.sourcePath ∧
      (row.project ≠ context.pk → row' = row)
  /-- The answer is whether the enabled set changed. -/
  answer : returned = true ↔
    ¬∀ path, EnabledPath context.pk after path ↔ EnabledPath context.pk files path
  /-- The same selection once more, by any user, changes nothing. -/
  again : ∀ user, selectScriptFiles context w user selected after = (after, .ok false)

section Rows

variable (h : SelectedRows context selected files after)

include h

/-- A row after a selection is an old one or a new one. -/
theorem SelectedRows.cases {i : Id} {row : ScriptFileRow} (hrow : after.row i = some row) :
    (∃ old, files.row i = some old ∧ row = switched context.pk selected old) ∨
      ∃ path ∈ newPaths context.pk selected files, ∃ canonical,
        normalizeSourcePath path = .ok canonical ∧ row = freshDeclaration context.pk canonical := by
  have hlt := Table.lt_next_of_row hrow
  rw [h.next] at hlt
  rcases Nat.lt_or_ge i files.next with hi | hi
  · rw [h.old i hi, Option.map_eq_some_iff] at hrow
    obtain ⟨old, hold, rfl⟩ := hrow
    exact .inl ⟨old, hold, rfl⟩
  · obtain ⟨k, rfl⟩ := Nat.exists_eq_add_of_le hi
    have hk : k < (newPaths context.pk selected files).length := by omega
    obtain ⟨canonical, hcanonical, -, hnew⟩ := h.new k _ (List.getElem?_eq_getElem hk)
    rw [hnew] at hrow
    exact .inr ⟨_, List.getElem_mem hk, canonical, hcanonical, (Option.some.inj hrow).symm⟩

theorem SelectedRows.row_old {i : Id} {row : ScriptFileRow} (hrow : files.row i = some row) :
    after.row i = some (switched context.pk selected row) := by
  rw [h.old i (Table.lt_next_of_row hrow), hrow, Option.map_some]

/-- The path of an old row is enabled when it is selected. -/
theorem SelectedRows.enabled_old {i : Id} {row : ScriptFileRow} (hrow : files.row i = some row)
    (hproject : row.project = context.pk) :
    EnabledPath context.pk after row.sourcePath ↔ row.sourcePath ∈ selected := by
  have hswitched : switched context.pk selected row =
      { row with enabled := decide (row.sourcePath ∈ selected) } := if_pos hproject
  have hafter := h.row_old hrow
  rw [hswitched] at hafter
  constructor
  · rintro ⟨j, other, hother, hproject', henabled, hpath⟩
    obtain rfl := h.unique j i other _ hother hafter (hproject'.trans hproject.symm) hpath
    rw [hafter] at hother
    obtain rfl := Option.some.inj hother
    exact of_decide_eq_true henabled
  · exact fun hmem => ⟨i, _, hafter, hproject, decide_eq_true hmem, rfl⟩

/-- A new path is enabled under its canonical spelling, which no old row has. -/
theorem SelectedRows.enabled_new {path : PyStr}
    (hpath : path ∈ newPaths context.pk selected files) : ∃ canonical,
      normalizeSourcePath path = .ok canonical ∧ Importable canonical ∧
      EnabledPath context.pk after canonical ∧ canonical ∉ declaredPaths context.pk files := by
  obtain ⟨k, hk⟩ := List.getElem?_of_mem hpath
  obtain ⟨canonical, hcanonical, himportable, hrow⟩ := h.new k path hk
  refine ⟨canonical, hcanonical, himportable, ⟨_, _, hrow, rfl, rfl, rfl⟩, fun hdeclared => ?_⟩
  obtain ⟨i, old, hold, hproject, hsame⟩ := mem_declaredPaths.mp hdeclared
  have hlt := Table.lt_next_of_row hold
  have hkept := h.row_old hold
  have heq := h.unique i _ _ _ hkept hrow (switched_project.trans hproject)
    (switched_sourcePath.trans hsame)
  omega

/-- Different new paths have different canonical spellings. -/
theorem SelectedRows.canonical_inj {path path' canonical : PyStr}
    (hpath : path ∈ newPaths context.pk selected files)
    (hpath' : path' ∈ newPaths context.pk selected files)
    (hcanonical : normalizeSourcePath path = .ok canonical)
    (hcanonical' : normalizeSourcePath path' = .ok canonical) : path = path' := by
  obtain ⟨k, hk⟩ := List.getElem?_of_mem hpath
  obtain ⟨k', hk'⟩ := List.getElem?_of_mem hpath'
  obtain ⟨one, hone, -, hrow⟩ := h.new k path hk
  obtain ⟨other, hother, -, hrow'⟩ := h.new k' path' hk'
  obtain rfl : canonical = one := Except.ok.inj (hcanonical.symm.trans hone)
  obtain rfl : canonical = other := Except.ok.inj (hcanonical'.symm.trans hother)
  have heq := h.unique _ _ _ _ hrow hrow' rfl rfl
  obtain rfl : k = k' := by omega
  exact Option.some.inj (hk.symm.trans hk')

/-- A selection is whole when all its new paths are spelled canonically. -/
theorem SelectedRows.enabled_iff (hcanonical : ∀ path ∈ selected,
    path ∉ declaredPaths context.pk files → normalizeSourcePath path = .ok path) (path : PyStr) :
    EnabledPath context.pk after path ↔ path ∈ selected := by
  constructor
  · rintro ⟨i, row, hrow, hproject, henabled, rfl⟩
    rcases h.cases hrow with ⟨old, -, rfl⟩ | ⟨path, hpath, canonical, hspelled, rfl⟩
    · rw [switched_project] at hproject
      rw [switched_enabled hproject] at henabled
      rw [switched_sourcePath]
      exact of_decide_eq_true henabled
    · obtain ⟨hselected, hnew⟩ := mem_newPaths.mp hpath
      obtain rfl : canonical = path :=
        Except.ok.inj (hspelled.symm.trans (hcanonical path hselected hnew))
      exact hselected
  · intro hselected
    by_cases hdeclared : path ∈ declaredPaths context.pk files
    · obtain ⟨i, row, hrow, hproject, rfl⟩ := mem_declaredPaths.mp hdeclared
      exact (h.enabled_old hrow hproject).mpr hselected
    · obtain ⟨canonical, hspelled, -, henabled, -⟩ :=
        h.enabled_new (mem_newPaths.mpr ⟨hselected, hdeclared⟩)
      obtain rfl : canonical = path :=
        Except.ok.inj (hspelled.symm.trans (hcanonical path hselected hdeclared))
      exact henabled

/-- Where nothing was to change, the rows are as they were. -/
theorem SelectedRows.enabled_of_unchanged (hnew : newPaths context.pk selected files = [])
    (hchanged : changedDeclarations context.pk selected files = []) (path : PyStr) :
    EnabledPath context.pk after path ↔ EnabledPath context.pk files path := by
  have hsame : ∀ i row, files.row i = some row → switched context.pk selected row = row := by
    intro i row hrow
    unfold switched
    split_ifs with hproject
    · have hswitch : row.enabled = decide (row.sourcePath ∈ selected) := by
        by_contra hne
        have hmem : (i, row) ∈ changedDeclarations context.pk selected files :=
          mem_changedDeclarations.mpr ⟨hrow, hproject, hne⟩
        simp [hchanged] at hmem
      rw [← hswitch]
    · rfl
  constructor
  · rintro ⟨i, row, hrow, hrest⟩
    rcases h.cases hrow with ⟨old, hold, rfl⟩ | ⟨path, hpath, -⟩
    · rw [hsame i old hold] at hrest
      exact ⟨i, old, hold, hrest⟩
    · simp [hnew] at hpath
  · rintro ⟨i, row, hrow, hrest⟩
    have hafter := h.row_old hrow
    rw [hsame i row hrow] at hafter
    exact ⟨i, row, hafter, hrest⟩

/-- **The answer** of a selection is whether the enabled set changed. -/
theorem SelectedRows.answer (hunique : UniqueSourcePaths files) :
    (newPaths context.pk selected files ≠ [] ∨ changedDeclarations context.pk selected files ≠ [])
      ↔ ¬∀ path, EnabledPath context.pk after path ↔ EnabledPath context.pk files path := by
  constructor
  · rintro (hnew | hchanged) hsame
    · obtain ⟨path, hpath⟩ := List.exists_mem_of_ne_nil _ hnew
      obtain ⟨canonical, -, -, henabled, hnone⟩ := h.enabled_new hpath
      obtain ⟨i, row, hrow, hproject, -, hcanonical⟩ := (hsame canonical).mp henabled
      exact hnone (mem_declaredPaths.mpr ⟨i, row, hrow, hproject, hcanonical⟩)
    · obtain ⟨⟨i, row⟩, hmem⟩ := List.exists_mem_of_ne_nil _ hchanged
      obtain ⟨hrow, hproject, hswitch⟩ := mem_changedDeclarations.mp hmem
      dsimp only at hrow hproject hswitch
      have hbefore : EnabledPath context.pk files row.sourcePath ↔ row.enabled = true := by
        constructor
        · rintro ⟨j, other, hother, hproject', henabled, hpath⟩
          obtain rfl := hunique j i other row hother hrow (hproject'.trans hproject.symm) hpath
          obtain rfl := Option.some.inj (hother.symm.trans hrow)
          exact henabled
        · exact fun henabled => ⟨i, row, hrow, hproject, henabled, rfl⟩
      have hiff := (h.enabled_old hrow hproject).symm.trans ((hsame _).trans hbefore)
      exact hswitch (Bool.eq_iff_iff.mpr (by simpa using hiff.symm))
  · intro hdiffer
    by_contra hnone
    simp only [not_or, not_not] at hnone
    exact hdiffer (h.enabled_of_unchanged hnone.1 hnone.2)

/-- **The same selection once more** finds nothing to declare and nothing to switch. -/
theorem SelectedRows.again (w : World)
    (henabled : ∀ path, EnabledPath context.pk after path ↔ path ∈ selected)
    (user : Option UserScope) :
    selectScriptFiles context w user selected after = (after, .ok false) := by
  have hdeclared : ∀ path ∈ selected, path ∈ declaredPaths context.pk after := by
    intro path hselected
    obtain ⟨i, row, hrow, hproject, -, hpath⟩ := (henabled path).mpr hselected
    exact mem_declaredPaths.mpr ⟨i, row, hrow, hproject, hpath⟩
  have hknown : ∀ path ∈ selected, path ∈ declarableScriptFiles context w after := by
    intro path hselected
    simp [declarableScriptFiles, hdeclared path hselected]
  have hnew : newPaths context.pk selected after = [] := by
    refine List.eq_nil_iff_forall_not_mem.mpr fun path hpath => ?_
    obtain ⟨hselected, hnone⟩ := mem_newPaths.mp hpath
    exact hnone (hdeclared path hselected)
  have hchanged : changedDeclarations context.pk selected after = [] := by
    refine List.eq_nil_iff_forall_not_mem.mpr fun ⟨i, row⟩ hmem => ?_
    obtain ⟨hrow, hproject, hswitch⟩ := mem_changedDeclarations.mp hmem
    dsimp only at hrow hproject hswitch
    refine hswitch (Bool.eq_iff_iff.mpr ?_)
    rw [decide_eq_true_eq, ← henabled]
    constructor
    · exact fun hon => ⟨i, row, hrow, hproject, hon, rfl⟩
    · rintro ⟨j, other, hother, hproject', hon, hpath⟩
      obtain rfl := h.unique j i other row hother hrow (hproject'.trans hproject.symm) hpath
      obtain rfl := Option.some.inj (hother.symm.trans hrow)
      exact hon
  have hnobody : validateScriptFilePermissions user [] [] after = true := by
    cases user <;> rfl
  have hended : selectDeclarations context w user selected ⟨after, []⟩ = (⟨after, []⟩, none) := by
    simpa [selectDeclarations, hnew, hchanged, createDeclarations, updateDeclarations,
      hnobody] using hknown
  unfold selectScriptFiles
  rw [Block.atomic_of_returned (by rw [hended]), hended]
  simp [hchanged]

end Rows

/-- **What a selection leaves behind**, of any rows whose paths are unique in their projects: one
that returns leaves what it is to leave if and only if its paths that were not declared are spelled
canonically, and one that raises leaves everything as it was. -/
theorem selectedExactly_iff (hlaws : IdentifierLaws) (context : SelectionContext) (w : World)
    (user : Option UserScope) (selected : List PyStr) (files : Table ScriptFileRow)
    (hunique : UniqueSourcePaths files) :
    (∀ after returned,
      selectScriptFiles context w user selected files = (after, .ok returned) →
        (SelectedExactly context w selected files after returned ↔ ∀ path ∈ selected,
          path ∉ declaredPaths context.pk files → normalizeSourcePath path = .ok path)) ∧
    ∀ after error, selectScriptFiles context w user selected files = (after, .error error) →
      after = files := by
  refine ⟨fun after returned hselect => ?_, fun _ _ => selectScriptFiles_raised⟩
  obtain ⟨h, rfl⟩ := selectScriptFiles_rows hlaws hunique hselect
  constructor
  · intro hexactly path hselected hnew
    -- the canonical spelling is selected too, and is a new path with the same one
    obtain ⟨canonical, hspelled, himportable, henabled, hnone⟩ :=
      h.enabled_new (mem_newPaths.mpr ⟨hselected, hnew⟩)
    have hcanonical := (hexactly.enabled canonical).mp henabled
    have hsame := h.canonical_inj (mem_newPaths.mpr ⟨hselected, hnew⟩)
      (mem_newPaths.mpr ⟨hcanonical, hnone⟩) hspelled himportable.canonical
    rw [hsame]
    exact himportable.canonical
  · intro hcanonical
    have henabled := h.enabled_iff hcanonical
    refine ⟨henabled, fun i row hrow => ⟨_, h.row_old hrow, ?_⟩, ?_, h.again w henabled⟩
    · exact ⟨switched_project, switched_sourcePath, switched_of_ne⟩
    · rw [decide_eq_true_eq]
      exact h.answer hunique

end Exactly

/-! ## A path that is declared under another spelling -/

/-- Nothing is stored yet. -/
def emptyWorld : World where
  projects := .startingAt 1
  revisions := .startingAt 1
  files := .startingAt 1
  scripts := .startingAt 1
  jobs := .startingAt 1
  objects _ := none
  locks _ := none
  rowLocks _ := none
  deleting _ := none
  deletion _ := .empty
  now := 0
  record := ⟨[], false⟩

/-- A project on a data source with one file. -/
def oneFileContext (path : PyStr) : SelectionContext where
  pk := 7
  project := ⟨py "p", 1, .dataSource, some 3, [], .manual, none, none, false, true⟩
  dataFiles _ := [path]
  refused _ := false

/-- The Kelvin sign and `.py`, which is not its canonical spelling. -/
def kelvinPath : PyStr := 0x212A :: py ".py"

/-- **A path that is not canonical** can be selected, is declared as `K.py`, and is not among the
enabled declarations; the same selection once more raises. -/
theorem not_selectedExactly_kelvin :
    kelvinPath ∈ @declarableScriptFiles (oneFileContext kelvinPath) emptyWorld (.startingAt 1) ∧
    ∃ after, @selectScriptFiles kelvinUnicode (oneFileContext kelvinPath) emptyWorld none
        [kelvinPath] (.startingAt 1) = (after, .ok true) ∧
      ¬@SelectedExactly kelvinUnicode (oneFileContext kelvinPath) emptyWorld [kelvinPath]
        (.startingAt 1) after true ∧
      (@selectScriptFiles kelvinUnicode (oneFileContext kelvinPath) emptyWorld none
        [kelvinPath] after).2 = .error (.invalid [.siblingConflict]) := by
  let _ := kelvinUnicode
  have hrun : (fun ended : Table ScriptFileRow × Except SelectionError Bool =>
      (ended.2, declaredPaths 7 ended.1, (selectScriptFiles (oneFileContext kelvinPath) emptyWorld
        none [kelvinPath] ended.1).2))
      (selectScriptFiles (oneFileContext kelvinPath) emptyWorld none [kelvinPath]
        (.startingAt 1)) =
      (.ok true, [py "K.py"], .error (.invalid [.siblingConflict])) := by
    decide +kernel
  refine ⟨by decide +kernel, ?_⟩
  generalize selectScriptFiles (oneFileContext kelvinPath) emptyWorld none [kelvinPath]
    (.startingAt 1) = ended at hrun
  obtain ⟨after, result⟩ := ended
  simp only [Prod.mk.injEq] at hrun
  obtain ⟨rfl, hdeclared, hagain⟩ := hrun
  refine ⟨after, rfl, fun hexactly => ?_, hagain⟩
  obtain ⟨i, row, hrow, hproject, -, hpath⟩ :=
    (hexactly.enabled kelvinPath).mpr List.mem_cons_self
  have hmem : kelvinPath ∈ declaredPaths 7 after :=
    mem_declaredPaths.mpr ⟨i, row, hrow, hproject, hpath⟩
  rw [hdeclared] at hmem
  exact absurd hmem (by decide)

/-- The declarations of the project: one, of `old.py`. -/
def oldDeclared : Table ScriptFileRow :=
  (Table.startingAt 1).insert (freshDeclaration 7 (py "old.py"))

/-- A path in ASCII is declared as it is spelled, in place of the one declared before; a path that is
not there raises and leaves the rows as they were. -/
theorem selectedExactly_a_py : ∃ after,
    @selectScriptFiles asciiUnicode (oneFileContext (py "a.py")) emptyWorld none [py "a.py"]
        oldDeclared = (after, .ok true) ∧
      @SelectedExactly asciiUnicode (oneFileContext (py "a.py")) emptyWorld [py "a.py"]
        oldDeclared after true ∧
      @selectScriptFiles asciiUnicode (oneFileContext (py "a.py")) emptyWorld none
        [py "a.py", py "b.py"] oldDeclared = (oldDeclared, .error (.unknownPaths [py "b.py"])) := by
  let _ := asciiUnicode
  have hreturned : (selectScriptFiles (oneFileContext (py "a.py")) emptyWorld none [py "a.py"]
      oldDeclared).2 = .ok true := by
    decide +kernel
  have hraised : (selectScriptFiles (oneFileContext (py "a.py")) emptyWorld none
      [py "a.py", py "b.py"] oldDeclared).2 = .error (.unknownPaths [py "b.py"]) := by
    decide +kernel
  have hunique : UniqueSourcePaths oldDeclared :=
    UniqueSourcePaths.insert (fun _ _ _ _ ha => by cases ha) (by decide)
  have hiff := (selectedExactly_iff identifierLaws_ascii (oneFileContext (py "a.py")) emptyWorld
    none [py "a.py"] oldDeclared hunique).1
  have hunchanged := (selectedExactly_iff identifierLaws_ascii (oneFileContext (py "a.py"))
    emptyWorld none [py "a.py", py "b.py"] oldDeclared hunique).2
  generalize selectScriptFiles (oneFileContext (py "a.py")) emptyWorld none [py "a.py"]
    oldDeclared = ended at hreturned hiff
  generalize selectScriptFiles (oneFileContext (py "a.py")) emptyWorld none [py "a.py", py "b.py"]
    oldDeclared = failed at hraised hunchanged
  obtain ⟨after, result⟩ := ended
  obtain ⟨left, raised⟩ := failed
  obtain rfl : result = .ok true := hreturned
  obtain rfl : raised = .error (.unknownPaths [py "b.py"]) := hraised
  obtain rfl : left = oldDeclared := hunchanged left _ rfl
  refine ⟨after, rfl, (hiff after true rfl).mpr fun path hselected _ => ?_, rfl⟩
  obtain rfl := List.mem_singleton.mp hselected
  decide

end NetBoxScripts
