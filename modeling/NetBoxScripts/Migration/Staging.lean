import NetBoxScripts.Migration.Mapping

/-!
# Staging a plan

`staging.py`: each proposal gets its project, its publishing modules are declared as script files,
and its content is staged. A pass over the same modules again finds what the first one left, where
the paths it looks up are the canonical ones that were saved.

## Main definitions

* `projectFor`, `declareMembers`, `stageContent`: the steps of one proposal
* `stageProposal`, `stage`: one proposal, and a pass
* `Canonical`: the paths of a proposal are their own canonical forms
* `Restaged`: what the map and a later pass find of it

## Main results

* `stageProposal_later`: what is there stays
* `restaged_iff`: a later pass finds it if and only if its paths are canonical
-/

namespace NetBoxScripts

section Staging

/-- What reading the built-in sources gives: `read_source`, `none` where it raises, and
`defines_a_script`. -/
structure LegacySource where
  read : LegacyModule → Option Bytes
  definesAScript : Bytes → Bool

/-- `dialects.publishes(module.scripts, source)` -/
def LegacySource.publishesFrom (src : LegacySource) (module : LegacyModule) (source : Bytes) : Bool :=
  module.scripts.any LegacyScript.isExecutable || src.definesAScript source

/-- `_publishes(module)` -/
def LegacySource.publishes (src : LegacySource) (module : LegacyModule) : Bool :=
  module.scripts.any LegacyScript.isExecutable || (src.read module).all (src.publishesFrom module)

/-- The rows that staging reads and writes. -/
structure StagingState where
  projects : Table ProjectRow
  files : Table ScriptFileRow

/-- Why the model does not accept a proposal. -/
inductive StageRefusal
  | policy
  | fields
  | project (errors : ProjectErrors)
  | save (refusal : ProjectRefusal)
  /-- No path to declare. -/
  | outside
  | upload (refusal : UploadRefusal)
  deriving DecidableEq, Repr

/-- The project of a proposal. -/
structure StagedProject where
  pk : Id
  row : ProjectRow
  created : Bool
  deriving DecidableEq, Repr

/-- The fields of a new project; `storageKey` is the UUID that is drawn for it. -/
def ProposedProject.newProject (plan : ProposedProject) (storageKey : StorageKey) :
    ProjectInstance :=
  ⟨none, ⟨plan.key, storageKey, plan.sourceType, plan.dataSource, plan.dataPath, .manual, none,
    none, false, true⟩, none⟩

/-- The lengths that `full_clean` checks. -/
def ProposedProject.fits (plan : ProposedProject) : Bool :=
  plan.name ≠ [] ∧ plan.name.length ≤ 100 ∧ plan.key ≠ [] ∧ plan.key.length ≤ 100 ∧
    plan.dataPath.length ≤ 1000

/-- `_project_for(project_plan)`; a new project names no revision, so none is read. -/
def projectFor (projects : Table ProjectRow) (storageKey : StorageKey) (plan : ProposedProject) :
    Except StageRefusal (StagedProject × Table ProjectRow) :=
  match existingProject projects plan with
  | some (pk, row) =>
    if row.activationPolicy ≠ .manual then .error .policy else .ok (⟨pk, row, false⟩, projects)
  | none =>
    if plan.fits = false then .error .fields
    else
      match cleanProject projects (.startingAt 0) (plan.newProject storageKey) with
      | .error errors => .error (.project errors)
      | .ok project =>
        match saveProject projects (.startingAt 0) project none none with
        | .error refusal => .error (.save refusal)
        | .ok projects' => .ok (⟨projects.next, project.fields, true⟩, projects')

variable [Unicode]

/-- The loop of `_declare` over one member: `declare_script_file(project, path, using)`. -/
def declareMember (pk : Id) (row : ProjectRow) (files : Table ScriptFileRow)
    (member : LegacyModule) : Except StageRefusal (Table ScriptFileRow) :=
  match dataSourceRelativePath member.dataPath row.dataPath with
  -- a declaration without a path
  | none => .error .outside
  | some path => (declareScriptFile files pk path true).mapError .upload

/-- `_declare(project, members)` -/
def declareMembers (src : LegacySource) (pk : Id) (row : ProjectRow) (members : List LegacyModule)
    (files : Table ScriptFileRow) : Except StageRefusal (Table ScriptFileRow) :=
  match row.sourceType with
  | .upload => .ok files
  | .dataSource => (members.filter src.publishes).foldlM (declareMember pk row) files

/-- `_stage_content(project, members)`, as far as it declares; `none` where the source of an
uploaded member is not read. -/
def stageContent (src : LegacySource) (pk : Id) (row : ProjectRow) (members : List LegacyModule)
    (files : Table ScriptFileRow) : Option (Except StageRefusal (Table ScriptFileRow)) :=
  match row.sourceType with
  | .dataSource => some (.ok files)
  | .upload => do
    let member ← members.head?
    let source ← src.read member
    return (do
      let path ← uploadedSourcePath member.filePath
      if src.publishesFrom member source then
        -- confirmed, so what the project holds is not asked
        let (_, files) ← prepareUpload (fun _ => none) files pk path true true
        return files
      else return files : Except UploadRefusal (Table ScriptFileRow)).mapError .upload

/-- The modules of a proposal: `[by_pk[pk] for pk in project_plan.module_pks]` -/
def ProposedProject.members (plan : ProposedProject) (modules : List LegacyModule) :
    List LegacyModule :=
  plan.modulePks.filterMap fun pk => modules.reverse.find? fun module => module.pk = pk

/-- One turn of the loop of `stage`; `none` where it raises. -/
def stageProposal (src : LegacySource) (modules : List LegacyModule) (storageKey : StorageKey)
    (plan : ProposedProject) (s : StagingState) :
    Option (Except StageRefusal StagedProject × StagingState) :=
  match projectFor s.projects storageKey plan with
  | .error refusal => some (.error refusal, s)
  | .ok (staged, projects) =>
    let members := plan.members modules
    match declareMembers src staged.pk staged.row members s.files with
    | .error refusal => some (.error refusal, { s with projects })
    | .ok files =>
      (stageContent src staged.pk staged.row members files).map fun
        | .error refusal => (.error refusal, ⟨projects, files⟩)
        | .ok files => (.ok staged, ⟨projects, files⟩)

/-- `stage(proposed, modules)`, each proposal with the UUID that is drawn in its turn. -/
def stage (src : LegacySource) (modules : List LegacyModule) :
    List (ProposedProject × StorageKey) → StagingState →
      Option (List (Except StageRefusal StagedProject) × StagingState)
  | [], s => some ([], s)
  | (plan, storageKey) :: proposed, s => do
    let (result, s) ← stageProposal src modules storageKey plan s
    let (results, s) ← stage src modules proposed s
    return (result :: results, s)

/-- The canonical path under which staging declares and stores a module. -/
def stagedPath (row : ProjectRow) (module : LegacyModule) : Option PyStr :=
  match row.sourceType with
  | .upload => (uploadedSourcePath module.filePath).toOption
  | .dataSource => (dataSourceRelativePath module.dataPath row.dataPath).bind fun path =>
    (normalizeSourcePath path).toOption

/-- **The paths of a proposal are their own canonical forms**. Where the key of an uploaded module
has a Data Source project, the name that is recorded is that of the path inside it. -/
structure Canonical (src : LegacySource) (plan : ProposedProject) (members : List LegacyModule)
    (staged : StagedProject) : Prop where
  folder : staged.created = true → plan.sourceType = .dataSource →
    normalizeDataPath plan.dataPath = .ok plan.dataPath
  paths : staged.row.sourceType = .dataSource → ∀ module ∈ members,
    src.publishes module = true → ∀ path,
      dataSourceRelativePath module.dataPath staged.row.dataPath = some path →
        normalizeSourcePath path = .ok path
  names : staged.row.sourceType ≠ plan.sourceType → ∀ module ∈ members,
    module.scripts.any LegacyScript.isExecutable = true → ∀ path recorded dotted,
      dataSourceRelativePath module.dataPath staged.row.dataPath = some path →
        plan.recordedPath module = .ok (recorded, dotted) →
          sourcePathToDottedName path = .ok dotted

/-- **A later pass finds the declarations again**, under the names the map records: what is recorded
of a module that publishes is the name of its declared path, and staging the proposal again changes
nothing. -/
structure Restaged (src : LegacySource) (modules : List LegacyModule) (plan : ProposedProject)
    (staged : StagedProject) (storageKey : StorageKey) (s : StagingState) : Prop where
  named : ∀ module ∈ plan.members modules, module.scripts.any LegacyScript.isExecutable = true →
    ∀ recorded dotted, plan.recordedPath module = .ok (recorded, dotted) →
      ∃ i file, s.files.row i = some file ∧ file.project = staged.pk ∧ file.enabled = true ∧
        stagedPath staged.row module = some file.sourcePath ∧
        sourcePathToDottedName file.sourcePath = .ok dotted
  again : stageProposal src modules storageKey plan s =
    some (.ok ⟨staged.pk, staged.row, false⟩, s)

end Staging

/-! ## Declarations -/

section Declare

variable [Unicode] {files files' : Table ScriptFileRow} {pk i : Id} {file : ScriptFileRow}
  {path canonical : PyStr} {permitted : Bool} {row : ProjectRow} {members : List LegacyModule}

/-- Declarations stay, with their paths, and stay enabled. -/
def Grown (files files' : Table ScriptFileRow) : Prop :=
  ∀ i file, files.row i = some file → ∃ file', files'.row i = some file' ∧
    file'.project = file.project ∧ file'.sourcePath = file.sourcePath ∧
      (file.enabled = true → file'.enabled = true)

/-- A path of a project has an enabled declaration. -/
def Declared (files : Table ScriptFileRow) (pk : Id) (path : PyStr) : Prop :=
  ∃ i file, files.row i = some file ∧ file.project = pk ∧ file.sourcePath = path ∧
    file.enabled = true

omit [Unicode] in
theorem Grown.refl (files : Table ScriptFileRow) : Grown files files :=
  fun _ file hfile => ⟨file, hfile, rfl, rfl, id⟩

omit [Unicode] in
theorem Grown.trans {files'' : Table ScriptFileRow} (h : Grown files files')
    (h' : Grown files' files'') : Grown files files'' := by
  intro i file hfile
  obtain ⟨file', hfile', hproject, hpath, henabled⟩ := h i file hfile
  obtain ⟨file'', hfile'', hproject', hpath', henabled'⟩ := h' i file' hfile'
  exact ⟨file'', hfile'', hproject'.trans hproject, hpath'.trans hpath, henabled' ∘ henabled⟩

omit [Unicode] in
theorem Declared.grown (h : Declared files pk path) (hgrown : Grown files files') :
    Declared files' pk path := by
  obtain ⟨i, file, hfile, hproject, hpath, henabled⟩ := h
  obtain ⟨file', hfile', hproject', hpath', henabled'⟩ := hgrown i file hfile
  exact ⟨i, file', hfile', hproject'.trans hproject, hpath'.trans hpath, henabled' henabled⟩

omit [Unicode] in
/-- The declaration that is found. -/
theorem of_declarationOf (h : declarationOf files pk path = some (i, file)) :
    files.row i = some file ∧ file.project = pk ∧ file.sourcePath = path := by
  unfold declarationOf at h
  have hmatches := List.find?_some h
  exact ⟨Table.mem_entries.mp (List.mem_of_find?_eq_some h), by simpa using hmatches⟩

/-- A declaration is the only one of its path. -/
theorem declarationOf_of_row (h : Declarations files) (hfile : files.row i = some file)
    (hproject : file.project = pk) (hpath : file.sourcePath = path) :
    declarationOf files pk path = some (i, file) := by
  obtain ⟨⟨j, other⟩, hfound⟩ := Option.isSome_iff_exists.mp
    (isSome_declarationOf.mpr ⟨i, file, hfile, hproject, hpath⟩)
  obtain ⟨hother, hproject', hpath'⟩ := of_declarationOf hfound
  rcases eq_or_ne i j with rfl | hne
  · obtain rfl := Option.some.inj (hother.symm.trans hfile)
    exact hfound
  · have happart := (h.apart i j file other hfile hother hne (hproject.trans hproject'.symm)).2
    obtain ⟨dotted, hdotted⟩ := (h.importable i file hfile).dotted
    have hdotted' : sourcePathToDottedName other.sourcePath = .ok dotted := by
      rw [hpath', ← hpath]
      exact hdotted
    simp [moduleConflict, hdotted, hdotted'] at happart

/-- **What declaring a path leaves**: its canonical form is declared, and nothing is lost. -/
theorem declareScriptFile_grown (hlaws : IdentifierLaws) (h : Declarations files)
    (hok : declareScriptFile files pk path true = .ok files') :
    Declarations files' ∧ Grown files files' ∧ ∃ canonical,
      normalizeSourcePath path = .ok canonical ∧ Declared files' pk canonical := by
  unfold declareScriptFile at hok
  split at hok
  · split at hok
    · cases hok
    next saved hsave =>
    cases hok
    obtain ⟨canonical, hcanonical, rfl⟩ := saveDeclaration_new hsave
    refine ⟨saveDeclaration_declarations hlaws h hsave, fun i file hfile => ?_, canonical,
      hcanonical, ⟨_, _, Table.row_insert_next, rfl, rfl, rfl⟩⟩
    exact ⟨file, Table.row_insert_of_row hfile, rfl, rfl, id⟩
  · next i file hfound =>
    obtain ⟨hfile, hproject, hpath⟩ := of_declarationOf hfound
    have hcanonical : normalizeSourcePath path = .ok path :=
      hpath ▸ (h.importable i file hfile).canonical
    split_ifs at hok with henabled
    · cases hok
      exact ⟨h, .refl files, path, hcanonical, i, file, hfile, hproject, hpath, henabled⟩
    · split at hok
      · cases hok
      next saved hsave =>
      cases hok
      have hkept := saveDeclaration_declarations hlaws h hsave
      obtain rfl := saveDeclaration_enable hsave
      refine ⟨hkept, fun j other hother => ?_, path, hcanonical, i, { file with enabled := true },
        by simp [hfile], hproject, hpath, rfl⟩
      rcases eq_or_ne j i with rfl | hne
      · exact ⟨{ other with enabled := true }, by simp [hother], rfl, rfl, fun _ => rfl⟩
      · exact ⟨other, (Table.row_modify_of_ne hne).trans hother, rfl, rfl, id⟩

/-- A declared path is found again. -/
theorem declareScriptFile_again (h : Declarations files) (hdeclared : Declared files pk path) :
    declareScriptFile files pk path permitted = .ok files := by
  obtain ⟨i, file, hfile, hproject, hpath, henabled⟩ := hdeclared
  rw [declareScriptFile, declarationOf_of_row h hfile hproject hpath]
  exact if_pos henabled

/-- **A path that is not canonical is refused**, where its canonical form is declared. -/
theorem declareScriptFile_refused (h : Declarations files)
    (hcanonical : normalizeSourcePath path = .ok canonical) (hne : canonical ≠ path)
    (hdeclared : Declared files pk canonical) :
    declareScriptFile files pk path permitted ≠ .ok files' := by
  intro hok
  unfold declareScriptFile at hok
  split at hok
  · split at hok
    · cases hok
    next saved hsave =>
    unfold saveDeclaration at hsave
    obtain ⟨i, file, hfile, hproject, hpath, -⟩ := hdeclared
    obtain ⟨dotted, hdotted⟩ := (h.importable i file hfile).dotted
    -- the declaration of the canonical path is a sibling of the one to be saved
    have hconflict : siblingPathConflict files (newDeclaration pk path) canonical = true := by
      refine List.any_eq_true.mpr ⟨(i, file), Table.mem_entries.mpr hfile, ?_⟩
      rw [hpath] at hdotted
      simp [newDeclaration, hproject, hpath, moduleConflict, hdotted]
    rw [show (newDeclaration pk path).sourcePath = path from rfl, hcanonical] at hsave
    dsimp only at hsave
    split at hsave
    · cases hsave
    · rw [if_pos ⟨.inl rfl, hconflict⟩] at hsave
      cases hsave
  · next i file hfound =>
    obtain ⟨hfile, -, hpath⟩ := of_declarationOf hfound
    have hstable := (h.importable i file hfile).canonical
    rw [hpath, hcanonical] at hstable
    exact hne (Except.ok.inj hstable)

/-- What declaring a member leaves. -/
theorem declareMember_grown (hlaws : IdentifierLaws) (h : Declarations files) {member : LegacyModule}
    (hok : declareMember pk row files member = .ok files') :
    Declarations files' ∧ Grown files files' ∧ ∃ path canonical,
      dataSourceRelativePath member.dataPath row.dataPath = some path ∧
        normalizeSourcePath path = .ok canonical ∧ Declared files' pk canonical := by
  unfold declareMember at hok
  split at hok
  · cases hok
  next path hpath =>
  cases hdeclare : declareScriptFile files pk path true with
  | error refusal =>
    rw [hdeclare] at hok
    cases hok
  | ok saved =>
    rw [hdeclare] at hok
    cases hok
    obtain ⟨hkept, hgrown, canonical, hcanonical, hdeclared⟩ :=
      declareScriptFile_grown hlaws h hdeclare
    exact ⟨hkept, hgrown, path, canonical, hpath, hcanonical, hdeclared⟩

/-- What declaring all members leaves. -/
theorem foldlM_declareMember_grown (hlaws : IdentifierLaws) (h : Declarations files)
    (hok : members.foldlM (declareMember pk row) files = .ok files') :
    Declarations files' ∧ Grown files files' ∧ ∀ member ∈ members, ∃ path canonical,
      dataSourceRelativePath member.dataPath row.dataPath = some path ∧
        normalizeSourcePath path = .ok canonical ∧ Declared files' pk canonical := by
  induction members generalizing files with
  | nil =>
    cases hok
    exact ⟨h, .refl _, fun _ hmember => (List.not_mem_nil hmember).elim⟩
  | cons member members ih =>
    rw [List.foldlM_cons] at hok
    obtain ⟨files₁, hfirst, hok⟩ := Except.bind_eq_ok_iff.mp hok
    obtain ⟨h₁, hgrown₁, path, canonical, hpath, hcanonical, hdeclared⟩ :=
      declareMember_grown hlaws h hfirst
    obtain ⟨h₂, hgrown₂, hmembers⟩ := ih h₁ hok
    refine ⟨h₂, hgrown₁.trans hgrown₂, List.forall_mem_cons.mpr ⟨?_, hmembers⟩⟩
    exact ⟨path, canonical, hpath, hcanonical, hdeclared.grown hgrown₂⟩

/-- Members whose paths are declared are found again. -/
theorem foldlM_declareMember_again (h : Declarations files)
    (hmembers : ∀ member ∈ members, ∃ path,
      dataSourceRelativePath member.dataPath row.dataPath = some path ∧ Declared files pk path) :
    members.foldlM (declareMember pk row) files = .ok files := by
  induction members with
  | nil => rfl
  | cons member members ih =>
    obtain ⟨⟨path, hpath, hdeclared⟩, hmembers⟩ := List.forall_mem_cons.mp hmembers
    have hfirst : declareMember pk row files member = .ok files := by
      rw [declareMember, hpath]
      exact congrArg (Except.mapError StageRefusal.upload) (declareScriptFile_again h hdeclared)
    rw [List.foldlM_cons, hfirst]
    exact ih hmembers

/-- A member whose path is not canonical is refused, where the canonical one is declared. -/
theorem foldlM_declareMember_refused (hlaws : IdentifierLaws) (h : Declarations files)
    {member : LegacyModule} (hmember : member ∈ members)
    (hpath : dataSourceRelativePath member.dataPath row.dataPath = some path)
    (hcanonical : normalizeSourcePath path = .ok canonical) (hne : canonical ≠ path)
    (hdeclared : Declared files pk canonical) :
    members.foldlM (declareMember pk row) files ≠ .ok files' := by
  intro hok
  induction members generalizing files with
  | nil => cases hmember
  | cons first members ih =>
    rw [List.foldlM_cons] at hok
    obtain ⟨files₁, hfirst, hok⟩ := Except.bind_eq_ok_iff.mp hok
    rcases List.mem_cons.mp hmember with rfl | hmember
    · rw [declareMember, hpath] at hfirst
      dsimp only at hfirst
      cases hdeclare : declareScriptFile files pk path true with
      | error refusal =>
        rw [hdeclare] at hfirst
        cases hfirst
      | ok saved => exact declareScriptFile_refused h hcanonical hne hdeclared hdeclare
    · obtain ⟨h₁, hgrown₁, -⟩ := declareMember_grown hlaws h hfirst
      exact ih h₁ hmember (hdeclared.grown hgrown₁) hok

/-- A confirmed preparation declares the path. -/
theorem prepareUpload_declares {tree : Tree} {filename : PyStr}
    (h : prepareUpload tree files pk filename true true = .ok (path, files')) :
    uploadedSourcePath filename = .ok path ∧ declareScriptFile files pk path true = .ok files' := by
  unfold prepareUpload at h
  obtain ⟨path₁, hpath, h⟩ := Except.bind_eq_ok_iff.mp h
  obtain ⟨⟨⟩, -, h⟩ := Except.bind_eq_ok_iff.mp h
  obtain ⟨files₁, hdeclare, h⟩ := Except.bind_eq_ok_iff.mp h
  cases h
  exact ⟨hpath, hdeclare⟩

/-- A path that is declared is prepared again, and nothing changes. -/
theorem prepareUpload_again {tree : Tree} {filename : PyStr} (h : Declarations files)
    (hpath : uploadedSourcePath filename = .ok path) (hdeclared : Declared files pk path) :
    prepareUpload tree files pk filename true true = .ok (path, files) := by
  have hsome : (declarationOf files pk path).isSome = true := by
    obtain ⟨i, file, hfile, hproject, hpath, -⟩ := hdeclared
    exact isSome_declarationOf.mpr ⟨i, file, hfile, hproject, hpath⟩
  have hcheck : checkUploadConflicts tree files pk path true = .ok () := by
    simp [checkUploadConflicts, hsome]
  unfold prepareUpload
  rw [hpath]
  show (checkUploadConflicts tree files pk path true >>= _) = _
  rw [hcheck]
  show (declareScriptFile files pk path true >>= _) = _
  rw [declareScriptFile_again h hdeclared]
  rfl

/-- An uploaded path is uploaded again under itself. -/
theorem uploadedSourcePath_self (hlaws : IdentifierLaws) {filename : PyStr}
    (h : uploadedSourcePath filename = .ok path) : uploadedSourcePath path = .ok path := by
  have hcanonical := (uploadedSourcePath_ok hlaws h).canonical
  unfold uploadedSourcePath at h ⊢
  rw [hcanonical]
  split at h
  · cases h
  split_ifs at h with hsuffix
  split at h
  · cases h
  next dotted hdotted =>
  cases h
  rw [if_neg hsuffix, hdotted]

end Declare

/-! ## Projects -/

section Projects

variable {projects projects' : Table ProjectRow} {plan : ProposedProject} {staged : StagedProject}
  {storageKey : StorageKey}

/-- What `clean` does to an instance that it lets through. -/
theorem cleanProject_eq {revisions : Table RevisionRow} {project cleaned : ProjectInstance}
    (h : cleanProject projects revisions project = .ok cleaned) :
    ∃ path, normalizeDataPath project.fields.dataPath = .ok path ∧
      cleaned = { project with fields := { project.fields with dataPath := path } } := by
  unfold cleanProject at h
  split at h
  · next path hpath =>
    refine ⟨path, hpath, ?_⟩
    dsimp only [ProjectErrors.check] at h
    split_ifs at h
    exact (Except.ok.inj h).symm
  · next error herror =>
    unfold ProjectErrors.check at h
    split_ifs at h with hnone
    -- a path that has no canonical form is an error of its own
    have hproblem := (Option.or_eq_none_iff.mp (ProjectErrors.mk.inj hnone).1).1
    unfold dataPathProblem at hproblem
    split at hproblem
    · simp at hproblem
    · split_ifs at hproblem
      cases hproblem

/-- The project that is found for a proposal from a Data Source. -/
theorem of_existingProject (h : existingProject projects plan = some (staged.pk, staged.row))
    (hplan : plan.sourceType = .dataSource) :
    staged.row.sourceType = .dataSource ∧ staged.row.dataPath = plan.dataPath := by
  simp only [existingProject, hplan] at h
  have hmatches := List.find?_some h
  rw [decide_eq_true_eq] at hmatches
  exact ⟨hmatches.1, hmatches.2.2⟩

/-- A project that is found is found after others have come. -/
theorem existingProject_insert {found : Id × ProjectRow} {row : ProjectRow}
    (h : existingProject projects plan = some found) :
    existingProject (projects.insert row) plan = some found := by
  unfold existingProject at h ⊢
  split at h
  · rw [Table.entries_insert, List.find?_append, h, Option.some_or]
  · rw [Table.entries_insert, List.find?_append, h, Option.some_or]

/-- **The project of a proposal**: it was there, or it is new, with the canonical data path. -/
theorem projectFor_ok (h : projectFor projects storageKey plan = .ok (staged, projects')) :
    staged.row.activationPolicy = .manual ∧
    ((staged.created = false ∧ projects' = projects ∧
        existingProject projects plan = some (staged.pk, staged.row)) ∨
      (staged.created = true ∧ existingProject projects plan = none ∧
        projects' = projects.insert staged.row ∧ staged.pk = projects.next ∧
        ∃ path, normalizeDataPath plan.dataPath = .ok path ∧ staged.row =
          { (plan.newProject storageKey).fields with dataPath := path })) := by
  unfold projectFor at h
  split at h
  · next pk row hfound =>
    split_ifs at h with hpolicy
    cases h
    exact ⟨not_not.mp hpolicy, .inl ⟨rfl, rfl, hfound⟩⟩
  · next hnone =>
    split_ifs at h
    split at h
    · cases h
    next project hclean =>
    split at h
    · cases h
    next stored hsave =>
    cases h
    obtain ⟨path, hpath, rfl⟩ := cleanProject_eq hclean
    refine ⟨rfl, .inr ⟨rfl, hnone, ?_, rfl, path, hpath, rfl⟩⟩
    unfold saveProject at hsave
    dsimp only [ProposedProject.newProject] at hsave
    split at hsave
    · cases hsave
    · exact storeProject_ok hsave

/-- The project of a proposal is found from then on, where a new one has the proposed path. -/
theorem existingProject_of_projectFor
    (h : projectFor projects storageKey plan = .ok (staged, projects'))
    (hfolder : staged.created = true → plan.sourceType = .dataSource →
      normalizeDataPath plan.dataPath = .ok plan.dataPath) :
    existingProject projects' plan = some (staged.pk, staged.row) := by
  obtain ⟨-, ⟨-, rfl, hfound⟩ | ⟨hcreated, hnone, rfl, hpk, path, hpath, hrow⟩⟩ := projectFor_ok h
  · exact hfound
  · unfold existingProject at hnone ⊢
    split at hnone
    · rw [Table.entries_insert, List.find?_append, hnone, Option.none_or, hpk, hrow]
      simp [ProposedProject.newProject]
    · next hplan =>
      obtain rfl := Except.ok.inj (hpath.symm.trans (hfolder hcreated hplan))
      rw [Table.entries_insert, List.find?_append, hnone, Option.none_or, hpk, hrow]
      simp [ProposedProject.newProject, hplan]

end Projects

/-! ## Passes -/

section Passes

variable [Unicode] {src : LegacySource} {modules members : List LegacyModule}
  {plan : ProposedProject} {staged : StagedProject} {s s' t : StagingState}
  {storageKey : StorageKey} {files files' : Table ScriptFileRow}
  {pk : Id} {row : ProjectRow}

/-- What staging keeps. -/
structure Later (s t : StagingState) : Prop where
  existing : ∀ plan found, existingProject s.projects plan = some found →
    existingProject t.projects plan = some found
  grown : Grown s.files t.files
  declarations : Declarations s.files → Declarations t.files

theorem Later.trans {u : StagingState} (h : Later s t) (h' : Later t u) : Later s u where
  existing plan found hfound := h'.existing plan found (h.existing plan found hfound)
  grown := h.grown.trans h'.grown
  declarations := h'.declarations ∘ h.declarations

omit [Unicode] in
theorem existing_projectFor {projects projects' : Table ProjectRow} {staged : StagedProject}
    (h : projectFor projects storageKey plan = .ok (staged, projects')) (plan' : ProposedProject)
    {found : Id × ProjectRow} (hfound : existingProject projects plan' = some found) :
    existingProject projects' plan' = some found := by
  obtain ⟨-, ⟨-, rfl, -⟩ | ⟨-, -, rfl, -⟩⟩ := projectFor_ok h
  · exact hfound
  · exact existingProject_insert hfound

/-- What declaring the members of a project leaves. -/
theorem declareMembers_grown (hlaws : IdentifierLaws) (h : Declarations files)
    (hok : declareMembers src pk row members files = .ok files') :
    Declarations files' ∧ Grown files files' ∧ (row.sourceType = .dataSource →
      ∀ member ∈ members, src.publishes member = true → ∃ path canonical,
        dataSourceRelativePath member.dataPath row.dataPath = some path ∧
          normalizeSourcePath path = .ok canonical ∧ Declared files' pk canonical) := by
  unfold declareMembers at hok
  split at hok
  · next hupload =>
    cases hok
    exact ⟨h, .refl files, fun hbacked => by rw [hupload] at hbacked; cases hbacked⟩
  · obtain ⟨hkept, hgrown, hmembers⟩ := foldlM_declareMember_grown hlaws h hok
    exact ⟨hkept, hgrown, fun _ member hmember hpublishes =>
      hmembers member (List.mem_filter.mpr ⟨hmember, hpublishes⟩)⟩

/-- What staging the content of an uploaded project has declared. -/
theorem stageContent_upload (hlaws : IdentifierLaws) (hupload : row.sourceType = .upload)
    (hok : stageContent src pk row members files = some (.ok files')) :
    ∃ member source path, members.head? = some member ∧ src.read member = some source ∧
      uploadedSourcePath member.filePath = .ok path ∧
      if src.publishesFrom member source then declareScriptFile files pk path true = .ok files'
      else files' = files := by
  simp only [stageContent, hupload] at hok
  obtain ⟨member, hmember, hok⟩ := Option.bind_eq_some_iff.mp hok
  obtain ⟨source, hsource, hok⟩ := Option.bind_eq_some_iff.mp hok
  have hok := Option.some.inj hok
  cases hpath : uploadedSourcePath member.filePath with
  | error refusal =>
    rw [hpath] at hok
    cases hok
  | ok path =>
    refine ⟨member, source, path, hmember, hsource, hpath, ?_⟩
    rw [hpath] at hok
    replace hok : Except.mapError StageRefusal.upload (if src.publishesFrom member source then
        (prepareUpload (fun _ => none) files pk path true true >>= fun prepared => pure prepared.2)
      else pure files) = .ok files' := hok
    split_ifs at hok ⊢ with hpublishes
    · cases hprepare : prepareUpload (fun _ => none) files pk path true true with
      | error refusal =>
        rw [hprepare] at hok
        cases hok
      | ok prepared =>
        obtain ⟨path', files₁⟩ := prepared
        rw [hprepare] at hok
        cases hok
        obtain ⟨hpath', hdeclare⟩ := prepareUpload_declares hprepare
        obtain rfl := Except.ok.inj (hpath'.symm.trans (uploadedSourcePath_self hlaws hpath))
        exact hdeclare
    · exact (Except.ok.inj hok).symm

/-- What staging the content of a project leaves. -/
theorem stageContent_grown (hlaws : IdentifierLaws) (h : Declarations files)
    (hok : stageContent src pk row members files = some (.ok files')) :
    Declarations files' ∧ Grown files files' := by
  cases htype : row.sourceType with
  | dataSource =>
    simp only [stageContent, htype] at hok
    cases hok
    exact ⟨h, .refl files⟩
  | upload =>
    obtain ⟨member, source, path, -, -, -, hdeclare⟩ := stageContent_upload hlaws htype hok
    split_ifs at hdeclare
    · obtain ⟨hkept, hgrown, -⟩ := declareScriptFile_grown hlaws h hdeclare
      exact ⟨hkept, hgrown⟩
    · subst hdeclare
      exact ⟨h, .refl _⟩

/-- The steps of a proposal that is accepted. -/
theorem stageProposal_ok
    (h : stageProposal src modules storageKey plan s = some (.ok staged, s')) :
    ∃ files, projectFor s.projects storageKey plan = .ok (staged, s'.projects) ∧
      declareMembers src staged.pk staged.row (plan.members modules) s.files = .ok files ∧
      stageContent src staged.pk staged.row (plan.members modules) files = some (.ok s'.files) := by
  unfold stageProposal at h
  split at h
  · cases h
  next project projects hproject =>
  dsimp only at h
  split at h
  · cases h
  next files hdeclare =>
  obtain ⟨content, hcontent, h⟩ := Option.map_eq_some_iff.mp h
  cases content with
  | error refusal => cases h
  | ok staged' =>
    cases h
    exact ⟨files, hproject, hdeclare, hcontent⟩

/-- **One proposal** loses nothing, accepted or not. -/
theorem stageProposal_later (hlaws : IdentifierLaws) (hs : Declarations s.files)
    {result : Except StageRefusal StagedProject}
    (h : stageProposal src modules storageKey plan s = some (result, s')) : Later s s' := by
  unfold stageProposal at h
  split at h
  · cases h
    exact ⟨fun _ _ hfound => hfound, .refl _, id⟩
  next project projects hproject =>
  dsimp only at h
  split at h
  · cases h
    exact ⟨fun plan' _ => existing_projectFor hproject plan', .refl _, id⟩
  next files hdeclare =>
  obtain ⟨hkept, hgrown, -⟩ := declareMembers_grown hlaws hs hdeclare
  obtain ⟨content, hcontent, h⟩ := Option.map_eq_some_iff.mp h
  cases content with
  | error refusal =>
    cases h
    exact ⟨fun plan' _ => existing_projectFor hproject plan', hgrown, fun _ => hkept⟩
  | ok files' =>
    cases h
    obtain ⟨hkept', hgrown'⟩ := stageContent_grown hlaws hkept hcontent
    exact ⟨fun plan' _ => existing_projectFor hproject plan', hgrown.trans hgrown', fun _ => hkept'⟩

/-- **A pass** loses nothing. -/
theorem stage_later (hlaws : IdentifierLaws) {proposed : List (ProposedProject × StorageKey)}
    {results : List (Except StageRefusal StagedProject)} (hs : Declarations s.files)
    (h : stage src modules proposed s = some (results, s')) : Later s s' := by
  induction proposed generalizing s results with
  | nil =>
    cases h
    exact ⟨fun _ _ hfound => hfound, .refl _, id⟩
  | cons proposal proposed ih =>
    obtain ⟨plan, storageKey⟩ := proposal
    obtain ⟨⟨result, s₁⟩, hfirst, h⟩ := Option.bind_eq_some_iff.mp h
    obtain ⟨⟨rest, s₂⟩, hrest, h⟩ := Option.bind_eq_some_iff.mp h
    cases h
    have hlater := stageProposal_later hlaws hs hfirst
    exact hlater.trans (ih (hlater.declarations hs) hrest)

/-! ## A later pass -/

omit [Unicode] in
/-- The module of an uploaded project is its first member. -/
theorem head?_members [Hashing] [Slugify] (hplan : plan ∈ group modules)
    (hupload : plan.sourceType = .upload) {module : LegacyModule}
    (hmodule : module ∈ plan.members modules) : (plan.members modules).head? = some module := by
  obtain ⟨first, hfirst⟩ := Option.isSome_iff_exists.mp
    (List.isSome_head?.mpr (List.ne_nil_of_mem hmodule))
  obtain ⟨pk, hpk, hfound⟩ := List.mem_filterMap.mp hmodule
  obtain ⟨pk', hpk', hfound'⟩ := List.mem_filterMap.mp (List.mem_of_head? hfirst)
  obtain rfl := pk_eq_of_upload hplan hupload hpk hpk'
  rw [hfirst, ← hfound, hfound']

/-- What is recorded of a module. -/
theorem recordedPath_ok {module : LegacyModule} {recorded dotted : PyStr}
    (h : plan.recordedPath module = .ok (recorded, dotted)) :
    plan.sourcePathFor module = .ok (some recorded) ∧
      sourcePathToDottedName recorded = .ok dotted := by
  unfold ProposedProject.recordedPath at h
  split at h
  · cases h
  · cases h
  next path hpath =>
  split at h
  · cases h
  next name hname =>
  cases h
  exact ⟨hpath, hname⟩

omit [Unicode] in
theorem publishes_of_isExecutable {module : LegacyModule}
    (h : module.scripts.any LegacyScript.isExecutable = true) : src.publishes module = true := by
  rw [LegacySource.publishes, h, Bool.true_or]

/-- A proposal with canonical paths is found again, under the recorded names. -/
theorem restaged_of_canonical [Hashing] [Slugify] (hlaws : IdentifierLaws)
    (hplan : plan ∈ group modules) (hs : Declarations s.files)
    (hturn : stageProposal src modules storageKey plan s = some (.ok staged, s'))
    (hlater : Later s' t) (hc : Canonical src plan (plan.members modules) staged)
    (storageKey' : StorageKey) : Restaged src modules plan staged storageKey' t := by
  obtain ⟨files, hproject, hdeclare, hcontent⟩ := stageProposal_ok hturn
  have hmanual := (projectFor_ok hproject).1
  have hfound := hlater.existing _ _ (existingProject_of_projectFor hproject hc.folder)
  obtain ⟨hfiles, -, hmembers⟩ := declareMembers_grown hlaws hs hdeclare
  obtain ⟨hfiles', hgrown'⟩ := stageContent_grown hlaws hfiles hcontent
  have hkept := hlater.declarations hfiles'
  have hgrown := hgrown'.trans hlater.grown
  -- what the first pass declared is declared still
  have hdeclared : staged.row.sourceType = .dataSource → ∀ module ∈ plan.members modules,
      src.publishes module = true → ∃ path,
        dataSourceRelativePath module.dataPath staged.row.dataPath = some path ∧
          normalizeSourcePath path = .ok path ∧ Declared t.files staged.pk path := by
    intro htype module hmodule hpublishes
    obtain ⟨path, canonical, hpath, hcanonical, hdeclared⟩ :=
      hmembers htype module hmodule hpublishes
    have hsame := hc.paths htype module hmodule hpublishes path hpath
    obtain rfl := Except.ok.inj (hcanonical.symm.trans hsame)
    exact ⟨_, hpath, hcanonical, hdeclared.grown hgrown⟩
  have huploaded : staged.row.sourceType = .upload → ∃ module source path,
      (plan.members modules).head? = some module ∧ src.read module = some source ∧
        uploadedSourcePath module.filePath = .ok path ∧
          (src.publishesFrom module source = true → Declared t.files staged.pk path) := by
    intro htype
    obtain ⟨module, source, path, hmodule, hsource, hpath, hstored⟩ :=
      stageContent_upload hlaws htype hcontent
    refine ⟨module, source, path, hmodule, hsource, hpath, fun hpublishes => ?_⟩
    rw [if_pos hpublishes] at hstored
    obtain ⟨-, -, canonical, hcanonical, hdeclared⟩ := declareScriptFile_grown hlaws hfiles hstored
    have hsame := (uploadedSourcePath_ok hlaws hpath).canonical
    obtain rfl := Except.ok.inj (hcanonical.symm.trans hsame)
    exact hdeclared.grown hlater.grown
  constructor
  · intro module hmodule hexecutable recorded dotted hrecorded
    obtain ⟨hpathFor, hdotted⟩ := recordedPath_ok hrecorded
    cases htype : staged.row.sourceType with
    | dataSource =>
      obtain ⟨path, hpath, hcanonical, i, file, hfile, hproject', hfilePath, henabled⟩ :=
        hdeclared htype module hmodule (publishes_of_isExecutable hexecutable)
      refine ⟨i, file, hfile, hproject', henabled, ?_, ?_⟩
      · simp [stagedPath, htype, hpath, hcanonical, hfilePath, Except.toOption]
      · rw [hfilePath]
        by_cases hsame : plan.sourceType = .dataSource
        · have hfolder := (of_existingProject hfound hsame).2
          simp only [ProposedProject.sourcePathFor, hsame, ← hfolder, hpath] at hpathFor
          cases hpathFor
          exact hdotted
        · exact hc.names (fun heq => hsame (heq.symm.trans htype)) module hmodule hexecutable path
            recorded dotted hpath hrecorded
    | upload =>
      have hupload : plan.sourceType = .upload := by
        cases hplanType : plan.sourceType with
        | upload => rfl
        | dataSource =>
          have := (of_existingProject hfound hplanType).1
          rw [htype] at this
          cases this
      obtain ⟨first, source, path, hfirst, -, hpath, hstored⟩ := huploaded htype
      obtain rfl := Option.some.inj ((head?_members hplan hupload hmodule).symm.trans hfirst)
      obtain ⟨i, file, hfile, hproject', hfilePath, henabled⟩ :=
        hstored (by rw [LegacySource.publishesFrom, hexecutable, Bool.true_or])
      simp only [ProposedProject.sourcePathFor, hupload, hpath] at hpathFor
      cases hpathFor
      refine ⟨i, file, hfile, hproject', henabled, ?_, ?_⟩
      · simp [stagedPath, htype, hpath, hfilePath, Except.toOption]
      · rw [hfilePath]
        exact hdotted
  · have hproject' : projectFor t.projects storageKey' plan =
        .ok (⟨staged.pk, staged.row, false⟩, t.projects) := by
      rw [projectFor, hfound]
      exact if_neg (not_not.mpr hmanual)
    have hdeclare' : declareMembers src staged.pk staged.row (plan.members modules) t.files =
        .ok t.files := by
      unfold declareMembers
      split
      · rfl
      next htype =>
      refine foldlM_declareMember_again hkept fun module hmodule => ?_
      obtain ⟨hmodule, hpublishes⟩ := List.mem_filter.mp hmodule
      obtain ⟨path, hpath, -, hstored⟩ := hdeclared htype module hmodule hpublishes
      exact ⟨path, hpath, hstored⟩
    have hcontent' : stageContent src staged.pk staged.row (plan.members modules) t.files =
        some (.ok t.files) := by
      cases htype : staged.row.sourceType with
      | dataSource => simp only [stageContent, htype]
      | upload =>
        obtain ⟨module, source, path, hmodule, hsource, hpath, hstored⟩ := huploaded htype
        simp only [stageContent, htype, hmodule, Option.bind_eq_bind, Option.bind_some, hsource]
        show some (Except.mapError StageRefusal.upload (uploadedSourcePath module.filePath >>= _)) = _
        rw [hpath]
        show some (Except.mapError StageRefusal.upload (if src.publishesFrom module source then
            (prepareUpload (fun _ => none) t.files staged.pk path true true >>=
              fun prepared => pure prepared.2) else pure t.files)) = _
        split_ifs with hpublishes
        · rw [prepareUpload_again hkept (uploadedSourcePath_self hlaws hpath) (hstored hpublishes)]
          rfl
        · rfl
    rw [stageProposal, hproject']
    dsimp only
    rw [hdeclare']
    dsimp only
    rw [hcontent']
    rfl

/-- A proposal that is found again, under the recorded names, has canonical paths. -/
theorem canonical_of_restaged (hlaws : IdentifierLaws) (hs : Declarations s.files)
    (hturn : stageProposal src modules storageKey plan s = some (.ok staged, s'))
    (hlater : Later s' t) {storageKey' : StorageKey}
    (h : Restaged src modules plan staged storageKey' t) :
    Canonical src plan (plan.members modules) staged := by
  obtain ⟨files, hproject, hdeclare, hcontent⟩ := stageProposal_ok hturn
  obtain ⟨hfiles, -, hmembers⟩ := declareMembers_grown hlaws hs hdeclare
  obtain ⟨hfiles', hgrown'⟩ := stageContent_grown hlaws hfiles hcontent
  obtain ⟨files', hproject', hdeclare', -⟩ := stageProposal_ok h.again
  have hfound : existingProject t.projects plan = some (staged.pk, staged.row) := by
    obtain ⟨-, ⟨-, -, hfound⟩ | ⟨hcreated, -⟩⟩ := projectFor_ok hproject'
    · exact hfound
    · cases hcreated
  have hpaths : staged.row.sourceType = .dataSource → ∀ module ∈ plan.members modules,
      src.publishes module = true → ∀ path,
        dataSourceRelativePath module.dataPath staged.row.dataPath = some path →
          normalizeSourcePath path = .ok path := by
    intro htype module hmodule hpublishes path hpath
    obtain ⟨path', canonical, hpath', hcanonical, hdeclared⟩ :=
      hmembers htype module hmodule hpublishes
    obtain rfl := Option.some.inj (hpath'.symm.trans hpath)
    by_cases hne : canonical = path'
    · rw [hcanonical, hne]
    · simp only [declareMembers, htype] at hdeclare'
      exact absurd hdeclare' (foldlM_declareMember_refused hlaws (hlater.declarations hfiles')
        (List.mem_filter.mpr ⟨hmodule, hpublishes⟩) hpath hcanonical hne
        (hdeclared.grown (hgrown'.trans hlater.grown)))
  refine ⟨fun hcreated hbacked => ?_, hpaths, fun hdiffer module hmodule hexecutable path recorded
    dotted hpath hrecorded => ?_⟩
  · obtain ⟨-, ⟨hfalse, -⟩ | ⟨-, -, -, -, path, hpath, hrow⟩⟩ := projectFor_ok hproject
    · rw [hcreated] at hfalse
      cases hfalse
    · have hfolder := (of_existingProject hfound hbacked).2
      rw [hrow] at hfolder
      exact hpath.trans (congrArg Except.ok hfolder)
  · cases htype : staged.row.sourceType with
    | upload =>
      exfalso
      cases hplanType : plan.sourceType with
      | upload => exact hdiffer (htype.trans hplanType.symm)
      | dataSource =>
        have := (of_existingProject hfound hplanType).1
        rw [htype] at this
        cases this
    | dataSource =>
      obtain ⟨i, file, -, -, -, hstaged, hdotted⟩ :=
        h.named module hmodule hexecutable recorded dotted hrecorded
      have hcanonical := hpaths htype module hmodule (publishes_of_isExecutable hexecutable) path hpath
      simp only [stagedPath, htype, hpath, Option.bind_some, hcanonical, Except.toOption,
        Option.some_inj] at hstaged
      rw [hstaged]
      exact hdotted

/-- **A later pass finds a proposal again if and only if its paths are canonical**, whatever is
staged in between. -/
theorem restaged_iff [Hashing] [Slugify] (hlaws : IdentifierLaws)
    {start first second : StagingState} {before after beforeAgain : List (ProposedProject × StorageKey)}
    {r₁ r₂ r₃ : List (Except StageRefusal StagedProject)} (hplan : plan ∈ group modules)
    (hsaved : Saved start.files)
    (hbefore : stage src modules before start = some (r₁, s))
    (hturn : stageProposal src modules storageKey plan s = some (.ok staged, s'))
    (hafter : stage src modules after s' = some (r₂, first))
    (hagain : stage src modules beforeAgain first = some (r₃, second)) (storageKey' : StorageKey) :
    Restaged src modules plan staged storageKey' second ↔
      Canonical src plan (plan.members modules) staged := by
  have hstart : Declarations start.files := hsaved.declarations hlaws
  have hs := (stage_later hlaws hstart hbefore).declarations hstart
  have hs' := (stageProposal_later hlaws hs hturn).declarations hs
  have hrest := stage_later hlaws hs' hafter
  have hlater := hrest.trans (stage_later hlaws (hrest.declarations hs') hagain)
  exact ⟨canonical_of_restaged hlaws hs hturn hlater,
    fun hc => restaged_of_canonical hlaws hplan hs hturn hlater hc storageKey'⟩

end Passes

/-! ## Two modules -/

/-- A module in a directory of a data source. -/
def exampleModule : LegacyModule :=
  ⟨1, py "a.py", py "a", some 7, py "d/a.py", [⟨1, py "A", true⟩]⟩

/-- Its proposal. -/
def examplePlan : ProposedProject :=
  ⟨py "d-00000000", py "d", .dataSource, some 7, py "d", [1]⟩

/-- The project that is created for it. -/
def exampleStaged : StagedProject :=
  ⟨1, { (examplePlan.newProject 5).fields with dataPath := py "d" }, true⟩

/-- Sources that are read, and define no script by themselves. -/
def emptySource : LegacySource := ⟨fun _ => some [], fun _ => false⟩

/-- No projects, and no declarations. -/
def unstaged : StagingState := ⟨.startingAt 1, .startingAt 1⟩

/-- A path in ASCII is its own canonical form, so a second pass finds it. -/
theorem restaged_iff_a_py : ∃ first, @stageProposal asciiUnicode emptySource [exampleModule] 5
    examplePlan unstaged = some (.ok exampleStaged, first) ∧
      @Restaged asciiUnicode emptySource [exampleModule] examplePlan exampleStaged 6 first := by
  have hrun : ((@stageProposal asciiUnicode emptySource [exampleModule] 5 examplePlan unstaged).map
      fun turn => turn.1.toOption) = some (some exampleStaged) := by decide +kernel
  obtain ⟨⟨result, first⟩, hturn, hresult⟩ := Option.map_eq_some_iff.mp hrun
  obtain rfl : result = .ok exampleStaged := by
    cases result with
    | error refusal => cases hresult
    | ok staged => exact congrArg Except.ok (Option.some.inj hresult)
  refine ⟨first, hturn, (@restaged_iff asciiUnicode emptySource [exampleModule] examplePlan
    exampleStaged unstaged first 5 (tableHashing []) ⟨id⟩ identifierLaws_ascii unstaged first first
    [] [] [] [] [] [] (by decide +kernel) (@Saved.empty asciiUnicode _ Nat.one_pos) rfl hturn rfl
    rfl 6).mpr ?_⟩
  have hmembers : examplePlan.members [exampleModule] = [exampleModule] := by decide
  refine @Canonical.mk asciiUnicode _ _ _ _ (fun _ _ => by decide)
    (fun _ module hmodule _ path hpath => ?_) fun hdiffer => absurd rfl hdiffer
  rw [hmembers] at hmodule
  obtain rfl := List.mem_singleton.mp hmodule
  obtain rfl : py "a.py" = path :=
    Option.some.inj ((by decide : _ = some (py "a.py")).symm.trans hpath)
  decide

/-- A module whose name is the Kelvin sign. -/
def kelvinModule : LegacyModule :=
  ⟨1, 0x212A :: py ".py", [0x212A], some 7, py "d/" ++ 0x212A :: py ".py", [⟨1, py "A", true⟩]⟩

/-- **A mapped module that is not found again**: the map records its name as it is stored, staging
declares the canonical one, and a second pass is refused. -/
theorem restaged_kelvin :
    (@buildMap (tableHashing []) ⟨id⟩ kelvinUnicode (.startingAt 1) false [kelvinModule]).unmapped
        = [] ∧
      (@buildMap (tableHashing []) ⟨id⟩ kelvinUnicode (.startingAt 1) false
        [kelvinModule]).scripts.map MappedScript.modulePath = [[0x212A]] ∧
      ∃ first second refusal, @stage kelvinUnicode emptySource [kelvinModule]
          ((@group (tableHashing []) ⟨id⟩ [kelvinModule]).map fun plan => (plan, 5)) unstaged =
            some ([.ok exampleStaged], first) ∧
        (first.files.row 1).map ScriptFileRow.sourcePath = some (py "K.py") ∧
        @sourcePathToDottedName kelvinUnicode (py "K.py") = .ok (py "K") ∧
        @stage kelvinUnicode emptySource [kelvinModule]
          ((@group (tableHashing []) ⟨id⟩ [kelvinModule]).map fun plan => (plan, 6)) first =
            some ([.error refusal], second) := by
  refine ⟨by decide +kernel, by decide +kernel, ?_⟩
  have hrun : ((@stage kelvinUnicode emptySource [kelvinModule]
      ((@group (tableHashing []) ⟨id⟩ [kelvinModule]).map fun plan => (plan, 5)) unstaged).map
        fun turn => (turn.1, (turn.2.files.row 1).map ScriptFileRow.sourcePath,
          (@stage kelvinUnicode emptySource [kelvinModule]
            ((@group (tableHashing []) ⟨id⟩ [kelvinModule]).map fun plan => (plan, 6)) turn.2).map
              Prod.fst)) =
      some ([.ok exampleStaged], some (py "K.py"),
        some [.error (.upload (.declaration .siblingConflict))]) := by decide +kernel
  obtain ⟨⟨results, first⟩, hfirst, hrun⟩ := Option.map_eq_some_iff.mp hrun
  obtain ⟨rfl, hrun⟩ := Prod.mk.inj hrun
  obtain ⟨hpath, hagain⟩ := Prod.mk.inj hrun
  obtain ⟨⟨results, second⟩, hsecond, rfl⟩ := Option.map_eq_some_iff.mp hagain
  exact ⟨first, second, _, hfirst, hpath, by decide +kernel, hsecond⟩

end NetBoxScripts
