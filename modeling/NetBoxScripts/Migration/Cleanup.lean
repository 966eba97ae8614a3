import NetBoxScripts.Migration.Mapping

/-!
# Deleting the built-in modules

`retire_legacy` (`cleanup.py`) deletes the built-in modules of the map once nothing refers to
them. It asks the map that the cutover froze whether their classes have replacements, and the
rows as they are whether anything names them.

## Main definitions

* `CleanupWorld`: the rows the pass reads and deletes
* `deleteModules`: the loop, with the world each module was deleted in
* `ClassReplaced`: a class of a module has a Script in service, or its project is gone
* `RecordedClass`: the map holds the class

## Main results

* `frozen_buildMap`: the map that `build_map` makes is well formed
* `DeletedAt.unreferenced`: nothing names a module when it is deleted
* `deleted_replaced_iff`: every class of a deleted module is replaced if and only if those are
  that the map does not hold
* `unrecorded_class_deleted`: a class added after the cutover goes with its module
-/

namespace NetBoxScripts

/-! ## The rows -/

/-- A built-in script module as its row stands. -/
structure BuiltinModule where
  pk : Id
  pythonName : PyStr
  deriving DecidableEq, Repr

/-- A built-in Custom Script as its row stands. -/
structure BuiltinScript where
  pk : Id
  module : Id
  name : PyStr
  isExecutable : Bool
  deriving DecidableEq, Repr

/-- What a Job or an Event Rule names. -/
structure Reference where
  objectType : PyStr
  objectId : Id
  deriving DecidableEq, Repr

/-- A `NetBoxScript` row. -/
structure PublishedScript where
  projectKey : PyStr
  modulePath : PyStr
  className : PyStr
  isRetired : Bool
  deriving DecidableEq, Repr

/-- The rows the pass reads and deletes, the modules in the order of their paths and the
projects with the revision each serves. -/
structure CleanupWorld where
  modules : List BuiltinModule
  scripts : List BuiltinScript
  jobs : List Reference
  eventRules : List Reference
  projects : List (PyStr × Option Id)
  published : List PublishedScript
  nodup : (modules.map BuiltinModule.pk).Nodup

/-- The type of a reference to a built-in script. -/
def scriptType : PyStr := py "extras.script"

/-- The type of a reference to a built-in module. -/
def moduleType : PyStr := py "extras.scriptmodule"

/-- A reference names the module or one of its scripts. -/
def CleanupWorld.Names (world : CleanupWorld) (module : Id) (reference : Reference) : Prop :=
  reference = ⟨moduleType, module⟩ ∨
    ∃ script ∈ world.scripts, script.module = module ∧ reference = ⟨scriptType, script.pk⟩

instance (world : CleanupWorld) (module : Id) (reference : Reference) :
    Decidable (world.Names module reference) :=
  inferInstanceAs (Decidable (_ ∨ ∃ script ∈ world.scripts, _))

/-- `module.delete()`: the rows that reach the module or its scripts go with it. -/
def CleanupWorld.delete (world : CleanupWorld) (module : Id) : CleanupWorld where
  modules := world.modules.filter fun other => other.pk ≠ module
  scripts := world.scripts.filter fun script => script.module ≠ module
  jobs := world.jobs.filter fun job => ¬ world.Names module job
  eventRules := world.eventRules.filter fun rule => ¬ world.Names module rule
  projects := world.projects
  published := world.published
  nodup := (List.filter_sublist.map _).nodup world.nodup

/-! ## References and replacements -/

/-- What `module_references` returns. -/
structure ModuleReferences where
  scripts : ℕ
  moduleJobs : Bool
  retiredScriptJobs : Bool
  liveScriptJobs : Bool
  eventRules : Bool
  deriving DecidableEq, Repr

/-- `module_references(module)` -/
def moduleReferences (world : CleanupWorld) (module : Id) : ModuleReferences :=
  let scripts := world.scripts.filter fun script => script.module = module
  let retired := (scripts.filter fun script => !script.isExecutable).map BuiltinScript.pk
  let live := (scripts.map BuiltinScript.pk).filter (· ∉ retired)
  { scripts := scripts.length
    moduleJobs := world.jobs.any (· = ⟨moduleType, module⟩)
    retiredScriptJobs := world.jobs.any fun job =>
      job.objectType = scriptType ∧ job.objectId ∈ retired
    liveScriptJobs := world.jobs.any fun job => job.objectType = scriptType ∧ job.objectId ∈ live
    eventRules := world.eventRules.any (· = ⟨moduleType, module⟩) ||
      world.eventRules.any fun rule =>
        rule.objectType = scriptType ∧ rule.objectId ∈ scripts.map BuiltinScript.pk }

/-- `mapped_projects_present(run)` -/
def mappedProjectsPresent (mapping : LegacyMap) (world : CleanupWorld) : List PyStr :=
  (world.projects.map Prod.fst).filter fun key => key ∈ mapping.modules.map MappedModule.projectKey

/-- `absent`: the mapped projects that are gone. -/
def absentProjects (mapping : LegacyMap) (world : CleanupWorld) : List PyStr :=
  (mapping.modules.map MappedModule.projectKey).filter (· ∉ mappedProjectsPresent mapping world)

/-- `projects_not_serving(run)` -/
def projectsNotServing (mapping : LegacyMap) (world : CleanupWorld) : List PyStr :=
  ((world.projects.filter fun project => project.2 = none).map Prod.fst).filter fun key =>
    key ∈ mapping.modules.map MappedModule.projectKey

/-- `rows.get((entry['module_path'], entry['class_name']))` of `resolve_scripts`. -/
def rowFor (world : CleanupWorld) (entry : MappedScript) : Option PublishedScript :=
  world.published.reverse.find? fun row => row.projectKey = entry.projectKey ∧
    row.modulePath = entry.modulePath ∧ row.className = entry.className

/-- `resolved.get(legacy_pk)` of `resolve_scripts`. -/
def resolvedRow (mapping : LegacyMap) (world : CleanupWorld) (legacyPk : Id) :
    Option PublishedScript :=
  (mapping.scripts.reverse.filter fun entry => entry.legacyPk = legacyPk).findSome? (rowFor world)

/-- Why a module's classes hold it back. -/
inductive Stranded
  | unresolved
  | retired
  deriving DecidableEq, Repr

/-- `stranded.get(module.pk)`: what the recorded classes of a module resolve to. Those of a
project that is gone do not count. -/
def strandedFor (mapping : LegacyMap) (world : CleanupWorld) (module : Id) : Option Stranded :=
  let recorded := mapping.scripts.filter fun entry => entry.legacyModulePk = module ∧
    entry.projectKey ∉ absentProjects mapping world
  if recorded.any fun entry => rowFor world entry = none then some .unresolved
  else if recorded.any fun entry =>
      (resolvedRow mapping world entry.legacyPk).any PublishedScript.isRetired then some .retired
  else none

/-- A refusal: whether it is permanent, and its message. -/
structure CleanupRefusal where
  permanent : Bool
  message : PyStr
  deriving DecidableEq, Repr

/-- `_refusal_for(module, references, stranded)` -/
def refusalFor (module : BuiltinModule) (references : ModuleReferences)
    (stranded : Option Stranded) : Option CleanupRefusal :=
  let held (text : String) : PyStr := py "Built-in script module " ++ module.pythonName ++ py text
  if references.moduleJobs then some ⟨true, held (" holds Job history of its own, which no " ++
    "Script Project can hold, so it stays where it is.")⟩
  else if references.retiredScriptJobs then some ⟨true, held (" holds Job history for a class " ++
    "that left the file, which no Script replaces, so it stays where it is.")⟩
  else if stranded = some .unresolved then some ⟨false, held (" publishes a class no Script " ++
    "resolves to, so deleting it would leave that script unable to run at all. Fix the source " ++
    "and stage it again.")⟩
  else if stranded = some .retired then some ⟨false, held (" publishes a class whose Script is " ++
    "retired, so deleting it would leave that script unable to run at all. Activate a revision " ++
    "that publishes it, then run this again.")⟩
  else if references.liveScriptJobs then some ⟨false, held (" still has Custom Script Jobs. The " ++
    "reference pass has completed and will not move them. Once you no longer need those Jobs, " ++
    "see \"Clean up built-in modules\" in the migration guide before deleting them, then run " ++
    "Clean up again.")⟩
  else if references.eventRules then some ⟨false, held (" is still named by an Event Rule. The " ++
    "reference pass has completed and will not move it. Repoint the rule or delete it by hand, " ++
    "then run Clean up again.")⟩
  else none

/-! ## The pass -/

/-- The counts of a pass. -/
structure CleanupCounts where
  modules : ℕ
  scripts : ℕ
  blocked : ℕ
  retained : ℕ
  unserved : ℕ
  deriving DecidableEq, Repr

/-- What the loop has done: the rows left, its report, and each module it deleted with the rows
at that moment. -/
structure CleanupPass where
  world : CleanupWorld
  counts : CleanupCounts
  warnings : List PyStr
  deleted : List (CleanupWorld × BuiltinModule)

/-- The body of the loop of `_delete_modules`: the references are read from the rows as they are,
the replacements as they were when the pass began. -/
def CleanupPass.retire (stranded : Id → Option Stranded) (pass : CleanupPass)
    (module : BuiltinModule) : CleanupPass :=
  let references := moduleReferences pass.world module.pk
  match refusalFor module references (stranded module.pk) with
  | some refusal =>
    { pass with
      counts := if refusal.permanent
        then { pass.counts with retained := pass.counts.retained + 1 }
        else { pass.counts with blocked := pass.counts.blocked + 1 }
      warnings := pass.warnings ++ [refusal.message] }
  | none =>
    { world := pass.world.delete module.pk
      counts := { pass.counts with
        scripts := pass.counts.scripts + references.scripts
        modules := pass.counts.modules + 1 }
      warnings := pass.warnings
      deleted := pass.deleted ++ [(pass.world, module)] }

/-- The modules of the map that the pass considers, by their rows. -/
def cleanupTargets (mapping : LegacyMap) (world : CleanupWorld) : List BuiltinModule :=
  let waiting := projectsNotServing mapping world
  let keys := (mapping.modules.filter fun entry => entry.projectKey ∉ waiting).map
    MappedModule.legacyPk
  world.modules.filter fun module => module.pk ∈ keys

/-- `_delete_modules(run)` -/
def deleteModules (mapping : LegacyMap) (world : CleanupWorld) : CleanupPass :=
  let waiting := projectsNotServing mapping world
  let unserved := (mapping.modules.filter fun entry => entry.projectKey ∈ waiting).length
  let warnings := if unserved = 0 then [] else
    [py ("Built-in modules were left in place because these Projects are not serving a " ++
      "revision: ") ++ (py ", ").intercalate (waiting.insertionSort (· ≤ ·)) ++
      py ". Activate them, then run this again."]
  (cleanupTargets mapping world).foldl (CleanupPass.retire (strandedFor mapping world))
    ⟨world, ⟨0, 0, 0, 0, unserved⟩, warnings, []⟩

/-- Why `retire_legacy` refuses. -/
inductive CleanupRefused
  | noRun
  | notStaged
  | outstanding
  deriving DecidableEq, Repr

/-- What `retire_legacy` reads of a run. -/
structure CleanupRun where
  /-- The cleanup step is recorded. -/
  stepDone : Bool
  /-- The map, once the fence is recorded. -/
  mapping : Option LegacyMap
  /-- The four reference steps are recorded. -/
  ready : Bool

/-- `retire_legacy(run)`: the pass, or none where the step is recorded. -/
def retireLegacyRows (run : Option CleanupRun) (world : CleanupWorld) :
    Except CleanupRefused (Option CleanupPass) :=
  match run with
  | none => .error .noRun
  | some run =>
    if run.stepDone then .ok none
    else
      match run.mapping with
      | none => .error .notStaged
      | some mapping =>
        if run.ready then .ok (some (deleteModules mapping world)) else .error .outstanding

/-- Whether a pass closes the run. -/
def CleanupPass.closes (pass : CleanupPass) : Bool :=
  pass.counts.blocked = 0 && pass.counts.unserved = 0

/-! ## The frozen map -/

section Frozen

variable [Unicode]

/-- A map as the cutover froze it: each module and each script once, and a script under the
project of its module and the dotted path of its file. -/
structure LegacyMap.Frozen (mapping : LegacyMap) : Prop where
  modules : (mapping.modules.map MappedModule.legacyPk).Nodup
  scripts : (mapping.scripts.map MappedScript.legacyPk).Nodup
  script : ∀ entry ∈ mapping.scripts, ∃ module ∈ mapping.modules,
    module.legacyPk = entry.legacyModulePk ∧ module.projectKey = entry.projectKey ∧
      sourcePathToDottedName module.sourcePath = .ok entry.modulePath

/-- The path that is recorded for a module is one that can be imported. -/
theorem dotted_of_recordedPath {plan : ProposedProject} {module : LegacyModule}
    {sourcePath modulePath : PyStr} (h : plan.recordedPath module = .ok (sourcePath, modulePath)) :
    sourcePathToDottedName sourcePath = .ok modulePath := by
  unfold ProposedProject.recordedPath at h
  split at h
  · cases h
  · cases h
  · split at h
    · cases h
    next dotted hdotted =>
      cases h
      exact hdotted

/-- What one module of the loop adds to the map. -/
theorem add_cases (proposals : List ProposedProject) (keys : Dict PyStr) (mapping : LegacyMap)
    (module : LegacyModule) :
    ((mapping.add proposals keys module).modules = mapping.modules ∧
      (mapping.add proposals keys module).scripts = mapping.scripts) ∨
    ∃ key sourcePath modulePath, sourcePathToDottedName sourcePath = .ok modulePath ∧
      (mapping.add proposals keys module).modules =
        mapping.modules ++ [⟨module.pk, key, sourcePath⟩] ∧
      (mapping.add proposals keys module).scripts =
        mapping.scripts ++ module.mappedScripts key modulePath := by
  unfold LegacyMap.add
  split
  · exact .inl ⟨rfl, rfl⟩
  · split
    · exact .inl ⟨rfl, rfl⟩
    next hrecorded => exact .inr ⟨_, _, _, dotted_of_recordedPath hrecorded, rfl, rfl⟩

omit [Unicode] in
theorem map_legacyPk_mappedScripts {module : LegacyModule} {key modulePath : PyStr} :
    ((module.mappedScripts key modulePath).map MappedScript.legacyPk).Sublist
      (module.scripts.map LegacyScript.pk) := by
  rw [LegacyModule.mappedScripts, List.map_map]
  exact List.filter_sublist.map LegacyScript.pk

/-- The loop keeps each script under the project and the path of its module, and takes each
module and script at most once. -/
theorem foldl_add (proposals : List ProposedProject) (keys : Dict PyStr)
    (modules : List LegacyModule) (mapping : LegacyMap)
    (h : ∀ entry ∈ mapping.scripts, ∃ module ∈ mapping.modules,
      module.legacyPk = entry.legacyModulePk ∧ module.projectKey = entry.projectKey ∧
        sourcePathToDottedName module.sourcePath = .ok entry.modulePath) :
    let made := modules.foldl (LegacyMap.add proposals keys) mapping
    (∀ entry ∈ made.scripts, ∃ module ∈ made.modules,
      module.legacyPk = entry.legacyModulePk ∧ module.projectKey = entry.projectKey ∧
        sourcePathToDottedName module.sourcePath = .ok entry.modulePath) ∧
    (made.modules.map MappedModule.legacyPk).Sublist
      (mapping.modules.map MappedModule.legacyPk ++ modules.map LegacyModule.pk) ∧
    (made.scripts.map MappedScript.legacyPk).Sublist
      (mapping.scripts.map MappedScript.legacyPk ++
        (modules.flatMap LegacyModule.scripts).map LegacyScript.pk) := by
  induction modules generalizing mapping with
  | nil =>
    refine ⟨h, ?_, ?_⟩
    · simp
    · simp
  | cons module modules ih =>
    intro made
    rcases add_cases proposals keys mapping module with ⟨hmodules, hscripts⟩ |
      ⟨key, sourcePath, modulePath, hdotted, hmodules, hscripts⟩
    · -- a module without a proposal or without a recorded path is left out
      obtain ⟨hentries, hsub, hsub'⟩ := ih (mapping.add proposals keys module)
        (by rw [hmodules, hscripts]; exact h)
      rw [hmodules] at hsub
      rw [hscripts] at hsub'
      refine ⟨hentries, hsub.trans ?_, hsub'.trans ?_⟩
      · exact (List.sublist_cons_self _ _).append_left _
      · rw [List.flatMap_cons, List.map_append]
        exact (List.sublist_append_right _ _).append_left _
    · have hstep : ∀ entry ∈ (mapping.add proposals keys module).scripts,
          ∃ other ∈ (mapping.add proposals keys module).modules,
            other.legacyPk = entry.legacyModulePk ∧ other.projectKey = entry.projectKey ∧
              sourcePathToDottedName other.sourcePath = .ok entry.modulePath := by
        intro entry hentry
        rw [hscripts] at hentry
        rw [hmodules]
        rcases List.mem_append.mp hentry with hold | hnew
        · obtain ⟨other, hother, hfacts⟩ := h entry hold
          exact ⟨other, List.mem_append_left _ hother, hfacts⟩
        · obtain ⟨script, -, rfl⟩ := List.mem_map.mp hnew
          exact ⟨_, List.mem_append_right _ List.mem_cons_self, rfl, rfl, hdotted⟩
      obtain ⟨hentries, hsub, hsub'⟩ := ih (mapping.add proposals keys module) hstep
      rw [hmodules, List.map_append, List.append_assoc] at hsub
      rw [hscripts, List.map_append, List.append_assoc] at hsub'
      refine ⟨hentries, hsub, hsub'.trans ?_⟩
      rw [List.flatMap_cons, List.map_append]
      exact (map_legacyPk_mappedScripts.append_right _).append_left _

/-- **The map that `build_map` makes** is well formed. -/
theorem frozen_buildMap [Hashing] [Slugify] {projects : Table ProjectRow} {resolveExisting : Bool}
    {modules : List LegacyModule} (hmodules : (modules.map LegacyModule.pk).Nodup)
    (hscripts : ((modules.flatMap LegacyModule.scripts).map LegacyScript.pk).Nodup) :
    (buildMap projects resolveExisting modules).Frozen := by
  obtain ⟨hentries, hsub, hsub'⟩ := foldl_add (group modules)
    (projectKeys projects resolveExisting (group modules)) modules ⟨[], [], []⟩
    fun _ hmem => absurd hmem List.not_mem_nil
  exact ⟨hsub.nodup hmodules, hsub'.nodup hscripts, hentries⟩

end Frozen

/-! ## What was refused -/

section Refusals

variable {mapping : LegacyMap} {world moment : CleanupWorld} {module : BuiltinModule}
  {references : ModuleReferences} {stranded : Option Stranded}

/-- A module is deleted only if each of the six tests passes it. -/
theorem refusalFor_eq_none (h : refusalFor module references stranded = none) :
    references.moduleJobs = false ∧ references.retiredScriptJobs = false ∧ stranded = none ∧
      references.liveScriptJobs = false ∧ references.eventRules = false := by
  unfold refusalFor at h
  simp only at h
  split_ifs at h with hmodule hretired hunresolved hstranded hlive hrules
  refine ⟨Bool.eq_false_iff.mpr hmodule, Bool.eq_false_iff.mpr hretired, ?_,
    Bool.eq_false_iff.mpr hlive, Bool.eq_false_iff.mpr hrules⟩
  cases stranded with
  | none => rfl
  | some reason =>
    cases reason with
    | unresolved => exact absurd rfl hunresolved
    | retired => exact absurd rfl hstranded

/-- No Job that the tests pass names the module or one of its scripts. -/
theorem jobs_unnamed (hmodule : (moduleReferences moment module.pk).moduleJobs = false)
    (hretired : (moduleReferences moment module.pk).retiredScriptJobs = false)
    (hlive : (moduleReferences moment module.pk).liveScriptJobs = false) :
    ∀ job ∈ moment.jobs, ¬ moment.Names module.pk job := by
  simp only [moduleReferences, List.any_eq_false, decide_eq_true_eq] at hmodule hretired hlive
  rintro job hjob (rfl | ⟨script, hscript, hof, rfl⟩)
  · exact hmodule _ hjob rfl
  · -- the tests tell retired scripts from the others, so one of the two covers it
    have hmem : script ∈ moment.scripts.filter fun script => script.module = module.pk :=
      List.mem_filter.mpr ⟨hscript, decide_eq_true hof⟩
    have hnotRetired := not_and.mp (hretired _ hjob) rfl
    exact hlive _ hjob ⟨rfl, List.mem_filter.mpr
      ⟨List.mem_map_of_mem hmem, decide_eq_true hnotRetired⟩⟩

/-- No Event Rule that the test passes names the module or one of its scripts. -/
theorem rules_unnamed (h : (moduleReferences moment module.pk).eventRules = false) :
    ∀ rule ∈ moment.eventRules, ¬ moment.Names module.pk rule := by
  simp only [moduleReferences, Bool.or_eq_false_iff, List.any_eq_false, decide_eq_true_eq] at h
  rintro rule hrule (rfl | ⟨script, hscript, hof, rfl⟩)
  · exact h.1 _ hrule rfl
  · exact h.2 _ hrule ⟨rfl, List.mem_map_of_mem
      (List.mem_filter.mpr ⟨hscript, decide_eq_true hof⟩)⟩

theorem rowFor_eq_some {entry : MappedScript} {row : PublishedScript}
    (h : rowFor world entry = some row) : row ∈ world.published ∧
      row.projectKey = entry.projectKey ∧ row.modulePath = entry.modulePath ∧
        row.className = entry.className := by
  have hfound := List.find?_some h
  rw [decide_eq_true_eq] at hfound
  exact ⟨List.mem_reverse.mp (List.mem_of_find?_eq_some h), hfound⟩

/-- A recorded class of a module that is not stranded has a row that is not retired. -/
theorem row_of_not_stranded (hscripts : (mapping.scripts.map MappedScript.legacyPk).Nodup)
    (h : strandedFor mapping world module.pk = none) {entry : MappedScript}
    (hentry : entry ∈ mapping.scripts) (hof : entry.legacyModulePk = module.pk)
    (hpresent : entry.projectKey ∉ absentProjects mapping world) :
    ∃ row, rowFor world entry = some row ∧ row.isRetired = false := by
  unfold strandedFor at h
  simp only at h
  split_ifs at h with hunresolved hretired
  have hmem : entry ∈ mapping.scripts.filter fun entry => entry.legacyModulePk = module.pk ∧
      entry.projectKey ∉ absentProjects mapping world :=
    List.mem_filter.mpr ⟨hentry, decide_eq_true ⟨hof, hpresent⟩⟩
  simp only [Bool.not_eq_true, List.any_eq_false, decide_eq_true_eq] at hunresolved hretired
  obtain ⟨row, hrow⟩ := Option.ne_none_iff_exists'.mp (hunresolved entry hmem)
  refine ⟨row, hrow, ?_⟩
  -- the map holds each script once, so its key finds this row
  have hresolved : resolvedRow mapping world entry.legacyPk = some row := by
    unfold resolvedRow
    cases hfound : (mapping.scripts.reverse.filter fun other =>
        other.legacyPk = entry.legacyPk).findSome? (rowFor world) with
    | none =>
      have hnone := List.findSome?_eq_none_iff.mp hfound entry
        (List.mem_filter.mpr ⟨List.mem_reverse.mpr hentry, decide_eq_true rfl⟩)
      rw [hrow] at hnone
      cases hnone
    | some found =>
      obtain ⟨other, hother, hfor⟩ := List.exists_of_findSome?_eq_some hfound
      obtain ⟨hin, hsame⟩ := List.mem_filter.mp hother
      have heq := List.inj_on_of_nodup_map hscripts (List.mem_reverse.mp hin) hentry
        (of_decide_eq_true hsame)
      rw [heq, hrow] at hfor
      exact hfor.symm
  have hkept := hretired entry hmem
  rw [hresolved] at hkept
  simpa using hkept

end Refusals

/-! ## What was deleted -/

section Deleted

variable {mapping : LegacyMap} {world moment : CleanupWorld} {module : BuiltinModule}

/-- The rows a module is judged by are those the pass began with. -/
structure SameRows (world moment : CleanupWorld) (module : Id) : Prop where
  published : moment.published = world.published
  projects : moment.projects = world.projects
  scripts : ∀ script, script.module = module →
    (script ∈ moment.scripts ↔ script ∈ world.scripts)

theorem SameRows.delete (h : SameRows world moment module.pk) {other : Id}
    (hne : module.pk ≠ other) : SameRows world (moment.delete other) module.pk := by
  refine ⟨h.published, h.projects, fun script hof => ?_⟩
  rw [← h.scripts script hof]
  simp [CleanupWorld.delete, hof, hne]

/-- What is known of a module when it is deleted. -/
structure DeletedAt (mapping : LegacyMap) (world moment : CleanupWorld) (module : BuiltinModule) :
    Prop where
  target : module ∈ cleanupTargets mapping world
  rows : SameRows world moment module.pk
  passed : refusalFor module (moduleReferences moment module.pk)
    (strandedFor mapping world module.pk) = none

/-- **The loop**: each module is deleted with the rows it was judged by. -/
theorem foldl_retire (targets : List BuiltinModule) (pass : CleanupPass)
    (hsub : ∀ module ∈ targets, module ∈ cleanupTargets mapping world)
    (hnodup : (targets.map BuiltinModule.pk).Nodup)
    (hrows : ∀ module ∈ targets, SameRows world pass.world module.pk)
    (hdeleted : ∀ deleted ∈ pass.deleted, DeletedAt mapping world deleted.1 deleted.2) :
    ∀ deleted ∈ (targets.foldl (CleanupPass.retire (strandedFor mapping world)) pass).deleted,
      DeletedAt mapping world deleted.1 deleted.2 := by
  induction targets generalizing pass with
  | nil => exact hdeleted
  | cons module targets ih =>
    rw [List.map_cons, List.nodup_cons] at hnodup
    have hsub' := fun other hmem => hsub other (List.mem_cons_of_mem _ hmem)
    rw [List.foldl_cons]
    unfold CleanupPass.retire
    cases hrefusal : refusalFor module (moduleReferences pass.world module.pk)
        (strandedFor mapping world module.pk) with
    | some refusal =>
      refine ih _ hsub' hnodup.2 (fun other hmem => ?_) ?_
      · simp only [hrefusal]
        exact hrows other (List.mem_cons_of_mem _ hmem)
      · simp only [hrefusal]
        exact hdeleted
    | none =>
      -- its rows go, those of the modules after it stay
      refine ih _ hsub' hnodup.2 (fun other hmem => ?_) ?_
      · simp only [hrefusal]
        refine (hrows other (List.mem_cons_of_mem _ hmem)).delete fun hsame => ?_
        exact hnodup.1 (hsame ▸ List.mem_map_of_mem hmem)
      · simp only [hrefusal, List.mem_append, List.mem_singleton]
        rintro deleted (hold | rfl)
        · exact hdeleted deleted hold
        · exact ⟨hsub module List.mem_cons_self, hrows module List.mem_cons_self, hrefusal⟩

theorem deletedAt_of_mem (h : (moment, module) ∈ (deleteModules mapping world).deleted) :
    DeletedAt mapping world moment module := by
  refine foldl_retire (cleanupTargets mapping world) _ (fun _ hmem => hmem) ?_ ?_ ?_ _ h
  · exact (List.filter_sublist.map _).nodup world.nodup
  · exact fun _ _ => ⟨rfl, rfl, fun _ _ => Iff.rfl⟩
  · exact fun _ hmem => absurd hmem List.not_mem_nil

variable [Unicode]

/-- A class of a module has a Script in service: under the dotted path of the module's file, in
the project it is mapped to, not retired, and the project serves a revision; or that project is
gone. -/
def ClassReplaced (mapping : LegacyMap) (world : CleanupWorld) (module : Id) (name : PyStr) :
    Prop :=
  ∃ entry ∈ mapping.modules, entry.legacyPk = module ∧
    (entry.projectKey ∉ world.projects.map Prod.fst ∨
      ∃ row ∈ world.published, row.projectKey = entry.projectKey ∧
        sourcePathToDottedName entry.sourcePath = .ok row.modulePath ∧ row.className = name ∧
          row.isRetired = false ∧ ∃ revision, (entry.projectKey, some revision) ∈ world.projects)

/-- The map holds a class of a module. -/
def RecordedClass (mapping : LegacyMap) (module : Id) (name : PyStr) : Prop :=
  ∃ entry ∈ mapping.scripts, entry.legacyModulePk = module ∧ entry.className = name

/-- The project of a deleted module serves a revision, or is gone. -/
theorem serving_of_target (hfrozen : mapping.Frozen)
    (htarget : module ∈ cleanupTargets mapping world) {entry : MappedModule}
    (hentry : entry ∈ mapping.modules) (hof : entry.legacyPk = module.pk) :
    entry.projectKey ∉ world.projects.map Prod.fst ∨
      ∃ revision, (entry.projectKey, some revision) ∈ world.projects := by
  refine or_iff_not_imp_left.mpr fun hpresent => ?_
  obtain ⟨⟨key, active⟩, hproject, hkey⟩ := List.mem_map.mp (not_not.mp hpresent)
  obtain rfl : key = entry.projectKey := hkey
  cases active with
  | some revision => exact ⟨revision, hproject⟩
  | none =>
    -- the project waits, so its modules are no targets
    exfalso
    have hkeys := of_decide_eq_true (List.mem_filter.mp htarget).2
    obtain ⟨other, hother, hsame⟩ := List.mem_map.mp hkeys
    obtain ⟨hmem, hserving⟩ := List.mem_filter.mp hother
    obtain rfl := List.inj_on_of_nodup_map hfrozen.modules hmem hentry (hsame.trans hof.symm)
    refine of_decide_eq_true hserving (List.mem_filter.mpr ⟨?_, ?_⟩)
    · exact List.mem_map.mpr ⟨_, List.mem_filter.mpr ⟨hproject, decide_eq_true rfl⟩, rfl⟩
    · exact decide_eq_true (List.mem_map_of_mem hentry)

/-- **A recorded class of a deleted module is replaced.** -/
theorem DeletedAt.replaced (h : DeletedAt mapping world moment module) (hfrozen : mapping.Frozen)
    {name : PyStr} (hrecorded : RecordedClass mapping module.pk name) :
    ClassReplaced mapping world module.pk name := by
  obtain ⟨entry, hentry, hof, rfl⟩ := hrecorded
  obtain ⟨owner, howner, hpk, hkey, hdotted⟩ := hfrozen.script entry hentry
  rw [hof] at hpk
  refine ⟨owner, howner, hpk, ?_⟩
  rcases serving_of_target hfrozen h.target howner hpk with hgone | hserving
  · exact .inl hgone
  · right
    -- a project that serves is there, so its classes were looked up
    have hpresent : entry.projectKey ∉ absentProjects mapping world := by
      intro habsent
      obtain ⟨hmapped, hmissing⟩ := List.mem_filter.mp habsent
      obtain ⟨revision, hproject⟩ := hserving
      refine of_decide_eq_true hmissing (List.mem_filter.mpr ⟨?_, decide_eq_true hmapped⟩)
      rw [← hkey]
      exact List.mem_map_of_mem hproject
    obtain ⟨-, -, hstranded, -⟩ := refusalFor_eq_none h.passed
    obtain ⟨row, hrow, hretired⟩ :=
      row_of_not_stranded hfrozen.scripts hstranded hentry hof hpresent
    obtain ⟨hin, hproject, hmodule, hclass⟩ := rowFor_eq_some hrow
    exact ⟨row, hin, hproject.trans hkey.symm, hmodule ▸ hdotted, hclass, hretired, hserving⟩

omit [Unicode] in
/-- Nothing names a module when it is deleted. -/
theorem DeletedAt.unreferenced (h : DeletedAt mapping world moment module) :
    (∀ job ∈ moment.jobs, ¬ moment.Names module.pk job) ∧
      ∀ rule ∈ moment.eventRules, ¬ moment.Names module.pk rule := by
  obtain ⟨hmodule, hretired, -, hlive, hrules⟩ := refusalFor_eq_none h.passed
  exact ⟨jobs_unnamed hmodule hretired hlive, rules_unnamed hrules⟩

/-- What replaces a class does not change while the pass runs. -/
theorem replaced_iff_of_sameRows (h : SameRows world moment module.pk) {name : PyStr} :
    ClassReplaced mapping moment module.pk name ↔ ClassReplaced mapping world module.pk name := by
  unfold ClassReplaced
  rw [h.published, h.projects]

/-- **Cleanup**: when a module is deleted no Job and no Event Rule names it or its scripts, and
every class of it that can run is replaced if and only if those are that the map does not hold. -/
theorem deleted_replaced_iff {stepDone ready : Bool} {pass : CleanupPass}
    (hrun : retireLegacyRows (some ⟨stepDone, some mapping, ready⟩) world = .ok (some pass))
    (hfrozen : mapping.Frozen) (hdeleted : (moment, module) ∈ pass.deleted) :
    (∀ job ∈ moment.jobs, ¬ moment.Names module.pk job) ∧
    (∀ rule ∈ moment.eventRules, ¬ moment.Names module.pk rule) ∧
    ((∀ script ∈ moment.scripts, script.module = module.pk → script.isExecutable = true →
        ClassReplaced mapping moment module.pk script.name) ↔
      ∀ script ∈ world.scripts, script.module = module.pk → script.isExecutable = true →
        ¬ RecordedClass mapping module.pk script.name →
          ClassReplaced mapping world module.pk script.name) := by
  have hpass : pass = deleteModules mapping world := by
    unfold retireLegacyRows at hrun
    simp only at hrun
    split_ifs at hrun
    · exact absurd (Except.ok.inj hrun) (by simp)
    · exact (Option.some.inj (Except.ok.inj hrun)).symm
  rw [hpass] at hdeleted
  have hat := deletedAt_of_mem hdeleted
  refine ⟨hat.unreferenced.1, hat.unreferenced.2, fun hall script hscript hof hexecutable _ => ?_,
    fun hnew script hscript hof hexecutable => ?_⟩
  · exact (replaced_iff_of_sameRows hat.rows).mp
      (hall script ((hat.rows.scripts script hof).mpr hscript) hof hexecutable)
  · refine (replaced_iff_of_sameRows hat.rows).mpr ?_
    by_cases hrecorded : RecordedClass mapping module.pk script.name
    · exact hat.replaced hfrozen hrecorded
    · exact hnew script ((hat.rows.scripts script hof).mp hscript) hof hexecutable hrecorded

end Deleted

/-! ## A class that was added after the cutover -/

section Added

/-- One module with one class, as the cutover recorded it. -/
def oneClassMap : LegacyMap :=
  ⟨[⟨1, py "p", py "a.py"⟩], [⟨10, 1, py "A", py "p", py "a", py "A"⟩], []⟩

/-- The rows where the recorded class has its Script; `added` are other classes of the module. -/
def oneClassWorld (added : List BuiltinScript) : CleanupWorld where
  modules := [⟨1, py "a"⟩]
  scripts := ⟨10, 1, py "A", true⟩ :: added
  jobs := []
  eventRules := []
  projects := [(py "p", some 7)]
  published := [⟨py "p", py "a", py "A", false⟩]
  nodup := by decide

/-- A run whose reference steps are all recorded. -/
def readyRun : CleanupRun := ⟨false, some oneClassMap, true⟩

theorem frozen_oneClassMap : @LegacyMap.Frozen asciiUnicode oneClassMap := by
  refine @LegacyMap.Frozen.mk asciiUnicode _ (by decide) (by decide) ?_
  intro entry hentry
  obtain rfl := List.mem_singleton.mp hentry
  exact ⟨_, List.mem_cons_self, rfl, rfl, by decide⟩

/-- **A class that was added after the cutover goes with its module**, though no Script resolves
to it. -/
theorem unrecorded_class_deleted :
    ((retireLegacyRows (some readyRun) (oneClassWorld [⟨11, 1, py "B", true⟩])).toOption.bind
      fun pass => pass.map fun pass => pass.deleted.map Prod.snd) = some [⟨1, py "a"⟩] ∧
    ¬ @ClassReplaced asciiUnicode oneClassMap (oneClassWorld [⟨11, 1, py "B", true⟩]) 1
      (py "B") := by
  refine ⟨by decide, ?_⟩
  rintro ⟨entry, hentry, -, hmissing | ⟨row, hrow, -, -, hname, -⟩⟩
  · obtain rfl := List.mem_singleton.mp hentry
    exact hmissing (by decide)
  · obtain rfl := List.mem_singleton.mp hrow
    exact absurd hname (by decide)

/-- Without it the module is deleted with its class replaced, and no Job or rule names it. -/
theorem deleted_replaced_of_one_class :
    @ClassReplaced asciiUnicode oneClassMap (oneClassWorld []) 1 (py "A") ∧
      (∀ job ∈ (oneClassWorld []).jobs, ¬ (oneClassWorld []).Names 1 job) ∧
        ∀ rule ∈ (oneClassWorld []).eventRules, ¬ (oneClassWorld []).Names 1 rule := by
  have hdeleted : (oneClassWorld [], BuiltinModule.mk 1 (py "a")) ∈
      (deleteModules oneClassMap (oneClassWorld [])).deleted := List.mem_cons_self
  obtain ⟨hjobs, hrules, hboth⟩ := @deleted_replaced_iff oneClassMap (oneClassWorld [])
    (oneClassWorld []) ⟨1, py "a"⟩ asciiUnicode false true _ rfl frozen_oneClassMap hdeleted
  refine ⟨hboth.mpr ?_ ⟨10, 1, py "A", true⟩ List.mem_cons_self rfl rfl, hjobs, hrules⟩
  intro script hscript _ _ hnot
  obtain rfl := List.mem_singleton.mp hscript
  exact absurd ⟨_, List.mem_cons_self, rfl, rfl⟩ hnot

end Added

end NetBoxScripts
