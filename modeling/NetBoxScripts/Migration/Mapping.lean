import NetBoxScripts.Models.ProjectTrees
import NetBoxScripts.Services.Uploads

/-!
# The plan of a migration, and its map

`plan.py` groups the built-in modules into the projects they would become, and `mapping.py`
records the identity each built-in script would get there.

## Main definitions

* `group`: the proposed projects
* `existingProject`: the project that a proposal is about
* `buildMap`: the identities, and the modules that get none

## Main results

* `pk_eq_of_upload`: an uploaded project is proposed for one module
* `mem_scripts_buildMap`: an entry of the map is made from a proposal of its module
-/

namespace NetBoxScripts

/-! ## Built-in modules -/

/-- One built-in Custom Script. -/
structure LegacyScript where
  pk : Id
  name : PyStr
  /-- Its class is still in the file. -/
  isExecutable : Bool
  deriving DecidableEq, Repr

/-- One built-in script module. -/
structure LegacyModule where
  pk : Id
  filePath : PyStr
  pythonName : PyStr
  dataSource : Option Id
  dataPath : PyStr
  scripts : List LegacyScript
  deriving DecidableEq, Repr

/-- `posixpath.dirname(path)` -/
def dirname (path : PyStr) : PyStr :=
  let head := (path.reverse.dropWhile (· ≠ slash)).reverse
  if head.all (· = slash) then head else (head.reverse.dropWhile (· = slash)).reverse

/-! ## Proposals -/

/-- What modules of one proposal share. -/
inductive PlanIdentity
  | upload (pk : Id)
  | dataSource (source : Id) (folder : PyStr)
  deriving DecidableEq, Repr

/-- `_identity(module)` -/
def LegacyModule.identity (module : LegacyModule) : PlanIdentity :=
  match module.dataSource with
  | none => .upload module.pk
  | some source => .dataSource source (dirname module.dataPath)

/-- Modules under the identities they share, in the order these came up. -/
abbrev Buckets := List (PlanIdentity × List LegacyModule)

/-- `buckets.setdefault(identity, []).extend(members)` -/
def Buckets.extend : Buckets → PlanIdentity → List LegacyModule → Buckets
  | [], identity, members => [(identity, members)]
  | bucket :: buckets, identity, members =>
    if bucket.1 = identity then (identity, bucket.2 ++ members) :: buckets
    else bucket :: Buckets.extend buckets identity members

/-- `_depth(folder)` -/
def folderDepth (folder : PyStr) : ℕ := (dataSegments folder).length

/-- `_container(folder, folders)` -/
def container (folder : PyStr) (folders : List PyStr) : PyStr :=
  folders.foldl (fun best candidate =>
    if folderDepth candidate < folderDepth best ∧ dataPathsOverlap candidate folder then candidate
    else best) folder

/-- The folders of one source. -/
def Buckets.folders (buckets : Buckets) (source : Id) : List PyStr :=
  buckets.filterMap fun bucket =>
    match bucket.1 with
    | .upload _ => none
    | .dataSource source' folder => if source' = source then some folder else none

/-- The identity a bucket is merged under. -/
def Buckets.merged (buckets : Buckets) : PlanIdentity → PlanIdentity
  | .upload pk => .upload pk
  | .dataSource source folder => .dataSource source (container folder (buckets.folders source))

/-- `_collapse(buckets)` -/
def Buckets.collapse (buckets : Buckets) : Buckets :=
  buckets.foldl (fun merged bucket => merged.extend (buckets.merged bucket.1) bucket.2) []

/-- `ProposedProject` -/
structure ProposedProject where
  key : PyStr
  name : PyStr
  sourceType : SourceType
  dataSource : Option Id
  dataPath : PyStr
  modulePks : List Id
  deriving DecidableEq, Repr

/-- `django.utils.text.slugify` -/
class Slugify where
  slugify : PyStr → PyStr

export Slugify (slugify)

section Plan

variable [Hashing] [Slugify]

/-- `s.encode()`, of text that a database holds. -/
def encodeUtf8 (text : PyStr) : Bytes := text.flatMap fun c => String.utf8EncodeChar (Char.ofNat c)

/-- `str(part)` of each part of an identity. -/
def PlanIdentity.parts : PlanIdentity → List PyStr
  | .upload pk => [py "upload", decimal pk]
  | .dataSource source folder => [py "data_source", decimal source, folder]

/-- `_key(stem, identity)` -/
def planKey (stem : PyStr) (identity : PlanIdentity) : PyStr :=
  let digest := sha256 (encodeUtf8 (List.intercalate [0] identity.parts))
  let slug := (slugify (stem.map fun c => if c = slash then 45 else c)).take 91
  (if slug = [] then py "project" else slug) ++ py "-" ++ digest.take 8

/-- `_propose(identity, members)` -/
def propose (identity : PlanIdentity) (members : List LegacyModule) : ProposedProject :=
  let modulePks := (members.map LegacyModule.pk).insertionSort (· ≤ ·)
  match identity with
  | .upload _ =>
    let name := (members.head?.map LegacyModule.pythonName).getD []
    ⟨planKey name identity, name, .upload, none, [], modulePks⟩
  | .dataSource source folder =>
    let stem := if folder = [] then py "data-source-root" else folder
    let name := if folder = [] then py "the data source root" else folder
    ⟨planKey stem identity, name, .dataSource, some source, folder, modulePks⟩

/-- The first loop of `group`. -/
def bucketsOf (modules : List LegacyModule) : Buckets :=
  modules.foldl (fun buckets module => buckets.extend module.identity [module]) []

/-- `group(modules)` -/
def group (modules : List LegacyModule) : List ProposedProject :=
  ((bucketsOf modules).collapse.map fun bucket => propose bucket.1 bucket.2).insertionSort
    fun a b => a.key ≤ b.key

/-- `existing_project(project_plan)` -/
def existingProject (projects : Table ProjectRow) (plan : ProposedProject) :
    Option (Id × ProjectRow) :=
  match plan.sourceType with
  | .upload => projects.entries.find? fun project => project.2.key = plan.key
  | .dataSource => projects.entries.find? fun project => project.2.sourceType = .dataSource ∧
      project.2.dataSource = plan.dataSource ∧ project.2.dataPath = plan.dataPath

/-! ## The map -/

/-- Why a module is not mapped. -/
inductive MapError
  | refused (refusal : UploadRefusal)
  | outside
  | unimportable (error : PathNameError)
  deriving DecidableEq, Repr

/-- One module of the map. -/
structure MappedModule where
  legacyPk : Id
  projectKey : PyStr
  sourcePath : PyStr
  deriving DecidableEq, Repr

/-- One script of the map. -/
structure MappedScript where
  legacyPk : Id
  legacyModulePk : Id
  legacyName : PyStr
  projectKey : PyStr
  modulePath : PyStr
  className : PyStr
  deriving DecidableEq, Repr

/-- One module that is not mapped. -/
structure UnmappedModule where
  legacyPk : Id
  path : PyStr
  reason : MapError
  deriving DecidableEq, Repr

/-- What `build_map` returns. -/
structure LegacyMap where
  modules : List MappedModule
  scripts : List MappedScript
  unmapped : List UnmappedModule
  deriving DecidableEq, Repr

variable [Unicode]

/-- `source_path_for(module)` -/
def ProposedProject.sourcePathFor (plan : ProposedProject) (module : LegacyModule) :
    Except UploadRefusal (Option PyStr) :=
  match plan.sourceType with
  | .upload => (uploadedSourcePath module.filePath).map some
  | .dataSource => .ok (dataSourceRelativePath module.dataPath plan.dataPath)

/-- The source path and the module path that are recorded for a module. -/
def ProposedProject.recordedPath (plan : ProposedProject) (module : LegacyModule) :
    Except MapError (PyStr × PyStr) :=
  match plan.sourcePathFor module with
  | .error refusal => .error (.refused refusal)
  | .ok none => .error .outside
  | .ok (some path) =>
    match sourcePathToDottedName path with
    | .error error => .error (.unimportable error)
    | .ok dotted => .ok (path, dotted)

/-- The entries of a module's scripts: those that still publish. -/
def LegacyModule.mappedScripts (module : LegacyModule) (projectKey modulePath : PyStr) :
    List MappedScript :=
  (module.scripts.filter LegacyScript.isExecutable).map fun script =>
    ⟨script.pk, module.pk, script.name, projectKey, modulePath, script.name⟩

/-- The proposal of a module; a later one of the same module would take its place. -/
def proposalOf (proposals : List ProposedProject) (pk : Id) : Option ProposedProject :=
  proposals.reverse.find? fun plan => pk ∈ plan.modulePks

/-- `keys`: for each proposal's key, the key its project has. -/
def projectKeys (projects : Table ProjectRow) (resolveExisting : Bool)
    (proposals : List ProposedProject) : Dict PyStr :=
  Dict.update [] (proposals.map fun plan =>
    let existing := if resolveExisting then existingProject projects plan else none
    (plan.key, (existing.map fun project => project.2.key).getD plan.key))

/-- The map with one more module. -/
def LegacyMap.add (proposals : List ProposedProject) (keys : Dict PyStr) (mapping : LegacyMap)
    (module : LegacyModule) : LegacyMap :=
  match proposalOf proposals module.pk with
  -- every module is in a proposal
  | none => mapping
  | some plan =>
    let key := (keys.get? plan.key).getD plan.key
    match plan.recordedPath module with
    | .error reason =>
      let path := if module.dataPath = [] then module.filePath else module.dataPath
      { mapping with unmapped := mapping.unmapped ++ [⟨module.pk, path, reason⟩] }
    | .ok (sourcePath, modulePath) =>
      { mapping with
        modules := mapping.modules ++ [⟨module.pk, key, sourcePath⟩]
        scripts := mapping.scripts ++ module.mappedScripts key modulePath }

/-- `build_map(modules, resolve_existing=...)` -/
def buildMap (projects : Table ProjectRow) (resolveExisting : Bool)
    (modules : List LegacyModule) : LegacyMap :=
  let proposals := group modules
  modules.foldl (LegacyMap.add proposals (projectKeys projects resolveExisting proposals)) ⟨[], [], []⟩

/-- An entry is of a script that publishes, under the module path that the proposal of its module
records. -/
def MappedScript.MadeFrom (entry : MappedScript) (proposals : List ProposedProject)
    (module : LegacyModule) : Prop :=
  ∃ plan, proposalOf proposals module.pk = some plan ∧
    (∃ script ∈ module.scripts, script.isExecutable = true ∧ entry.legacyPk = script.pk) ∧
    ∃ path, plan.recordedPath module = .ok (path, entry.modulePath)

section Map

variable {proposals : List ProposedProject} {keys : Dict PyStr} {entry : MappedScript}

omit [Hashing] [Slugify] in
/-- What one module adds. -/
theorem mem_scripts_add {mapping : LegacyMap} {module : LegacyModule}
    (h : entry ∈ (mapping.add proposals keys module).scripts) :
    entry ∈ mapping.scripts ∨ entry.MadeFrom proposals module := by
  unfold LegacyMap.add at h
  split at h
  · exact .inl h
  next plan hplan =>
  split at h
  · exact .inl h
  next sourcePath modulePath hrecorded =>
  rcases List.mem_append.mp h with h | h
  · exact .inl h
  · obtain ⟨script, hscript, rfl⟩ := List.mem_map.mp h
    obtain ⟨hscript, hexecutable⟩ := List.mem_filter.mp hscript
    exact .inr ⟨plan, hplan, ⟨script, hscript, hexecutable, rfl⟩, sourcePath, hrecorded⟩

omit [Hashing] [Slugify] in
/-- What the loop adds. -/
theorem mem_scripts_foldl {modules : List LegacyModule} {mapping : LegacyMap}
    (h : entry ∈ (modules.foldl (LegacyMap.add proposals keys) mapping).scripts) :
    entry ∈ mapping.scripts ∨ ∃ module ∈ modules, entry.MadeFrom proposals module := by
  induction modules generalizing mapping with
  | nil => exact .inl h
  | cons module modules ih =>
    rcases ih h with h | ⟨other, hother, hmade⟩
    · rcases mem_scripts_add h with h | hmade
      · exact .inl h
      · exact .inr ⟨module, List.mem_cons_self, hmade⟩
    · exact .inr ⟨other, List.mem_cons_of_mem _ hother, hmade⟩

/-- **Where an entry of the map comes from**. -/
theorem mem_scripts_buildMap {projects : Table ProjectRow} {resolveExisting : Bool}
    {modules : List LegacyModule}
    (h : entry ∈ (buildMap projects resolveExisting modules).scripts) :
    ∃ module ∈ modules, entry.MadeFrom (group modules) module := by
  rcases mem_scripts_foldl h with h | hmade
  · cases h
  · exact hmade

end Map

end Plan

/-! ## Uploaded projects -/

section Upload

/-- A bucket of an uploaded module has no other module. -/
def Buckets.Single (buckets : Buckets) : Prop :=
  ∀ bucket ∈ buckets, ∀ pk, bucket.1 = .upload pk → ∀ module ∈ bucket.2, module.pk = pk

theorem Buckets.Single.extend {buckets : Buckets} (h : buckets.Single) {identity : PlanIdentity}
    {members : List LegacyModule}
    (hmembers : ∀ pk, identity = .upload pk → ∀ module ∈ members, module.pk = pk) :
    (buckets.extend identity members).Single := by
  induction buckets with
  | nil =>
    intro bucket hbucket
    obtain rfl := List.mem_singleton.mp hbucket
    exact hmembers
  | cons first buckets ih =>
    obtain ⟨hfirst, hbuckets⟩ := List.forall_mem_cons.mp h
    rw [Buckets.extend]
    split_ifs with hsame
    · intro bucket hbucket pk hpk module hmodule
      rcases List.mem_cons.mp hbucket with rfl | hbucket
      · rcases List.mem_append.mp hmodule with hmodule | hmodule
        · exact hfirst pk (hsame.trans hpk) module hmodule
        · exact hmembers pk hpk module hmodule
      · exact hbuckets bucket hbucket pk hpk module hmodule
    · exact List.forall_mem_cons.mpr ⟨hfirst, ih hbuckets⟩

theorem single_bucketsOf (modules : List LegacyModule) : (bucketsOf modules).Single := by
  have hloop : ∀ (rest : List LegacyModule) (buckets : Buckets), buckets.Single →
      Buckets.Single (rest.foldl (fun buckets module =>
        buckets.extend module.identity [module]) buckets) := by
    intro rest
    induction rest with
    | nil => exact fun _ h => h
    | cons module rest ih =>
      intro buckets h
      apply ih
      apply h.extend
      intro pk hpk other hother
      obtain rfl := List.mem_singleton.mp hother
      unfold LegacyModule.identity at hpk
      split at hpk
      · cases hpk
        rfl
      · cases hpk
  exact hloop modules [] fun _ h => (List.not_mem_nil h).elim

theorem Buckets.Single.collapse {buckets : Buckets} (h : buckets.Single) :
    buckets.collapse.Single := by
  have hloop : ∀ (rest merged : Buckets), rest.Single → merged.Single →
      Buckets.Single (rest.foldl (fun merged bucket =>
        merged.extend (buckets.merged bucket.1) bucket.2) merged) := by
    intro rest
    induction rest with
    | nil => exact fun _ _ hmerged => hmerged
    | cons bucket rest ih =>
      intro merged hrest hmerged
      obtain ⟨hbucket, hrest⟩ := List.forall_mem_cons.mp hrest
      apply ih _ hrest
      apply hmerged.extend
      intro pk hpk
      unfold Buckets.merged at hpk
      split at hpk
      next pk' heq =>
        cases hpk
        exact hbucket pk heq
      · cases hpk
  exact hloop buckets [] h fun _ h => (List.not_mem_nil h).elim

/-- **An uploaded project is proposed for one module**. -/
theorem pk_eq_of_upload [Hashing] [Slugify] {modules : List LegacyModule} {plan : ProposedProject}
    (hplan : plan ∈ group modules) (hupload : plan.sourceType = .upload) {pk pk' : Id}
    (hpk : pk ∈ plan.modulePks) (hpk' : pk' ∈ plan.modulePks) : pk = pk' := by
  obtain ⟨⟨identity, members⟩, hbucket, rfl⟩ :=
    List.mem_map.mp ((List.mem_insertionSort _).mp hplan)
  have hsingle := (single_bucketsOf modules).collapse _ hbucket
  cases identity with
  | dataSource source folder => cases hupload
  | upload module =>
    have hmember : ∀ pk ∈ (propose (.upload module) members).modulePks, pk = module := by
      intro pk hpk
      obtain ⟨other, hother, rfl⟩ := List.mem_map.mp ((List.mem_insertionSort _).mp hpk)
      exact hsingle module rfl other hother
    exact (hmember pk hpk).trans (hmember pk' hpk').symm

end Upload

end NetBoxScripts
