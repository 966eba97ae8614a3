import NetBoxScripts.Models.DataPaths
import NetBoxScripts.Python.Dict
import NetBoxScripts.Storage.TreeNodes

/-!
# The files of a project on a data source

Three places decide which files of a data source belong to a project: `data_paths_overlap`
compares directories, `data_source_relative_path` (`utils.py`) takes a file's first segments, and
`_data_source_tree` (`ingestion.py`) first asks the database for a text prefix.

## Main definitions

* `dataSourceRelativePath`: the path of a data file inside a project's directory
* `ownFiles`, `dataSourceTree`: the rows that are read, and the tree they become

## Main results

* `dataSourceRelativePath_eq_some`: a claimed file is the directory, a slash and the rest
* `claims_agree`: overlap is a shared file, and the query loses no claimed one
-/

namespace NetBoxScripts

/-- `data_source_relative_path(path, data_path)` -/
def dataSourceRelativePath (path dataPath : PyStr) : Option PyStr :=
  let directory := dataSegments dataPath
  let segments := split path
  if segments.take directory.length ≠ directory ∨ segments.length = directory.length then none
  else some (join (segments.drop directory.length))

/-- A row of `datafiles`: its path and its bytes. -/
abbrev DataFile := PyStr × Bytes

/-- `datafiles.filter(path__startswith=f'{project.data_path}/')` -/
def ownFiles (files : List DataFile) (dataPath : PyStr) : List DataFile :=
  files.filter fun file => (dataPath ++ [slash]).isPrefixOf file.1

/-- The body of the loop in `_data_source_tree`. -/
def addDataFile [Unicode] (dataPath : PyStr) (tree : Dict Bytes) (file : DataFile) :
    Except PathFailure (Dict Bytes) :=
  match dataSourceRelativePath file.1 dataPath with
  | none => .ok tree
  | some relative =>
    match normalizeSourcePath relative with
    -- only a compiled artifact is dropped, staging records every other refusal
    | .error (.unsafePath error) =>
      .ok (if error.code = .compiledArtifact then tree else tree.set relative file.2)
    | .error .unicodeEncodeError => .error .unicodeEncodeError
    | .ok _ => .ok (tree.set relative file.2)

/-- `_data_source_tree(project)`, of the project's data path. -/
def dataSourceTree [Unicode] (files : List DataFile) (dataPath : PyStr) :
    Except PathFailure (Dict Bytes) :=
  (ownFiles files dataPath).foldlM (addDataFile dataPath) []

/-! ## Claimed files -/

section Claimed

variable {path path' dataPath relative : PyStr}

theorem slash_notMem_of_mem_dataSegments {segment : PyStr} (h : segment ∈ dataSegments dataPath) :
    slash ∉ segment := by
  unfold dataSegments at h
  split_ifs at h
  · cases h
  · exact slash_notMem_of_mem_split h

/-- A file is claimed where the directory's segments start its own, and some are left. -/
theorem dataSourceRelativePath_eq_some :
    dataSourceRelativePath path dataPath = some relative ↔
      ∃ rest ≠ [], split path = dataSegments dataPath ++ rest ∧ relative = join rest := by
  unfold dataSourceRelativePath
  dsimp only
  constructor
  · intro h
    split_ifs at h with hcond
    rw [not_or, not_not] at hcond
    obtain ⟨htake, hlength⟩ := hcond
    refine ⟨(split path).drop (dataSegments dataPath).length, ?_, ?_,
      (Option.some.inj h).symm⟩
    · rw [ne_eq, List.drop_eq_nil_iff]
      have hle := congrArg List.length htake
      rw [List.length_take] at hle
      omega
    · conv_lhs => rw [← List.take_append_drop (dataSegments dataPath).length (split path), htake]
  · rintro ⟨rest, hrest, hsplit, rfl⟩
    rw [hsplit, List.take_left, List.drop_left, if_neg]
    rw [not_or, not_not, List.length_append]
    have hpos := List.length_pos_of_ne_nil hrest
    exact ⟨rfl, by omega⟩

/-- **A claimed file is the directory, a slash and its relative path**; in the root it is the
relative path. -/
theorem rejoin_dataSourceRelativePath (h : dataSourceRelativePath path dataPath = some relative) :
    path = if dataPath = [] then relative else dataPath ++ slash :: relative := by
  obtain ⟨rest, hrest, hsplit, rfl⟩ := dataSourceRelativePath_eq_some.mp h
  rw [← join_split path, hsplit, dataSegments]
  split_ifs with hnil
  · rfl
  · rw [join_append (split_ne_nil dataPath) hrest, join_split]

/-- Two claimed files of one relative path are one file. -/
theorem dataSourceRelativePath_inj (h : dataSourceRelativePath path dataPath = some relative)
    (h' : dataSourceRelativePath path' dataPath = some relative) : path = path' :=
  (rejoin_dataSourceRelativePath h).trans (rejoin_dataSourceRelativePath h').symm

/-- What the directory claims, the query has read. -/
theorem isPrefixOf_of_claimed (hne : dataPath ≠ [])
    (h : dataSourceRelativePath path dataPath = some relative) :
    (dataPath ++ [slash]).isPrefixOf path = true := by
  have hpath := rejoin_dataSourceRelativePath h
  rw [if_neg hne] at hpath
  rw [List.isPrefixOf_iff_prefix]
  exact ⟨relative, by rw [hpath, List.append_assoc, List.singleton_append]⟩

/-- A file below two directories makes one of them an ancestor of the other. -/
theorem overlap_of_claimed {other : PyStr}
    (h : dataSourceRelativePath path dataPath = some relative)
    (h' : (dataSourceRelativePath path other).isSome = true) :
    dataPathsOverlap dataPath other = true := by
  obtain ⟨relative', h'⟩ := Option.isSome_iff_exists.mp h'
  obtain ⟨rest, -, hsplit, -⟩ := dataSourceRelativePath_eq_some.mp h
  obtain ⟨rest', -, hsplit', -⟩ := dataSourceRelativePath_eq_some.mp h'
  rw [dataPathsOverlap_iff]
  exact List.prefix_or_prefix_of_prefix ⟨rest, hsplit.symm⟩ ⟨rest', hsplit'.symm⟩

/-- Of two directories, one an ancestor of the other, both claim a file of the lower one. -/
theorem claimed_of_above_segments {other : PyStr}
    (h : dataSegments dataPath <+: dataSegments other) :
    ∃ path, (dataSourceRelativePath path dataPath).isSome = true ∧
      (dataSourceRelativePath path other).isSome = true := by
  have hsplit : split (join (dataSegments other ++ [[]])) = dataSegments other ++ [[]] := by
    refine split_join (fun segment hsegment => ?_) (by simp)
    rcases List.mem_append.mp hsegment with hmem | hmem
    · exact slash_notMem_of_mem_dataSegments hmem
    · rw [List.mem_singleton.mp hmem]
      exact List.not_mem_nil
  obtain ⟨below, hbelow⟩ := h
  refine ⟨join (dataSegments other ++ [[]]), ?_, ?_⟩
  · rw [dataSourceRelativePath_eq_some.mpr ⟨below ++ [[]], by simp, ?_, rfl⟩]
    · rfl
    · rw [hsplit, ← hbelow, List.append_assoc]
  · rw [dataSourceRelativePath_eq_some.mpr ⟨[[]], by simp, hsplit, rfl⟩]
    rfl

/-- **Two directories overlap** where they claim a common file. -/
theorem dataPathsOverlap_eq_false_iff {other : PyStr} :
    dataPathsOverlap dataPath other = false ↔ ¬ ∃ path,
      (dataSourceRelativePath path dataPath).isSome = true ∧
        (dataSourceRelativePath path other).isSome = true := by
  rw [← Bool.not_eq_true, not_iff_not, dataPathsOverlap_iff]
  constructor
  · rintro (hpre | hpre)
    · exact claimed_of_above_segments hpre
    · obtain ⟨path, hother, hclaimed⟩ := claimed_of_above_segments hpre
      exact ⟨path, hclaimed, hother⟩
  · rintro ⟨path, hclaimed, hother⟩
    obtain ⟨relative, hrelative⟩ := Option.isSome_iff_exists.mp hclaimed
    exact (dataPathsOverlap_iff _ _).mp (overlap_of_claimed hrelative hother)

end Claimed

/-! ## The tree -/

section Tree

variable [Unicode]

/-- A file that is not claimed leaves the tree. -/
theorem addDataFile_of_outside {dataPath : PyStr} {file : DataFile} {tree : Dict Bytes}
    (h : dataSourceRelativePath file.1 dataPath = none) :
    addDataFile dataPath tree file = .ok tree := by
  rw [addDataFile, h]

/-- **The query is transparent**: the tree is that of all files of the source. -/
theorem dataSourceTree_eq_foldlM {dataPath : PyStr} (hne : dataPath ≠ []) (files : List DataFile) :
    dataSourceTree files dataPath = files.foldlM (addDataFile dataPath) [] := by
  have hloop : ∀ tree, (ownFiles files dataPath).foldlM (addDataFile dataPath) tree =
      files.foldlM (addDataFile dataPath) tree := by
    -- on the files: one that the query leaves out is not claimed either
    induction files with
    | nil => exact fun _ => rfl
    | cons file files ih =>
      intro tree
      unfold ownFiles at ih ⊢
      rw [List.filter_cons]
      split_ifs with hread
      · rw [List.foldlM_cons, List.foldlM_cons]
        exact bind_congr fun tree' => ih tree'
      · have houtside : dataSourceRelativePath file.1 dataPath = none := by
          by_contra hclaimed
          obtain ⟨relative, hrelative⟩ := Option.ne_none_iff_exists'.mp hclaimed
          exact hread (isPrefixOf_of_claimed hne hrelative)
        rw [List.foldlM_cons, addDataFile_of_outside houtside]
        exact ih tree
  exact hloop []

end Tree

/-- **The three places agree**. Two directories do not overlap exactly where no file is claimed by
both; a claimed file is found again from its relative path; and below a directory that is not the
root the query drops no file that is claimed, so the tree is that of all files. -/
theorem claims_agree [Unicode] :
    (∀ a b, dataPathsOverlap a b = false ↔ ¬ ∃ path,
      (dataSourceRelativePath path a).isSome = true ∧
        (dataSourceRelativePath path b).isSome = true) ∧
    (∀ dataPath path path' relative, dataSourceRelativePath path dataPath = some relative →
      dataSourceRelativePath path' dataPath = some relative → path = path') ∧
    (∀ dataPath path relative, dataSourceRelativePath path dataPath = some relative →
      path = if dataPath = [] then relative else dataPath ++ slash :: relative) ∧
    ∀ dataPath, dataPath ≠ [] → ∀ files : List DataFile,
      (∀ file ∈ files, (dataSourceRelativePath file.1 dataPath).isSome = true →
        file ∈ ownFiles files dataPath) ∧
      dataSourceTree files dataPath = files.foldlM (addDataFile dataPath) [] := by
  refine ⟨fun a b => dataPathsOverlap_eq_false_iff, fun _ _ _ _ => dataSourceRelativePath_inj,
    fun _ _ _ => rejoin_dataSourceRelativePath, fun dataPath hne files =>
      ⟨fun file hfile hclaimed => ?_, dataSourceTree_eq_foldlM hne files⟩⟩
  obtain ⟨relative, hrelative⟩ := Option.isSome_iff_exists.mp hclaimed
  exact List.mem_filter.mpr ⟨hfile, isPrefixOf_of_claimed hne hrelative⟩

/-- A file below `automation/netbox` is read for it. -/
theorem claims_agree_automation :
    (py "automation/netbox/a.py", []) ∈
      ownFiles [(py "automation/netbox/a.py", [])] (py "automation/netbox") :=
  ((@claims_agree asciiUnicode).2.2.2 (py "automation/netbox") (by decide) _).1 _
    (List.mem_singleton_self _) (by decide)

/-- The root's directory claims `a.py` as `a.py`: a slash before it makes another path, and the
query for `/` does not read it. -/
theorem root_claims_unread :
    normalizeDataPath [] = .ok [] ∧
      dataSourceRelativePath (py "a.py") [] = some (py "a.py") ∧
      [] ++ slash :: py "a.py" ≠ py "a.py" ∧
      (py "a.py", []) ∉ ownFiles [(py "a.py", [])] [] := by
  decide

end NetBoxScripts
