import NetBoxScripts.Python.Text

/-!
# Source paths

The path policy every stored file obeys (`storage/paths.py`): a supplied path is put into NFC,
checked as a whole, cut at `/`, and the segments other than `''` and `'.'` are joined again.
The checks for whitespace and for a drive look at the whole string before that cut, so they
judge a different string than the one returned; `normalizeSourcePath_canonical_iff` says for
which inputs the two agree.

## Main definitions

* `normalizeSourcePath`: the canonical form of a source path, or the refusal
* `caseInsensitiveCollisions`: the paths that collide when letter case is ignored
* `StableSpelling`: the first segment kept starts neither with whitespace nor with a drive, and
  the last one does not end with whitespace

## Main results

* `normalizeSourcePath_eq_ok_iff`: what an accepted path satisfies
* `normalizeSourcePath_canonical_iff`: a canonical path is accepted again, unchanged, exactly
  when the path it came from is a `StableSpelling`
-/

namespace NetBoxScripts

/-- `MAX_PATH_COMPONENT_BYTES` -/
def maxPathComponentBytes : ℕ := 255

/-- `MAX_PATH_BYTES` -/
def maxPathBytes : ℕ := 768

/-- `MAX_PATH_DEPTH` -/
def maxPathDepth : ℕ := 64

/-- The fixed rejection codes of the storage layer. -/
inductive RejectionCode
  | pathTraversal | absolutePath | compiledArtifact
  | pathComponentTooLong | pathTooLong | pathTooDeep | escapesRoot
  | duplicatePath | fileTooLarge | pathConflict | caseFoldConflict
  | tooManyFiles | projectTooLarge
  deriving DecidableEq, Repr

/-- `UnsafePathError`: the original input, the code and the message. -/
structure UnsafePathError where
  path : PyStr
  code : RejectionCode
  message : PyStr
  deriving DecidableEq, Repr

/-- How `normalize_source_path` raises: by its own refusal, or because a surrogate has no UTF-8
form. -/
inductive PathFailure
  | unsafePath (error : UnsafePathError)
  | unicodeEncodeError
  deriving DecidableEq, Repr

/-- `raise UnsafePathError(path=path, code=code, message=message)` -/
def refuse {α : Type} (path : PyStr) (code : RejectionCode) (message : PyStr) :
    Except PathFailure α :=
  .error (.unsafePath ⟨path, code, message⟩)

/-- `ord(char) < 32 or char == '\x7f'` -/
def isControl (c : ℕ) : Bool := c < 32 || c == 0x7F

/-- The segments of a normalized path that survive: `''` and `'.'` are dropped. -/
def realSegments (normalized : PyStr) : List PyStr :=
  (split normalized).filter fun segment => segment ≠ [] ∧ segment ≠ py "."

section Policy

/-- The loop over the segments' encoded lengths. -/
def checkComponents (path : PyStr) : List PyStr → Except PathFailure Unit
  | [] => .ok ()
  | segment :: segments =>
    match utf8Length segment with
    | none => .error .unicodeEncodeError
    | some length =>
      if length > maxPathComponentBytes then
        refuse path .pathComponentTooLong (py "\"" ++ segment.take 40 ++ py "...\" is " ++
          decimal length ++ py " bytes, over the " ++ decimal maxPathComponentBytes ++
          py " byte limit for one path component.")
      else checkComponents path segments

/-- The last part of `normalize_source_path`: the canonical form within the length bounds. -/
def withinBounds (path : PyStr) (segments : List PyStr) : Except PathFailure PyStr :=
  match checkComponents path segments with
  | .error failure => .error failure
  | .ok () =>
    match utf8Length (join segments) with
    | none => .error .unicodeEncodeError
    | some total =>
      if total > maxPathBytes then
        refuse path .pathTooLong (py "The path is " ++ decimal total ++ py " bytes, over the " ++
          decimal maxPathBytes ++ py " byte limit.")
      else if segments.length > maxPathDepth then
        refuse path .pathTooDeep (py "The path is " ++ decimal segments.length ++
          py " levels deep, over the " ++ decimal maxPathDepth ++ py " level limit.")
      else .ok (join segments)

variable [Unicode]

/-- A compiled suffix on the last segment, or a bytecode directory anywhere, in any letter
case. -/
def isCompiledArtifact (segments : List PyStr) : Bool :=
  let folded := segments.map lower
  folded.getLast?.any (fun last => (py ".pyc").isSuffixOf last || (py ".pyo").isSuffixOf last) ||
    folded.contains (py "__pycache__")

/-- `normalize_source_path(path)` -/
def normalizeSourcePath (path : PyStr) : Except PathFailure PyStr :=
  let normalized := nfc path
  let segments := realSegments normalized
  if normalized ≠ strip normalized then
    refuse path .pathTraversal
      (py "Leading or trailing whitespace is not allowed in source paths.")
  else if backslash ∈ normalized then
    refuse path .pathTraversal
      (py "Backslashes are not allowed in source paths. Use forward slashes.")
  else if normalized.any isControl then
    refuse path .pathTraversal (py "Control characters are not allowed in source paths.")
  else if normalized.head? = some slash ∨ windowsDrive normalized ≠ [] then
    refuse path .absolutePath (py "Absolute and drive-qualified source paths are not allowed.")
  else if normalized.getLast? = some slash then
    refuse path .pathTraversal (py "Source paths must reference a file, not a directory.")
  else if py ".." ∈ segments then
    refuse path .pathTraversal (py "Path traversal segments (\"..\") are not allowed.")
  else if segments = [] then
    refuse path .pathTraversal (py "Source paths must reference a file within the project.")
  else if isCompiledArtifact segments then
    refuse path .compiledArtifact
      (py "Compiled Python files and \"__pycache__\" directories are not stored as project source.")
  else withinBounds path segments

/-! ## Accepted paths -/

/-- The checks on the whole normalized string, made before it is cut into segments. -/
structure WholeChecks (normalized : PyStr) : Prop where
  strip_eq : strip normalized = normalized
  no_backslash : backslash ∉ normalized
  no_control : normalized.any isControl = false
  relative : normalized.head? ≠ some slash
  no_drive : windowsDrive normalized = []
  file : normalized.getLast? ≠ some slash

/-- The checks on the segments that survive. -/
structure SegmentChecks (segments : List PyStr) : Prop where
  no_traversal : py ".." ∉ segments
  nonempty : segments ≠ []
  source : isCompiledArtifact segments = false
  components : ∀ segment ∈ segments, ∃ n ≤ maxPathComponentBytes, utf8Length segment = some n
  total : ∃ n ≤ maxPathBytes, utf8Length (join segments) = some n
  depth : segments.length ≤ maxPathDepth

omit [Unicode] in
theorem checkComponents_eq_ok_iff (path : PyStr) (segments : List PyStr) :
    checkComponents path segments = .ok () ↔
      ∀ segment ∈ segments, ∃ n ≤ maxPathComponentBytes, utf8Length segment = some n := by
  induction segments with
  | nil => simp [checkComponents]
  | cons segment segments ih =>
    rw [checkComponents, List.forall_mem_cons]
    cases utf8Length segment with
    | none => simp
    | some n =>
      by_cases hn : n > maxPathComponentBytes
      · simp [hn, refuse, Nat.not_le.mpr hn]
      · simp [hn, ih, Nat.not_lt.mp hn]

omit [Unicode] in
theorem withinBounds_eq_ok_iff (path canonical : PyStr) (segments : List PyStr) :
    withinBounds path segments = .ok canonical ↔
      (∀ segment ∈ segments, ∃ n ≤ maxPathComponentBytes, utf8Length segment = some n) ∧
        (∃ n ≤ maxPathBytes, utf8Length (join segments) = some n) ∧
        segments.length ≤ maxPathDepth ∧ canonical = join segments := by
  rw [withinBounds, ← checkComponents_eq_ok_iff path]
  cases checkComponents path segments with
  | error failure => simp
  | ok u =>
    cases utf8Length (join segments) with
    | none => simp
    | some total =>
      by_cases ht : total > maxPathBytes
      · simp [ht, refuse, Nat.not_le.mpr ht]
      · by_cases hd : segments.length > maxPathDepth
        · simp [ht, hd, refuse, Nat.not_le.mpr hd]
        · simp [ht, hd, Nat.not_lt.mp ht, Nat.not_lt.mp hd, eq_comm]

/-- **An accepted path** passed the checks on the whole string and on its segments, and is the
join of those segments. -/
theorem normalizeSourcePath_eq_ok_iff (path canonical : PyStr) :
    normalizeSourcePath path = .ok canonical ↔
      WholeChecks (nfc path) ∧ SegmentChecks (realSegments (nfc path)) ∧
        canonical = join (realSegments (nfc path)) := by
  unfold normalizeSourcePath
  constructor
  · intro h
    simp only [refuse] at h
    split_ifs at h with h₁ h₂ h₃ h₄ h₅ h₆ h₇ h₈
    obtain ⟨hc, ht, hd, rfl⟩ := (withinBounds_eq_ok_iff ..).mp h
    obtain ⟨hr, hdr⟩ := not_or.mp h₄
    exact ⟨⟨(not_not.mp h₁).symm, h₂, by simpa using h₃, hr, not_not.mp hdr, h₅⟩,
      ⟨h₆, h₇, by simpa using h₈, hc, ht, hd⟩, rfl⟩
  · rintro ⟨hw, hs, rfl⟩
    rw [if_neg (not_not.mpr hw.strip_eq.symm), if_neg hw.no_backslash,
      if_neg (by simp [hw.no_control]), if_neg (not_or.mpr ⟨hw.relative, not_not.mpr hw.no_drive⟩),
      if_neg hw.file, if_neg hs.no_traversal, if_neg hs.nonempty, if_neg (by simp [hs.source])]
    exact (withinBounds_eq_ok_iff ..).mpr ⟨hs.components, hs.total, hs.depth, rfl⟩

/-! ## Canonical paths -/

omit [Unicode] in
theorem mem_realSegments {normalized segment : PyStr} :
    segment ∈ realSegments normalized ↔
      segment ∈ split normalized ∧ segment ≠ [] ∧ segment ≠ py "." := by
  simp [realSegments]

omit [Unicode] in
/-- Cutting a canonical path again finds the segments it was joined from. -/
theorem split_join_realSegments {normalized : PyStr} (h : realSegments normalized ≠ []) :
    split (join (realSegments normalized)) = realSegments normalized :=
  split_join (fun _ hs => slash_notMem_of_mem_split (mem_realSegments.mp hs).1) h

omit [Unicode] in
theorem realSegments_join {normalized : PyStr} (h : realSegments normalized ≠ []) :
    realSegments (join (realSegments normalized)) = realSegments normalized := by
  conv_lhs => rw [realSegments, split_join_realSegments h]
  exact List.filter_eq_self.mpr fun s hs => by simpa using (mem_realSegments.mp hs).2

/-- A canonical path is in NFC: its segments are segments of a normalized string. -/
theorem nfc_join_realSegments {path : PyStr} (h : realSegments (nfc path) ≠ []) :
    nfc (join (realSegments (nfc path))) = join (realSegments (nfc path)) := by
  have hsegment : ∀ s ∈ realSegments (nfc path), nfc s = s := by
    intro s hs
    have hm := (mem_realSegments.mp hs).1
    rw [Unicode.split_nfc, List.mem_map] at hm
    obtain ⟨t, -, rfl⟩ := hm
    exact Unicode.nfc_nfc t
  calc nfc (join (realSegments (nfc path)))
      = join (split (nfc (join (realSegments (nfc path))))) := (join_split _).symm
    _ = join ((realSegments (nfc path)).map nfc) := by
        rw [Unicode.split_nfc, split_join_realSegments h]
    _ = join (realSegments (nfc path)) := by
        rw [List.map_congr_left hsegment, List.map_id']

/-- The paths whose canonical form passes the checks it came from: of the segments kept, the
first starts neither with whitespace nor with a drive, and the last does not end with
whitespace. -/
structure StableSpelling (path : PyStr) : Prop where
  first_no_space : ∀ first ∈ (realSegments (nfc path)).head?, ∀ c ∈ first.head?, isSpace c = false
  first_no_drive : ∀ first ∈ (realSegments (nfc path)).head?, hasDriveLetter first = false
  last_no_space : ∀ last ∈ (realSegments (nfc path)).getLast?, ∀ c ∈ last.getLast?,
    isSpace c = false

omit [Unicode] in
theorem nil_notMem_realSegments (normalized : PyStr) : [] ∉ realSegments normalized :=
  fun h => (mem_realSegments.mp h).2.1 rfl

omit [Unicode] in
/-- A character of a canonical path is a separator or comes from the normalized string. -/
theorem mem_join_realSegments {normalized : PyStr} {c : ℕ}
    (h : c ∈ join (realSegments normalized)) : c = slash ∨ c ∈ normalized := by
  rcases mem_join h with h | ⟨s, hs, hc⟩
  · exact .inl h
  · exact .inr (mem_of_mem_split (mem_realSegments.mp hs).1 hc)

omit [Unicode] in
/-- A canonical path neither starts nor ends with a separator. -/
theorem slash_notMem_ends (normalized : PyStr) :
    (join (realSegments normalized)).head? ≠ some slash ∧
      (join (realSegments normalized)).getLast? ≠ some slash := by
  have hslash : ∀ s ∈ realSegments normalized, slash ∉ s := fun s hs =>
    slash_notMem_of_mem_split (mem_realSegments.mp hs).1
  rw [head?_join (nil_notMem_realSegments _), getLast?_join (nil_notMem_realSegments _)]
  constructor
  · intro h
    obtain ⟨s, hs, hc⟩ := Option.bind_eq_some_iff.mp h
    exact hslash s (List.mem_of_head? hs) (List.mem_of_head? hc)
  · intro h
    obtain ⟨s, hs, hc⟩ := Option.bind_eq_some_iff.mp h
    exact hslash s (List.mem_of_getLast? hs) (List.mem_of_getLast? hc)

omit [Unicode] in
/-- The drive letter of a canonical path is the one of its first segment. -/
theorem hasDriveLetter_join_realSegments (normalized : PyStr) :
    hasDriveLetter (join (realSegments normalized)) =
      (realSegments normalized).head?.any hasDriveLetter := by
  cases hs : realSegments normalized with
  | nil => rfl
  | cons first rest =>
    rcases eq_or_ne rest [] with rfl | hne
    · simp
    · rw [join_cons hne]
      match first, nil_notMem_realSegments normalized with
      | [], h => exact absurd (hs ▸ List.mem_cons_self) h
      | [a], _ => simp [hasDriveLetter, slash, colon]
      | a :: b :: first, _ => simp [hasDriveLetter]

/-- The checks on the whole string hold of a canonical path exactly for a stable spelling. -/
theorem wholeChecks_join_iff {path : PyStr} (hw : WholeChecks (nfc path)) :
    WholeChecks (join (realSegments (nfc path))) ↔ StableSpelling path := by
  obtain ⟨hhead, hlast⟩ := slash_notMem_ends (nfc path)
  have hb : backslash ∉ join (realSegments (nfc path)) := fun h =>
    (mem_join_realSegments h).elim (by decide) hw.no_backslash
  have hcontrol : (join (realSegments (nfc path))).any isControl = false := by
    refine List.any_eq_false.mpr fun c hc => ?_
    rcases mem_join_realSegments hc with rfl | hc
    · decide
    · exact List.any_eq_false.mp hw.no_control c hc
  have hdrive : windowsDrive (join (realSegments (nfc path))) = [] ↔
      hasDriveLetter (join (realSegments (nfc path))) = false := by
    have hslash : slash ∉ (join (realSegments (nfc path))).take 1 := by
      rw [List.take_one, Option.mem_toList]
      exact hhead
    rw [← Bool.not_eq_true, ← windowsDrive_of_relative hslash fun h => hb (List.mem_of_mem_take h)]
    simp
  have hstrip := strip_eq_self_iff (join (realSegments (nfc path)))
  rw [head?_join (nil_notMem_realSegments _), getLast?_join (nil_notMem_realSegments _)] at hstrip
  rw [hasDriveLetter_join_realSegments] at hdrive
  constructor
  · rintro ⟨h₁, -, -, -, h₅, -⟩
    obtain ⟨hfirst, hend⟩ := hstrip.mp h₁
    refine ⟨fun s hs c hc => hfirst c ?_, fun s hs => ?_, fun s hs c hc => hend c ?_⟩
    · simpa [Option.mem_def.mp hs] using hc
    · have := hdrive.mp h₅
      simpa [Option.mem_def.mp hs] using this
    · simpa [Option.mem_def.mp hs] using hc
  · rintro ⟨h₁, h₂, h₃⟩
    refine ⟨hstrip.mpr ⟨fun c hc => ?_, fun c hc => ?_⟩, hb, hcontrol, hhead, hdrive.mpr ?_, hlast⟩
    · obtain ⟨s, hs, hc⟩ := Option.bind_eq_some_iff.mp (Option.mem_def.mp hc)
      exact h₁ s hs c hc
    · obtain ⟨s, hs, hc⟩ := Option.bind_eq_some_iff.mp (Option.mem_def.mp hc)
      exact h₃ s hs c hc
    · cases hs : (realSegments (nfc path)).head? with
      | none => rfl
      | some first => exact h₂ first (by simp [hs])

/-- **A canonical path is a fixed point** of `normalize_source_path` exactly when the path it
came from is a stable spelling. -/
theorem normalizeSourcePath_canonical_iff {path canonical : PyStr}
    (h : normalizeSourcePath path = .ok canonical) :
    normalizeSourcePath canonical = .ok canonical ↔ StableSpelling path := by
  obtain ⟨hw, hs, rfl⟩ := (normalizeSourcePath_eq_ok_iff ..).mp h
  rw [normalizeSourcePath_eq_ok_iff, nfc_join_realSegments hs.nonempty,
    realSegments_join hs.nonempty, wholeChecks_join_iff hw]
  exact ⟨fun h => h.1, fun h => ⟨h, hs, rfl⟩⟩

end Policy

/-! ## Case-insensitive collisions -/

section Collisions

variable [Unicode]

/-- `{node.lower(): node for node in nodes}`: a later node of one form replaces the earlier. -/
def caseInsensitiveNodes (path : PyStr) : List (PyStr × PyStr) :=
  let segments := split path
  let nodes := (List.range segments.length).map fun index => join (segments.take (index + 1))
  nodes.foldl (fun byForm node =>
    if (byForm.map Prod.fst).contains (lower node) then
      byForm.map fun entry => if entry.1 = lower node then (lower node, node) else entry
    else byForm ++ [(lower node, node)]) []

/-- The names recorded for one form over all paths, `names_by_form[form]`. -/
def namesByForm (paths : List PyStr) (form : PyStr) : List PyStr :=
  ((paths.flatMap caseInsensitiveNodes).filter fun entry => entry.1 = form).map Prod.snd

/-- Whether more than one name shares the form. -/
def isCollided (paths : List PyStr) (form : PyStr) : Bool :=
  (namesByForm paths form).any fun name => (namesByForm paths form).any fun other => name ≠ other

/-- The first node of one path that collides, and the least other name of its form. -/
def collisionOf (paths : List PyStr) (path : PyStr) : Option (PyStr × PyStr) :=
  ((caseInsensitiveNodes path).find? fun entry => isCollided paths entry.1).map fun entry =>
    (entry.2, (((namesByForm paths entry.1).filter (· ≠ entry.2)).insertionSort (· ≤ ·)).headD [])

/-- `case_insensitive_collisions(paths)`: each path that touches a collision, with the two names
that collide. -/
def caseInsensitiveCollisions (paths : List PyStr) : List (PyStr × (PyStr × PyStr)) :=
  let sorted := paths.insertionSort (· ≤ ·)
  sorted.filterMap fun path => (collisionOf sorted path).map fun pair => (path, pair)

end Collisions

end NetBoxScripts
