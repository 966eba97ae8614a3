import NetBoxScripts.Models.Projects
import NetBoxScripts.Storage.Paths

/-!
# Canonical data paths

What `normalize_data_path` (`validators.py`) makes of a value, when that is a fixed point of it,
and what follows for a stored path that is submitted again.

## Main definitions

* `StableDataPath`: values whose canonical form has no whitespace at its ends
* `SettledDataPath`: a stored path that survives being submitted again

## Main results

* `normalizeDataPath_eq_ok_iff`: what an accepted value has passed
* `normalizeDataPath_settled_iff`: the canonical form is settled exactly for a stable value
-/

namespace NetBoxScripts

/-! ## Accepted values -/

/-- The checks of a trimmed value that is not empty. -/
structure DataPathChecks (trimmed : PyStr) : Prop where
  nonempty : trimmed ≠ []
  no_backslash : backslash ∉ trimmed
  no_control : ∀ c ∈ trimmed, ¬ (c < 32 ∨ c = 127)
  relative : trimmed.head? ≠ some slash
  no_traversal : py ".." ∉ realSegments trimmed

theorem normalizeDataPath_eq_ok_iff {value path : PyStr} : normalizeDataPath value = .ok path ↔
    (strip value = [] ∧ path = []) ∨
      (DataPathChecks (strip value) ∧ path = join (realSegments (strip value))) := by
  unfold normalizeDataPath
  dsimp only
  split_ifs with hnil hbackslash hcontrol hhead htraversal
  · simp only [Except.ok.injEq, hnil, true_and]
    constructor
    · exact fun h => .inl h.symm
    · rintro (h | ⟨hchecks, -⟩)
      · exact h.symm
      · exact absurd rfl hchecks.nonempty
  · simp only [hnil, false_and, false_or, false_iff, not_and]
    exact fun hchecks => absurd hbackslash hchecks.no_backslash
  · simp only [hnil, false_and, false_or, false_iff, not_and]
    intro hchecks
    obtain ⟨c, hc, hbad⟩ := List.any_eq_true.mp hcontrol
    exact absurd (of_decide_eq_true hbad) (hchecks.no_control c hc)
  · simp only [hnil, false_and, false_or, false_iff, not_and]
    exact fun hchecks => absurd hhead hchecks.relative
  · simp only [hnil, false_and, false_or, false_iff, not_and]
    exact fun hchecks => absurd htraversal hchecks.no_traversal
  · simp only [Except.ok.injEq, hnil, false_and, false_or]
    constructor
    · intro h
      refine ⟨⟨hnil, hbackslash, fun c hc hbad => hcontrol ?_, hhead, htraversal⟩, h.symm⟩
      exact List.any_eq_true.mpr ⟨c, hc, decide_eq_true hbad⟩
    · exact fun h => h.2.symm

/-- The values whose canonical form is not trimmed any further: of the segments kept, the first
does not start with whitespace and the last does not end with it. -/
structure StableDataPath (value : PyStr) : Prop where
  first_no_space : ∀ first ∈ (realSegments (strip value)).head?, ∀ c ∈ first.head?,
    isSpace c = false
  last_no_space : ∀ last ∈ (realSegments (strip value)).getLast?, ∀ c ∈ last.getLast?,
    isSpace c = false

/-- The canonical form is trimmed exactly for a stable value. -/
theorem strip_join_realSegments_iff {value : PyStr} :
    strip (join (realSegments (strip value))) = join (realSegments (strip value)) ↔
      StableDataPath value := by
  rw [strip_eq_self_iff, head?_join (nil_notMem_realSegments _),
    getLast?_join (nil_notMem_realSegments _)]
  constructor
  · rintro ⟨hfirst, hlast⟩
    constructor
    · exact fun first hmem c hc => hfirst c (by simpa [Option.mem_def.mp hmem] using hc)
    · exact fun last hmem c hc => hlast c (by simpa [Option.mem_def.mp hmem] using hc)
  · rintro ⟨hfirst, hlast⟩
    constructor
    · intro c hc
      obtain ⟨first, hmem, hc⟩ := Option.bind_eq_some_iff.mp (Option.mem_def.mp hc)
      exact hfirst first hmem c hc
    · intro c hc
      obtain ⟨last, hmem, hc⟩ := Option.bind_eq_some_iff.mp (Option.mem_def.mp hc)
      exact hlast last hmem c hc

/-- What is trimmed away is nowhere else. -/
theorem strip_sublist (s : PyStr) : (strip s).Sublist s :=
  (List.rdropWhile_prefix isSpace _).sublist.trans (List.dropWhile_suffix isSpace).sublist

/-- Segments that are dropped leave a shorter path. -/
theorem length_join_le {segments kept : List PyStr} (h : kept.Sublist segments) :
    (join kept).length ≤ (join segments).length := by
  induction h with
  | slnil => exact Nat.le_refl _
  | @cons kept segments segment _ ih =>
    rcases eq_or_ne segments [] with rfl | hne
    · simpa [join] using ih.trans (Nat.zero_le _)
    · rw [join_cons hne, List.length_append, List.length_cons]
      omega
  | @cons_cons kept segments segment hsub ih =>
    rcases eq_or_ne segments [] with rfl | hne
    · rw [List.sublist_nil.mp hsub]
    · rcases eq_or_ne kept [] with rfl | hne'
      · rw [join_cons hne, join_singleton, List.length_append]
        omega
      · rw [join_cons hne, join_cons hne', List.length_append, List.length_append,
          List.length_cons, List.length_cons]
        omega

/-- A value that is its own canonical form is trimmed. -/
theorem strip_of_fixed {path : PyStr} (h : path = join (realSegments (strip path))) :
    strip path = path := by
  have hkept : (realSegments (strip path)).Sublist (split (strip path)) := List.filter_sublist
  have hle := length_join_le hkept
  rw [← h, join_split] at hle
  exact (strip_sublist path).eq_of_length_le hle

/-- **A canonical form is a fixed point** exactly where it is trimmed. -/
theorem normalizeDataPath_canonical_iff {value path : PyStr}
    (h : normalizeDataPath value = .ok path) :
    normalizeDataPath path = .ok path ↔ StableDataPath value := by
  rw [← strip_join_realSegments_iff]
  rcases normalizeDataPath_eq_ok_iff.mp h with ⟨hnil, rfl⟩ | ⟨hchecks, rfl⟩
  · rw [hnil]
    exact iff_of_true rfl rfl
  · rcases eq_or_ne (realSegments (strip value)) [] with hempty | hne
    · rw [hempty]
      exact iff_of_true rfl rfl
    · constructor
      · intro hfixed
        rcases normalizeDataPath_eq_ok_iff.mp hfixed with ⟨hnil, heq⟩ | ⟨-, heq⟩
        · rw [hnil, heq]
        · exact strip_of_fixed heq
      · intro htrimmed
        have hnonempty : join (realSegments (strip value)) ≠ [] := by
          intro hnil
          have hsplit := split_join_realSegments hne
          rw [hnil] at hsplit
          exact nil_notMem_realSegments (strip value) (hsplit ▸ List.mem_cons_self)
        refine normalizeDataPath_eq_ok_iff.mpr (.inr ?_)
        rw [htrimmed, realSegments_join hne]
        refine ⟨⟨hnonempty, fun hmem => ?_, fun c hc hbad => ?_, (slash_notMem_ends _).1,
          by rw [realSegments_join hne]; exact hchecks.no_traversal⟩, rfl⟩
        · rcases mem_join_realSegments hmem with heq | hmem
          · exact absurd heq (by decide)
          · exact hchecks.no_backslash hmem
        · rcases mem_join_realSegments hc with rfl | hc
          · exact absurd hbad (by decide)
          · exact hchecks.no_control c hc hbad

/-! ## Stored paths -/

/-- A stored path that is canonical and survives being submitted again: it is its own canonical
form, the gate does not see it move, and a clean leaves it. -/
structure SettledDataPath (path : PyStr) : Prop where
  fixed : normalizeDataPath path = .ok path
  segments : ∀ segment ∈ dataSegments path,
    segment ≠ [] ∧ segment ≠ py "." ∧ segment ≠ py ".."
  trimmed : strip path = path
  unmoved : ∀ (projects : Table ProjectRow) pk stored submitted, projects.row pk = some stored →
    stored.dataPath = path → submitted.dataPath = some path →
      ∃ moved, movedSourceFields projects (some pk) submitted = .ok moved ∧ .dataPath ∉ moved
  kept : ∀ projects revisions project cleaned, project.fields.dataPath = path →
    cleanProject projects revisions project = .ok cleaned → cleaned.fields.dataPath = path

/-- The segments of a canonical form name directories. -/
theorem dataSegments_of_normalizeDataPath {value path : PyStr}
    (h : normalizeDataPath value = .ok path) :
    ∀ segment ∈ dataSegments path, segment ≠ [] ∧ segment ≠ py "." ∧ segment ≠ py ".." := by
  intro segment hsegment
  unfold dataSegments at hsegment
  split_ifs at hsegment with hnil
  · cases hsegment
  · rcases normalizeDataPath_eq_ok_iff.mp h with ⟨-, rfl⟩ | ⟨hchecks, rfl⟩
    · exact absurd rfl hnil
    · have hne : realSegments (strip value) ≠ [] := by
        intro hempty
        rw [hempty] at hnil
        exact hnil rfl
      rw [split_join_realSegments hne] at hsegment
      obtain ⟨-, hnonempty, hdot⟩ := mem_realSegments.mp hsegment
      exact ⟨hnonempty, hdot, fun heq => hchecks.no_traversal (heq ▸ hsegment)⟩

/-- The gate does not see a fixed point move. -/
theorem movedSourceFields_fixed {projects : Table ProjectRow} {pk : Id} {stored : ProjectRow}
    {submitted : Submitted} (hrow : projects.row pk = some stored)
    (hsubmitted : submitted.dataPath = some stored.dataPath)
    (hfixed : normalizeDataPath stored.dataPath = .ok stored.dataPath) :
    ∃ moved, movedSourceFields projects (some pk) submitted = .ok moved ∧
      GatedField.dataPath ∉ moved := by
  have hne : submitted ≠ ⟨none, none, none⟩ := by
    rintro rfl
    cases hsubmitted
  have hpath : submitted.dataPath.mapM normalizeDataPath = .ok (some stored.dataPath) := by
    rw [hsubmitted]
    show (some <$> normalizeDataPath stored.dataPath) = _
    rw [hfixed]
    rfl
  rw [movedSourceFields, if_neg hne, Option.bind_some, hrow]
  dsimp only
  rw [hpath]
  refine ⟨_, rfl, ?_⟩
  simp only [Option.any_some, ne_eq, not_true_eq_false, decide_false, Bool.false_eq_true, if_false,
    List.append_nil, List.mem_append, not_or]
  constructor
  · split_ifs <;> simp
  · split_ifs <;> simp

/-- A clean leaves a fixed point. -/
theorem cleanProject_fixed {projects : Table ProjectRow} {revisions : Table RevisionRow}
    {project cleaned : ProjectInstance}
    (hfixed : normalizeDataPath project.fields.dataPath = .ok project.fields.dataPath)
    (h : cleanProject projects revisions project = .ok cleaned) :
    cleaned.fields.dataPath = project.fields.dataPath := by
  rw [cleanProject, hfixed] at h
  dsimp only at h
  unfold ProjectErrors.check at h
  split_ifs at h
  obtain rfl := Except.ok.inj h
  rfl

/-- **A canonical form is settled** exactly for a stable value: it is stored as it is, and stays
so when it is submitted again. -/
theorem normalizeDataPath_settled_iff {value path : PyStr}
    (h : normalizeDataPath value = .ok path) : SettledDataPath path ↔ StableDataPath value := by
  rw [← normalizeDataPath_canonical_iff h]
  constructor
  · exact SettledDataPath.fixed
  · intro hfixed
    refine ⟨hfixed, dataSegments_of_normalizeDataPath h, ?_, ?_, ?_⟩
    · rcases normalizeDataPath_eq_ok_iff.mp hfixed with ⟨hnil, rfl⟩ | ⟨-, heq⟩
      · exact hnil
      · exact strip_of_fixed heq
    · rintro projects pk stored submitted hrow rfl hsubmitted
      exact movedSourceFields_fixed hrow hsubmitted hfixed
    · rintro projects revisions project cleaned rfl hclean
      exact cleanProject_fixed hfixed hclean

/-- `./a//b/` is stored as `a/b`. -/
theorem normalizeDataPath_settled_a_b : SettledDataPath (py "a/b") :=
  (normalizeDataPath_settled_iff (show normalizeDataPath (py "./a//b/") = .ok (py "a/b") by
    decide)).mpr ⟨by decide, by decide⟩

/-- A project stored under ` a`. -/
def blankProject : ProjectRow :=
  ⟨py "p", 1, .dataSource, some 1, py " a", .manual, none, none, false, true⟩

/-- `./ a` is accepted as ` a`, which is submitted again as a move to `a`. -/
theorem normalizeDataPath_dot_slash_blank :
    normalizeDataPath (py "./ a") = .ok (py " a") ∧ normalizeDataPath (py " a") = .ok (py "a") ∧
      strip (py " a") ≠ py " a" ∧
      movedSourceFields ((Table.startingAt 1).insert blankProject) (some 1)
        ⟨none, none, some (py " a")⟩ = .ok [.dataPath] := by
  decide

end NetBoxScripts
