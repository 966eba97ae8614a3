import NetBoxScripts.Concurrency.Table
import NetBoxScripts.Storage.ScriptFiles

/-!
# Saving declarations

`ScriptFile.save` (`models/scripts.py`): each save runs under the project's write lock, so saves
follow one another. What they keep true of the rows is what the check of a stored snapshot asks
for.

## Main definitions

* `saveDeclaration`: one save of an instance
* `Saved`: the tables that saves lead to
* `Declarations`: what saves keep true of the rows

## Main results

* `saveDeclaration_declarations`: a save keeps it
* `validateScriptFileSnapshot_of_saved`: the snapshot of any enabled rows is accepted
-/

namespace NetBoxScripts

section Save

variable [Unicode]

/-- A Script File in memory, with what a caller made of its fields. -/
structure ScriptFileInstance where
  pk : Option Id
  project : Id
  sourcePath : PyStr
  enabled : Bool
  deriving DecidableEq, Repr

/-- The fields a save names. -/
inductive SavedFields
  /-- No `update_fields`. -/
  | all
  /-- `update_fields=('enabled', 'last_updated')` -/
  | enabled
  deriving DecidableEq, Repr

/-- How a save is refused. -/
inductive SaveRefusal
  | unsafePath (failure : PathFailure)
  | unimportable (error : PathNameError)
  | siblingConflict
  | identityChanged
  | integrity
  | notSaved
  deriving DecidableEq, Repr

/-- Two paths have nodes that differ only in letter case. -/
def caseConflict (path other : PyStr) : Bool :=
  (caseInsensitiveNodes other).any fun node =>
    (caseInsensitiveNodes path).any fun mine => mine.1 = node.1 ∧ mine.2 ≠ node.2

/-- Two paths import under one module name. -/
def moduleConflict (path other : PyStr) : Bool :=
  match sourcePathToDottedName path, sourcePathToDottedName other with
  | .ok dotted, .ok dotted' => dotted = dotted'
  | _, _ => false

/-- `_sibling_path_conflict()` -/
def siblingPathConflict (table : Table ScriptFileRow) (file : ScriptFileInstance)
    (path : PyStr) : Bool :=
  table.entries.any fun sibling => sibling.2.project = file.project ∧ some sibling.1 ≠ file.pk ∧
    (caseConflict path sibling.2.sourcePath ∨ moduleConflict path sibling.2.sourcePath)

/-- The statement that writes a new row, under `unique_project_source_path`. -/
def insertDeclaration (table : Table ScriptFileRow) (file : ScriptFileInstance) (path : PyStr) :
    Except SaveRefusal (Table ScriptFileRow) :=
  if table.entries.any fun other => other.2.project = file.project ∧ other.2.sourcePath = path then
    .error .integrity
  else .ok (table.insert ⟨file.project, path, file.enabled, .pending, [], none⟩)

/-- `_save_declaration(update_fields)` -/
def saveDeclaration (table : Table ScriptFileRow) (file : ScriptFileInstance)
    (fields : SavedFields) : Except SaveRefusal (Table ScriptFileRow) :=
  match normalizeSourcePath file.sourcePath with
  | .error failure => .error (.unsafePath failure)
  | .ok path =>
    match sourcePathToDottedName path with
    | .error error => .error (.unimportable error)
    | .ok _ =>
      if (file.pk = none ∨ fields = .all) ∧ siblingPathConflict table file path then
        .error .siblingConflict
      else
        match file.pk with
        | none => insertDeclaration table file path
        | some pk =>
          match table.row pk with
          -- an instance is of a row that was loaded, and none of these saves removes one
          | none => .error .notSaved
          | some original =>
            if original.project ≠ file.project ∨ original.sourcePath ≠ path then
              .error .identityChanged
            else
              -- a full save restores what validation writes
              .ok (table.modify pk fun row => match fields with
                | .all => { row with
                  project := file.project
                  sourcePath := path
                  enabled := file.enabled
                  discoveryStatus := original.discoveryStatus
                  discoveryError := original.discoveryError
                  lastDiscoveredRevision := original.lastDiscoveredRevision }
                | .enabled => { row with enabled := file.enabled })

/-- The tables that saves lead to, from no rows; keys start at one. -/
inductive Saved : Table ScriptFileRow → Prop
  | empty {next : ℕ} (hnext : 0 < next) : Saved (.startingAt next)
  | save {table table' : Table ScriptFileRow} (h : Saved table) (file : ScriptFileInstance)
      (fields : SavedFields) (hsave : saveDeclaration table file fields = .ok table') : Saved table'

end Save

/-! ## What saves keep -/

section Invariant

variable [Unicode]

/-- What is relied on of `str.isidentifier`: an identifier has no whitespace at its ends, and no
colon. -/
structure IdentifierLaws : Prop where
  first : ∀ s, isIdentifier s = true → ∀ c ∈ s.head?, isSpace c = false
  last : ∀ s, isIdentifier s = true → ∀ c ∈ s.getLast?, isSpace c = false
  no_colon : ∀ s, isIdentifier s = true → colon ∉ s

/-- A row whose path is canonical and imports. -/
structure Importable (path : PyStr) : Prop where
  canonical : normalizeSourcePath path = .ok path
  dotted : ∃ dotted, sourcePathToDottedName path = .ok dotted

/-- What saves keep true of the rows: keys are positive, paths are canonical and import, and those
of one project are told apart in every way. -/
structure Declarations (table : Table ScriptFileRow) : Prop where
  next_pos : 0 < table.next
  pos : ∀ i row, table.row i = some row → 0 < i
  importable : ∀ i row, table.row i = some row → Importable row.sourcePath
  apart : ∀ i j a b, table.row i = some a → table.row j = some b → i ≠ j →
    a.project = b.project → caseConflict a.sourcePath b.sourcePath = false ∧
      moduleConflict a.sourcePath b.sourcePath = false

theorem caseConflict_comm (path other : PyStr) : caseConflict path other = caseConflict other path := by
  rw [Bool.eq_iff_iff]
  simp only [caseConflict, List.any_eq_true, decide_eq_true_eq]
  constructor
  · rintro ⟨node, hnode, mine, hmine, heq, hne⟩
    exact ⟨mine, hmine, node, hnode, heq.symm, hne.symm⟩
  · rintro ⟨node, hnode, mine, hmine, heq, hne⟩
    exact ⟨mine, hmine, node, hnode, heq.symm, hne.symm⟩

theorem moduleConflict_comm (path other : PyStr) :
    moduleConflict path other = moduleConflict other path := by
  unfold moduleConflict
  cases sourcePathToDottedName path with
  | error error => cases sourcePathToDottedName other <;> rfl
  | ok dotted =>
    cases sourcePathToDottedName other with
    | error error => rfl
    | ok dotted' => exact decide_eq_decide.mpr eq_comm

omit [Unicode] in
/-- The segments of a path, from those of the path without an ending. -/
theorem split_append (body : PyStr) {ending : PyStr} (h : slash ∉ ending) :
    ∃ init last, split body = init ++ [last] ∧ split (body ++ ending) = init ++ [last ++ ending] := by
  obtain ⟨init, last, hbody⟩ :=
    (List.eq_nil_or_concat' (split body)).resolve_left (split_ne_nil body)
  refine ⟨init, last, hbody, ?_⟩
  have hslash : ∀ s ∈ init ++ [last], slash ∉ s := by
    intro s hs
    rw [← hbody] at hs
    exact slash_notMem_of_mem_split hs
  have hjoin : body ++ ending = join (init ++ [last ++ ending]) := by
    rcases eq_or_ne init [] with rfl | hne
    · rw [← join_split body, hbody]
      simp
    · rw [join_concat hne, ← join_split body, hbody, join_concat hne]
      simp
  rw [hjoin]
  refine split_join (fun s hs => ?_) (by simp)
  rcases List.mem_append.mp hs with hs | hs
  · exact hslash s (List.mem_append_left _ hs)
  · obtain rfl := List.mem_singleton.mp hs
    intro hmem
    rcases List.mem_append.mp hmem with hmem | hmem
    · exact hslash last (by simp) hmem
    · exact h hmem

/-- What a path that imports looks like: identifiers, and a last one with the ending. -/
theorem segments_of_dotted {path dotted : PyStr} (h : sourcePathToDottedName path = .ok dotted) :
    ∃ init last, split path = init ++ [last ++ py ".py"] ∧ (∀ s ∈ init, isIdentifier s = true) ∧
      (init = [] → isIdentifier last = true) := by
  unfold sourcePathToDottedName at h
  split_ifs at h with hsuffix
  rw [Bool.not_eq_false] at hsuffix
  obtain ⟨body, hbody⟩ := List.isSuffixOf_iff_suffix.mp hsuffix
  have htake : path.take (path.length - 3) = body := by
    rw [← hbody]
    simp [py]
  obtain ⟨init, last, hsplit, hpath⟩ := split_append body (by decide : slash ∉ py ".py")
  rw [hbody] at hpath
  refine ⟨init, last, hpath, ?_⟩
  simp only [htake, hsplit, List.getLast?_append, List.getLast?_singleton, Option.some_or,
    Option.some_inj, List.dropLast_concat] at h
  have hidentifier : ∀ segments : List PyStr, segments.findSome? segmentError = none →
      ∀ s ∈ segments, isIdentifier s = true := by
    intro segments hnone s hs
    have := List.findSome?_eq_none_iff.mp hnone s hs
    unfold segmentError at this
    split_ifs at this with hident
    simpa using hident
  split_ifs at h with hpackage hroot
  · split at h
    · cases h
    · next hnone =>
      exact ⟨hidentifier init hnone, fun hinit => absurd ⟨hpackage, hinit⟩ hroot⟩
  · split at h
    · cases h
    · next hnone =>
      have hall := hidentifier _ hnone
      exact ⟨fun s hs => hall s (List.mem_append_left _ hs), fun _ => hall last (by simp)⟩

/-- A path whose canonical form imports is a stable spelling. -/
theorem stableSpelling_of_dotted (hlaws : IdentifierLaws) {path canonical dotted : PyStr}
    (hcanonical : normalizeSourcePath path = .ok canonical)
    (hdotted : sourcePathToDottedName canonical = .ok dotted) : StableSpelling path := by
  obtain ⟨-, hchecks, rfl⟩ := (normalizeSourcePath_eq_ok_iff ..).mp hcanonical
  obtain ⟨init, last, hsplit, hinit, hlast⟩ := segments_of_dotted hdotted
  rw [split_join_realSegments hchecks.nonempty] at hsplit
  have hdot : isSpace 46 = false := by decide
  have hdrive : ∀ s, isIdentifier s = true → hasDriveLetter s = false ∧
      hasDriveLetter (s ++ py ".py") = false := by
    intro s hs
    have hcolon := hlaws.no_colon s hs
    match s with
    | [] => exact ⟨rfl, rfl⟩
    | [a] => exact ⟨rfl, rfl⟩
    | a :: b :: s =>
      have hb : b ≠ colon := fun hb => hcolon (by simp [hb])
      simp [hasDriveLetter, hb]
  constructor
  · intro first hfirst c hc
    rw [hsplit] at hfirst
    cases init with
    | nil =>
      obtain rfl : last ++ py ".py" = first := by simpa using hfirst
      cases last with
      | nil =>
        obtain rfl : c = 46 := by simpa [py, eq_comm] using hc
        exact hdot
      | cons a last => exact hlaws.first _ (hlast rfl) c (by simpa using hc)
    | cons segment init =>
      obtain rfl : segment = first := by simpa using hfirst
      exact hlaws.first _ (hinit _ (by simp)) c hc
  · intro first hfirst
    rw [hsplit] at hfirst
    cases init with
    | nil =>
      obtain rfl : last ++ py ".py" = first := by simpa using hfirst
      exact (hdrive last (hlast rfl)).2
    | cons segment init =>
      obtain rfl : segment = first := by simpa using hfirst
      exact (hdrive segment (hinit _ (by simp))).1
  · intro final hfinal c hc
    rw [hsplit, List.getLast?_append, List.getLast?_singleton, Option.some_or,
      Option.mem_some_iff] at hfinal
    subst hfinal
    obtain rfl : 121 = c := by simpa [py] using hc
    decide

theorem importable_of_dotted (hlaws : IdentifierLaws) {path canonical dotted : PyStr}
    (hcanonical : normalizeSourcePath path = .ok canonical)
    (hdotted : sourcePathToDottedName canonical = .ok dotted) : Importable canonical where
  canonical := (normalizeSourcePath_canonical_iff hcanonical).mpr
    (stableSpelling_of_dotted hlaws hcanonical hdotted)
  dotted := ⟨dotted, hdotted⟩

/-- A path that has no conflict has none with any row of its project. -/
theorem siblingPathConflict_eq_false {table : Table ScriptFileRow} {file : ScriptFileInstance}
    {path : PyStr} (h : ¬ siblingPathConflict table file path = true) {i : Id} {row : ScriptFileRow}
    (hrow : table.row i = some row) (hproject : row.project = file.project)
    (hpk : some i ≠ file.pk) : caseConflict path row.sourcePath = false ∧
      moduleConflict path row.sourcePath = false := by
  have hnone := List.any_eq_false.mp (Bool.not_eq_true _ ▸ h) (i, row) (Table.mem_entries.mpr hrow)
  simpa [hproject, hpk] using hnone

/-- Rows whose projects and paths stay keep what saves keep. -/
theorem Declarations.modify {table : Table ScriptFileRow} (h : Declarations table) {pk : Id}
    {f : ScriptFileRow → ScriptFileRow} (hproject : ∀ row, table.row pk = some row →
      (f row).project = row.project ∧ (f row).sourcePath = row.sourcePath) :
    Declarations (table.modify pk f) := by
  have hback : ∀ i row, (table.modify pk f).row i = some row → ∃ old, table.row i = some old ∧
      row.project = old.project ∧ row.sourcePath = old.sourcePath := by
    intro i row hrow
    obtain ⟨old, hold, rfl⟩ := Table.row_modify_eq_some hrow
    refine ⟨old, hold, ?_⟩
    split_ifs with hi
    · subst hi
      exact hproject old hold
    · exact ⟨rfl, rfl⟩
  refine ⟨h.next_pos, fun i row hrow => ?_, fun i row hrow => ?_, fun i j a b ha hb hij hab => ?_⟩
  · obtain ⟨old, hold, -⟩ := hback i row hrow
    exact h.pos i old hold
  · obtain ⟨old, hold, -, hpath⟩ := hback i row hrow
    exact hpath ▸ h.importable i old hold
  · obtain ⟨olda, holda, hpa, hsa⟩ := hback i a ha
    obtain ⟨oldb, holdb, hpb, hsb⟩ := hback j b hb
    rw [hsa, hsb]
    exact h.apart i j olda oldb holda holdb hij (by rw [← hpa, ← hpb, hab])

/-- **One save** keeps the rows canonical, importable and apart. -/
theorem saveDeclaration_declarations (hlaws : IdentifierLaws) {table table' : Table ScriptFileRow}
    {file : ScriptFileInstance} {fields : SavedFields} (h : Declarations table)
    (hsave : saveDeclaration table file fields = .ok table') : Declarations table' := by
  unfold saveDeclaration at hsave
  split at hsave
  · cases hsave
  next path hcanonical =>
  split at hsave
  · cases hsave
  next dotted hdotted =>
  split_ifs at hsave with hconflict
  split at hsave
  · -- a new row
    next hpk =>
    unfold insertDeclaration at hsave
    split_ifs at hsave with hunique
    cases hsave
    have hnone : ¬ siblingPathConflict table file path = true := fun hc => hconflict ⟨.inl hpk, hc⟩
    have hnew : ∀ i row, table.row i = some row → row.project = file.project →
        caseConflict path row.sourcePath = false ∧ moduleConflict path row.sourcePath = false :=
      fun i row hrow hproject =>
        siblingPathConflict_eq_false hnone hrow hproject (by rw [hpk]; exact Option.some_ne_none i)
    refine ⟨Nat.succ_pos _, fun i row hrow => ?_, fun i row hrow => ?_,
      fun i j a b ha hb hij hab => ?_⟩
    · rcases Table.row_insert_eq_some hrow with ⟨rfl, -⟩ | hrow
      · exact h.next_pos
      · exact h.pos i row hrow
    · rcases Table.row_insert_eq_some hrow with ⟨-, rfl⟩ | hrow
      · exact importable_of_dotted hlaws hcanonical hdotted
      · exact h.importable i row hrow
    · rcases Table.row_insert_eq_some ha with ⟨rfl, rfl⟩ | ha
      · rcases Table.row_insert_eq_some hb with ⟨rfl, -⟩ | hb
        · exact absurd rfl hij
        · exact hnew j b hb hab.symm
      · rcases Table.row_insert_eq_some hb with ⟨rfl, rfl⟩ | hb
        · rw [caseConflict_comm, moduleConflict_comm]
          exact hnew i a ha hab
        · exact h.apart i j a b ha hb hij hab
  · next pk hpk =>
    split at hsave
    · cases hsave
    next original horiginal =>
    split_ifs at hsave with hidentity
    cases hsave
    obtain ⟨hproject, hpath⟩ := not_or.mp hidentity
    rw [not_not] at hproject hpath
    refine h.modify fun row hrow => ?_
    obtain rfl : original = row := Option.some.inj (horiginal.symm.trans hrow)
    cases fields with
    | all => exact ⟨hproject.symm, hpath.symm⟩
    | enabled => exact ⟨rfl, rfl⟩

/-- What every run of saves keeps. -/
theorem Saved.declarations (hlaws : IdentifierLaws) {table : Table ScriptFileRow}
    (h : Saved table) : Declarations table := by
  induction h with
  | empty hnext =>
    refine ⟨hnext, fun i row hrow => ?_, fun i row hrow => ?_, fun i j a b ha => ?_⟩
    · cases hrow
    · cases hrow
    · cases ha
  | save h file fields hsave ih => exact saveDeclaration_declarations hlaws ih hsave

end Invariant

/-! ## Snapshots of saved rows -/

section Snapshot

variable [Unicode]

theorem keys_caseInsensitiveNodes_nodup (path : PyStr) :
    ((caseInsensitiveNodes path).map Prod.fst).Nodup := by
  have hstep : ∀ (nodes : List PyStr) (byForm : List (PyStr × PyStr)),
      (byForm.map Prod.fst).Nodup → ((nodes.foldl (fun byForm node =>
        if (byForm.map Prod.fst).contains (lower node) then
          byForm.map fun entry => if entry.1 = lower node then (lower node, node) else entry
        else byForm ++ [(lower node, node)]) byForm).map Prod.fst).Nodup := by
    intro nodes
    induction nodes with
    | nil => exact fun byForm h => h
    | cons node nodes ih =>
      intro byForm h
      rw [List.foldl_cons]
      apply ih
      split_ifs with hmem
      · have hkeys : (byForm.map fun entry => if entry.1 = lower node then (lower node, node)
            else entry).map Prod.fst = byForm.map Prod.fst := by
          rw [List.map_map]
          refine List.map_congr_left fun entry _ => ?_
          simp only [Function.comp]
          split_ifs with heq
          · exact heq.symm
          · rfl
        rwa [hkeys]
      · rw [List.map_append, List.nodup_append]
        refine ⟨h, List.nodup_singleton _, fun a ha b hb heq => hmem ?_⟩
        obtain rfl : b = lower node := by simpa using hb
        rw [heq] at ha
        simpa using ha
  exact hstep _ [] List.nodup_nil

/-- Paths no two of which conflict collide nowhere. -/
theorem caseInsensitiveCollisions_eq_nil {paths : List PyStr}
    (h : ∀ a ∈ paths, ∀ b ∈ paths, a ≠ b → caseConflict a b = false) :
    caseInsensitiveCollisions paths = [] := by
  have hnone : ∀ form, isCollided (paths.insertionSort (· ≤ ·)) form = false := by
    intro form
    refine List.any_eq_false.mpr fun name hname => ?_
    rw [Bool.not_eq_true]
    refine List.any_eq_false.mpr fun other hother => ?_
    rw [decide_eq_true_eq, not_not]
    simp only [namesByForm, List.mem_map, List.mem_filter, List.mem_flatMap,
      List.mem_insertionSort, decide_eq_true_eq] at hname hother
    obtain ⟨⟨f, n⟩, ⟨⟨a, ha, hnode⟩, rfl⟩, rfl⟩ := hname
    obtain ⟨⟨f', n'⟩, ⟨⟨b, hb, hnode'⟩, hf⟩, rfl⟩ := hother
    dsimp only at hf ⊢
    subst hf
    rcases eq_or_ne a b with rfl | hne
    · have := List.inj_on_of_nodup_map (keys_caseInsensitiveNodes_nodup a) hnode hnode' rfl
      exact (Prod.mk.inj this).2
    · by_contra hn
      have hfalse := h a ha b hb hne
      rw [caseConflict, List.any_eq_false] at hfalse
      refine hfalse _ hnode' (List.any_eq_true.mpr ⟨_, hnode, ?_⟩)
      simpa using hn
  rw [caseInsensitiveCollisions, List.filterMap_eq_nil_iff]
  intro path _
  rw [Option.map_eq_none_iff, collisionOf, Option.map_eq_none_iff, List.find?_eq_none]
  intro entry _
  simp [hnone]

/-- What an entry needs to pass, against the claims before it. -/
structure ClaimableEntry (entry : SnapshotEntry) (claims : Claims) : Prop where
  pos : 0 < entry.scriptFile
  importable : Importable entry.sourcePath
  fresh_file : (entry.scriptFile : ℤ) ∉ claims.scriptFileIds
  fresh_path : entry.sourcePath ∉ claims.paths
  fresh_name : ∀ dotted, sourcePathToDottedName entry.sourcePath = .ok dotted →
    dotted ∉ claims.claimantsByName.map Prod.fst
  sorted : ∀ previous ∈ claims.previousPath, previous ≤ entry.sourcePath

/-- The claims with one more entry. -/
def Claims.add (claims : Claims) (entry : SnapshotEntry) (dotted : PyStr) : Claims where
  scriptFileIds := (entry.scriptFile : ℤ) :: claims.scriptFileIds
  paths := entry.sourcePath :: claims.paths
  claimantsByName := (dotted, entry.sourcePath) :: claims.claimantsByName
  previousPath := some entry.sourcePath

/-- An entry that can be claimed passes without a reason. -/
theorem validateSnapshotEntry_of_claimable {index : ℕ} {entry : SnapshotEntry} {claims : Claims}
    (h : ClaimableEntry entry claims) {dotted : PyStr}
    (hdotted : sourcePathToDottedName entry.sourcePath = .ok dotted) :
    validateSnapshotEntry index entry.toJson claims = .ok ([], claims.add entry dotted) := by
  have hkeys : [py "script_file", py "source_path"].filter (fun key =>
      key ≠ py "script_file" ∧ key ≠ py "source_path") = [] := by decide
  have hfile : entry.toJson.get? (py "script_file") = some (.int entry.scriptFile) := rfl
  have hpath : entry.toJson.get? (py "source_path") = some (.str entry.sourcePath) := rfl
  have hid : ¬ (entry.scriptFile : ℤ) < 1 := not_lt.mpr (Int.natCast_pos.mpr h.pos)
  have hname : (dotted, entry.sourcePath) ∉ claims.claimantsByName :=
    fun hmem => h.fresh_name dotted hdotted (List.mem_map_of_mem hmem)
  rw [SnapshotEntry.toJson] at hfile hpath ⊢
  simp only [validateSnapshotEntry, hfile, hpath, List.map_cons, List.map_nil, hkeys, ne_eq,
    not_true_eq_false, if_false, claimScriptFile, Json.int?, hid, h.fresh_file, claimPath,
    Json.str?, h.importable.canonical, h.fresh_path, hdotted, List.append_nil, Option.getD_some]
  simp only [Claims.add, h.fresh_file, h.fresh_path, hname, List.insert_of_not_mem,
    not_false_eq_true, Except.ok.injEq, Prod.mk.injEq, and_true]
  refine if_neg fun hany => ?_
  obtain ⟨previous, hprevious, hlt⟩ := (Option.any_eq_true _ _).mp hany
  exact not_lt.mpr (h.sorted previous hprevious) (of_decide_eq_true hlt)

variable {table : Table ScriptFileRow}

/-- Entries that can be claimed one after another pass without a reason, and leave the paths and
names they claim. -/
theorem validateSnapshotEntries_of_rows (h : Declarations table) {p : Id} (index : ℕ)
    {rows : List (Id × ScriptFileRow)} (claims : Claims)
    (hrows : ∀ row ∈ rows, table.row row.1 = some row.2 ∧ row.2.project = p)
    (hnodup : (rows.map Prod.fst).Nodup)
    (hsorted : rows.Pairwise fun a b => a.2.sourcePath ≤ b.2.sourcePath)
    (hclaims : ∀ row ∈ rows, (row.1 : ℤ) ∉ claims.scriptFileIds ∧ row.2.sourcePath ∉ claims.paths ∧
      (∀ dotted, sourcePathToDottedName row.2.sourcePath = .ok dotted →
        dotted ∉ claims.claimantsByName.map Prod.fst) ∧
      ∀ previous ∈ claims.previousPath, previous ≤ row.2.sourcePath) :
    ∃ claims', validateSnapshotEntries index
        (rows.map fun row => (SnapshotEntry.mk row.1 row.2.sourcePath).toJson) claims =
          .ok ([], claims') ∧
      claims'.paths = (rows.map fun row => row.2.sourcePath).reverse ++ claims.paths ∧
      ((claims.claimantsByName.map Prod.fst).Nodup →
        (claims'.claimantsByName.map Prod.fst).Nodup) := by
  induction rows generalizing index claims with
  | nil => exact ⟨claims, rfl, rfl, id⟩
  | cons row rows ih =>
    rw [List.forall_mem_cons] at hrows hclaims
    rw [List.map_cons, List.nodup_cons] at hnodup
    rw [List.pairwise_cons] at hsorted
    obtain ⟨⟨hrow, hproject⟩, hrows⟩ := hrows
    obtain ⟨⟨hfile, hpath, hname, hprevious⟩, hclaims⟩ := hclaims
    have himportable := h.importable _ _ hrow
    obtain ⟨dotted, hdotted⟩ := himportable.dotted
    -- what this entry claims, no later row claims
    have hapart : ∀ other ∈ rows, other.1 ≠ row.1 ∧ other.2.sourcePath ≠ row.2.sourcePath ∧
        sourcePathToDottedName other.2.sourcePath ≠ .ok dotted := by
      intro other hother
      have hne : row.1 ≠ other.1 := fun heq => hnodup.1 (heq ▸ List.mem_map_of_mem hother)
      have hmodule := (h.apart _ _ _ _ hrow (hrows other hother).1 hne
        (hproject.trans (hrows other hother).2.symm)).2
      have hdiffer : sourcePathToDottedName other.2.sourcePath ≠ .ok dotted := by
        intro heq
        simp [moduleConflict, hdotted, heq] at hmodule
      exact ⟨hne.symm, fun heq => hdiffer (heq ▸ hdotted), hdiffer⟩
    obtain ⟨claims', hok, hpaths, hnames⟩ := ih (index + 1)
      (claims.add ⟨row.1, row.2.sourcePath⟩ dotted) hrows hnodup.2 hsorted.2 (by
        intro other hother
        obtain ⟨hne, hnepath, hnename⟩ := hapart other hother
        obtain ⟨hfile', hpath', hname', -⟩ := hclaims other hother
        refine ⟨?_, ?_, ?_, ?_⟩
        · simp only [Claims.add, List.mem_cons, not_or]
          exact ⟨fun heq => hne (Int.natCast_inj.mp heq), hfile'⟩
        · simp only [Claims.add, List.mem_cons, not_or]
          exact ⟨hnepath, hpath'⟩
        · intro dotted' hdotted'
          simp only [Claims.add, List.map_cons, List.mem_cons, not_or]
          exact ⟨fun heq => hnename (heq ▸ hdotted'), hname' dotted' hdotted'⟩
        · intro previous heq
          obtain rfl : row.2.sourcePath = previous := by simpa [Claims.add] using heq
          exact hsorted.1 other hother)
    refine ⟨claims', ?_, ?_, fun hclaimants => hnames ?_⟩
    · rw [List.map_cons, validateSnapshotEntries, Except.bind_eq_ok_iff]
      refine ⟨_, validateSnapshotEntry_of_claimable
        ⟨h.pos _ _ hrow, himportable, hfile, hpath, hname, hprevious⟩ hdotted, ?_⟩
      exact Except.bind_eq_ok_iff.mpr ⟨_, hok, rfl⟩
    · rw [hpaths]
      simp [Claims.add]
    · simp only [Claims.add, List.map_cons, List.nodup_cons]
      exact ⟨hname dotted hdotted, hclaimants⟩

omit [Unicode] in
/-- Names that are claimed once are no duplicates. -/
theorem duplicateModuleNames_eq_nil {claimants : List (PyStr × PyStr)}
    (h : (claimants.map Prod.fst).Nodup) : duplicateModuleNames claimants = [] := by
  rw [duplicateModuleNames, List.flatMap_eq_nil_iff]
  intro name hclaimed
  clear hclaimed
  refine if_neg (not_lt.mpr ?_)
  rw [List.length_map]
  induction claimants with
  | nil => exact Nat.zero_le 1
  | cons claimant claimants ih =>
    rw [List.map_cons, List.nodup_cons] at h
    rw [List.filter_cons]
    split_ifs with hname
    · have hrest : (claimants.filter fun other => other.1 = name) = [] := by
        refine List.filter_eq_nil_iff.mpr fun other hother hother' => h.1 ?_
        have hsame : other.1 = claimant.1 := by
          rw [of_decide_eq_true hother', of_decide_eq_true hname]
        exact hsame ▸ List.mem_map_of_mem hother
      rw [hrest]
      exact Nat.le_refl 1
    · exact ih h.2

variable [Hashing]

omit [Unicode] [Hashing] in
/-- A snapshot comes back from its column as it was. -/
theorem stored_snapshot (snapshot : List SnapshotEntry) :
    Json.stored (.arr (snapshot.map SnapshotEntry.toJson)) =
      .arr (snapshot.map SnapshotEntry.toJson) := by
  have hentry : ∀ entry : SnapshotEntry, Json.stored entry.toJson = entry.toJson := by
    intro entry
    have hbefore : Json.keyBefore (py "script_file") (py "source_path") := by decide
    rw [SnapshotEntry.toJson, Json.stored, List.Pairwise.insertionSort_eq]
    · rfl
    · simpa [Json.storedFields] using hbefore
  rw [Json.stored, Json.storedItems_eq_map, List.map_map]
  exact congrArg Json.arr (List.map_congr_left fun entry _ => hentry entry)

/-- **A snapshot of saved rows** is accepted with the digest built for it: of any enabled rows of
one project, read back from its column. -/
theorem validateScriptFileSnapshot_of_saved (hlaws : IdentifierLaws) (hsaved : Saved table) {p : Id}
    {rows : List (Id × ScriptFileRow)}
    (hrows : ∀ row ∈ rows, table.row row.1 = some row.2 ∧ row.2.project = p ∧ row.2.enabled = true)
    (hnodup : (rows.map Prod.fst).Nodup) :
    validateScriptFileSnapshot
        (Json.stored (.arr ((buildScriptFileSnapshot rows).map SnapshotEntry.toJson)))
        (snapshotDigest (buildScriptFileSnapshot rows)) = .ok () := by
  have h := hsaved.declarations hlaws
  -- the snapshot lists the rows in the order of their paths
  let sorted := rows.insertionSort fun a b => a.2.sourcePath ≤ b.2.sourcePath
  have hperm : sorted.Perm rows := List.perm_insertionSort _ _
  have hsnapshot : buildScriptFileSnapshot rows =
      sorted.map fun row => ⟨row.1, row.2.sourcePath⟩ :=
    (List.map_insertionSort (fun a b : Id × ScriptFileRow => a.2.sourcePath ≤ b.2.sourcePath)
      (fun a b : SnapshotEntry => a.sourcePath ≤ b.sourcePath)
      (fun row => ⟨row.1, row.2.sourcePath⟩) rows fun _ _ _ _ => Iff.rfl).symm
  obtain ⟨claims, hok, hpaths, hnames⟩ := validateSnapshotEntries_of_rows h 0 ⟨[], [], [], none⟩
    (fun row (hrow : row ∈ sorted) =>
      ⟨(hrows row (hperm.mem_iff.mp hrow)).1, (hrows row (hperm.mem_iff.mp hrow)).2.1⟩)
    ((hperm.map _).nodup_iff.mpr hnodup) (List.pairwise_insertionSort _ _)
    (fun row _ => ⟨by simp, by simp, by simp, by simp⟩)
  have hcollisions : caseInsensitiveCollisions claims.paths = [] := by
    refine caseInsensitiveCollisions_eq_nil fun a ha b hb hab => ?_
    rw [hpaths, List.append_nil, List.mem_reverse, List.mem_map] at ha hb
    obtain ⟨x, hx, rfl⟩ := ha
    obtain ⟨y, hy, rfl⟩ := hb
    obtain ⟨hx, hxp, -⟩ := hrows x (hperm.mem_iff.mp hx)
    obtain ⟨hy, hyp, -⟩ := hrows y (hperm.mem_iff.mp hy)
    refine (h.apart _ _ _ _ hx hy (fun heq => hab ?_) (hxp.trans hyp.symm)).1
    rw [heq, hy] at hx
    exact congrArg ScriptFileRow.sourcePath (Option.some.inj hx).symm
  rw [stored_snapshot, hsnapshot, List.map_map, validateScriptFileSnapshot,
    Except.bind_eq_ok_iff]
  refine ⟨_, hok, ?_⟩
  dsimp only
  rw [hcollisions, duplicateModuleNames_eq_nil (hnames List.nodup_nil)]
  simp [snapshotDigest, pure, Except.pure]

omit [Unicode] [Hashing] in
/-- The ASCII tables know no identifier with a blank or a colon. -/
theorem identifierLaws_ascii : @IdentifierLaws asciiUnicode := by
  have hchars : ∀ s, asciiUnicode.isIdentifier s = true →
      ∀ c ∈ s, (65 ≤ c ∧ c ≤ 90) ∨ (97 ≤ c ∧ c ≤ 122) ∨ c = 95 ∨ (48 ≤ c ∧ c ≤ 57) := by
    intro s hs c hc
    exact of_decide_eq_true (List.all_eq_true.mp (of_decide_eq_true hs).2.1 c hc)
  have hspace : ∀ s, asciiUnicode.isIdentifier s = true → ∀ c ∈ s, isSpace c = false := by
    intro s hs c hc
    have := hchars s hs c hc
    simp only [isSpace, Bool.or_eq_false_iff, Bool.and_eq_false_iff, decide_eq_false_iff_not,
      beq_eq_false_iff_ne]
    omega
  refine @IdentifierLaws.mk asciiUnicode (fun s hs c hc => ?_) (fun s hs c hc => ?_) fun s hs hc => ?_
  · exact hspace s hs c (List.mem_of_head? hc)
  · exact hspace s hs c (List.mem_of_getLast? hc)
  · have := hchars s hs colon hc
    simp [colon] at this

/-- An enabled declaration. -/
def exampleDeclaration (path : PyStr) : ScriptFileRow := ⟨7, path, true, .pending, [], none⟩

omit [Unicode] [Hashing] in
/-- Two rows that were saved in another order than that of their paths. -/
theorem validateScriptFileSnapshot_of_saved_two :
    let rows := [(1, exampleDeclaration (py "b.py")), (2, exampleDeclaration (py "a.py"))]
    @validateScriptFileSnapshot asciiUnicode (tableHashing [])
        (Json.stored (.arr ((buildScriptFileSnapshot rows).map SnapshotEntry.toJson)))
        (@snapshotDigest (tableHashing []) (buildScriptFileSnapshot rows)) = .ok () := by
  intro rows
  have hfirst : @Saved asciiUnicode
      ((Table.startingAt 1).insert (exampleDeclaration (py "b.py"))) :=
    @Saved.save asciiUnicode _ _ (@Saved.empty asciiUnicode 1 Nat.one_pos)
      ⟨none, 7, py "b.py", true⟩ .all rfl
  have hsaved : @Saved asciiUnicode (((Table.startingAt 1).insert
      (exampleDeclaration (py "b.py"))).insert (exampleDeclaration (py "a.py"))) :=
    @Saved.save asciiUnicode _ _ hfirst ⟨none, 7, py "a.py", true⟩ .all rfl
  refine @validateScriptFileSnapshot_of_saved asciiUnicode _ (tableHashing []) identifierLaws_ascii
    hsaved 7 rows ?_ (by decide)
  intro row hrow
  rcases List.mem_pair.mp hrow with rfl | rfl <;> exact ⟨rfl, rfl, rfl⟩

end Snapshot

end NetBoxScripts
