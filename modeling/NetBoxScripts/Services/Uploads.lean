import NetBoxScripts.Concurrency.Trace
import NetBoxScripts.Database.World
import NetBoxScripts.Models.Declarations

/-!
# Uploads to one project

`ingestion.py` for an uploaded project: a browser upload checks and declares its path in the
request's transaction and stores the content once that has committed, a REST upload does both
under one hold of the project's lock. Each critical section is one event.

## Main definitions

* `checkUploadConflicts`, `declareScriptFile`, `prepareUpload`: the checks and the declaration
* `UploadState`, `uploadStep`: the machine
* `unreserved`: no upload is confirmed over an unconfirmed one that is still to be stored

## Main results

* `replaced_only_confirmed`: then only a confirmed upload replaces content
* `replaced_unconfirmed`: an unconfirmed one that is stored late replaces what came before it
-/

namespace NetBoxScripts

section Uploads

variable [Unicode]

/-- How an upload is refused. -/
inductive UploadRefusal
  | unsafePath (failure : PathFailure)
  | notPython
  | unimportable (error : PathNameError)
  /-- The project holds the path. -/
  | held
  /-- An upload of the path has not finished storing. -/
  | reserved
  | declaration (refusal : SaveRefusal)
  | permission
  deriving DecidableEq, Repr

/-- `uploaded_source_path(filename)` -/
def uploadedSourcePath (filename : PyStr) : Except UploadRefusal PyStr :=
  match normalizeSourcePath filename with
  | .error failure => .error (.unsafePath failure)
  | .ok path =>
    if (py ".py").isSuffixOf path = false then .error .notPython
    else
      match sourcePathToDottedName path with
      | .error error => .error (.unimportable error)
      | .ok _ => .ok path

/-- `ScriptFile.objects.filter(project=project, source_path=path).first()` -/
def declarationOf (files : Table ScriptFileRow) (project : Id) (path : PyStr) :
    Option (Id × ScriptFileRow) :=
  files.entries.find? fun file => file.2.project = project ∧ file.2.sourcePath = path

/-- A new declaration, as a caller builds it. -/
def newDeclaration (project : Id) (path : PyStr) : ScriptFileInstance := ⟨none, project, path, true⟩

/-- `check_upload_conflicts(project, path, confirm_replace=...)` of an uploaded project; what
`full_clean` refuses of a new declaration is what its save refuses. -/
def checkUploadConflicts (tree : Tree) (files : Table ScriptFileRow) (project : Id) (path : PyStr)
    (confirmReplace : Bool) : Except UploadRefusal Unit :=
  let declared := (declarationOf files project path).isSome
  if confirmReplace = false ∧ (tree path).isSome then .error .held
  else if confirmReplace = false ∧ declared then .error .reserved
  else if declared then .ok ()
  else
    match saveDeclaration files (newDeclaration project path) .all with
    | .error refusal => .error (.declaration refusal)
    | .ok _ => .ok ()

/-- `declare_script_file(project, path, using, user=user)`; the permission is the user's. -/
def declareScriptFile (files : Table ScriptFileRow) (project : Id) (path : PyStr)
    (permitted : Bool) : Except UploadRefusal (Table ScriptFileRow) :=
  match declarationOf files project path with
  | none =>
    match saveDeclaration files (newDeclaration project path) .all with
    | .error refusal => .error (.declaration refusal)
    | .ok files => if permitted then .ok files else .error .permission
  | some (pk, row) =>
    if row.enabled then .ok files
    else if permitted then
      match saveDeclaration files ⟨some pk, project, path, true⟩ .enabled with
      | .error refusal => .error (.declaration refusal)
      | .ok files => .ok files
    else .error .permission

/-- `prepare_upload(project, filename=..., confirm_replace=..., user=...)` -/
def prepareUpload (tree : Tree) (files : Table ScriptFileRow) (project : Id) (filename : PyStr)
    (confirmReplace permitted : Bool) : Except UploadRefusal (PyStr × Table ScriptFileRow) := do
  let path ← uploadedSourcePath filename
  checkUploadConflicts tree files project path confirmReplace
  let files ← declareScriptFile files project path permitted
  return (path, files)

/-- An upload whose request has committed and whose content is still to be stored. -/
structure Upload where
  path : PyStr
  content : Bytes
  confirmReplace : Bool
  deriving DecidableEq, Repr

/-- A project, with the accepted source it holds. -/
structure UploadState where
  tree : Tree
  files : Table ScriptFileRow
  inFlight : List (ℕ × Upload)

/-- What happens to a project. -/
inductive UploadEvent
  /-- The request of a browser upload. -/
  | browser (r : ℕ) (filename : PyStr) (content : Bytes) (confirmReplace permitted : Bool)
  /-- Its ingestion; `stored` is whether the merged tree was stored and accepted. -/
  | ingest (r : ℕ) (stored : Bool)
  | rest (filename : PyStr) (content : Bytes) (confirmReplace permitted stored : Bool)
  deriving DecidableEq, Repr

/-- The accepted source after an ingestion. -/
def Tree.merge (tree : Tree) (path : PyStr) (content : Bytes) (stored : Bool) : Tree :=
  if stored then Function.update tree path (some content) else tree

/-- One critical section. -/
def uploadStep (project : Id) (s : UploadState) : UploadEvent → Option UploadState
  | .browser r filename content confirmReplace permitted =>
    if r ∈ s.inFlight.map Prod.fst then none
    else
      match prepareUpload s.tree s.files project filename confirmReplace permitted with
      | .error _ => some s
      | .ok (path, files) => some
        { s with files, inFlight := (r, ⟨path, content, confirmReplace⟩) :: s.inFlight }
  | .ingest r stored =>
    (s.inFlight.find? fun upload => upload.1 = r).map fun upload =>
      { s with
        tree := s.tree.merge upload.2.path upload.2.content stored
        inFlight := s.inFlight.filter fun other => other.1 ≠ r }
  | .rest filename content confirmReplace permitted stored =>
    match prepareUpload s.tree s.files project filename confirmReplace permitted with
    | .error _ => some s
    | .ok (path, files) => some { s with files, tree := s.tree.merge path content stored }

/-- The caller of the upload that an event stores confirmed replacement. -/
def UploadState.confirmed (s : UploadState) : UploadEvent → Bool
  | .browser .. => false
  | .ingest r _ => (s.inFlight.find? fun upload => upload.1 = r).any (·.2.confirmReplace)
  | .rest _ _ confirmReplace _ _ => confirmReplace

/-- Every upload of a path that is still to be stored was confirmed. -/
def UploadState.settled (s : UploadState) (filename : PyStr) : Bool :=
  s.inFlight.all fun upload =>
    upload.2.confirmReplace || decide (uploadedSourcePath filename ≠ .ok upload.2.path)

/-- Nobody confirms an upload while an unconfirmed one of its path is still to be stored. -/
def unreserved (s : UploadState) : UploadEvent → Bool
  | .browser _ filename _ confirmReplace _ => !confirmReplace || s.settled filename
  | .ingest _ _ => true
  | .rest filename _ confirmReplace _ _ => !confirmReplace || s.settled filename

/-! ## What a preparation leaves -/

section Prepare

variable {files files' : Table ScriptFileRow} {project : Id} {path path' filename : PyStr}
  {tree : Tree} {confirmReplace permitted : Bool}

omit [Unicode] in
/-- A path is declared where some row of the project has it. -/
theorem isSome_declarationOf : (declarationOf files project path).isSome = true ↔
    ∃ pk row, files.row pk = some row ∧ row.project = project ∧ row.sourcePath = path := by
  rw [declarationOf, List.find?_isSome]
  constructor
  · rintro ⟨⟨pk, row⟩, hmem, hrow⟩
    obtain ⟨hproject, hpath⟩ := of_decide_eq_true hrow
    exact ⟨pk, row, Table.mem_entries.mp hmem, hproject, hpath⟩
  · rintro ⟨pk, row, hrow, hproject, hpath⟩
    exact ⟨(pk, row), Table.mem_entries.mpr hrow, decide_eq_true ⟨hproject, hpath⟩⟩

/-- The row that saving a new declaration adds. -/
theorem saveDeclaration_new (h : saveDeclaration files (newDeclaration project path) .all =
    .ok files') : ∃ canonical, normalizeSourcePath path = .ok canonical ∧
      files' = files.insert ⟨project, canonical, true, .pending, [], none⟩ := by
  unfold saveDeclaration at h
  split at h
  · cases h
  next canonical hcanonical =>
  split at h
  · cases h
  split_ifs at h
  dsimp only [newDeclaration, insertDeclaration] at h
  split at h
  · cases h
  exact ⟨canonical, hcanonical, (Except.ok.inj h).symm⟩

/-- Enabling a declaration leaves its path. -/
theorem saveDeclaration_enable {pk : Id}
    (h : saveDeclaration files ⟨some pk, project, path, true⟩ .enabled = .ok files') :
    files' = files.modify pk fun row => { row with enabled := true } := by
  unfold saveDeclaration at h
  split at h
  · cases h
  split at h
  · cases h
  rw [if_neg fun hnew => by simp at hnew] at h
  dsimp only at h
  split at h
  · cases h
  split at h
  · cases h
  exact (Except.ok.inj h).symm

omit [Unicode] in
theorem declared_modify {pk : Id} (h : (declarationOf files project path').isSome = true) :
    (declarationOf (files.modify pk fun row => { row with enabled := true }) project
      path').isSome = true := by
  obtain ⟨i, row, hrow, hproject, hpath⟩ := isSome_declarationOf.mp h
  rw [isSome_declarationOf]
  rcases eq_or_ne i pk with rfl | hi
  · exact ⟨i, { row with enabled := true }, by simp [hrow], hproject, hpath⟩
  · exact ⟨i, row, (Table.row_modify_of_ne hi).trans hrow, hproject, hpath⟩

/-- A declaration of a canonical path is there, and so is each that was. -/
theorem declareScriptFile_ok (hcanonical : normalizeSourcePath path = .ok path)
    (h : declareScriptFile files project path permitted = .ok files') :
    (declarationOf files' project path).isSome = true ∧ ∀ path',
      (declarationOf files project path').isSome = true →
        (declarationOf files' project path').isSome = true := by
  unfold declareScriptFile at h
  split at h
  · split at h
    · cases h
    next saved hsave =>
    split_ifs at h
    cases h
    obtain ⟨canonical, hpath, rfl⟩ := saveDeclaration_new hsave
    obtain rfl := Except.ok.inj (hcanonical.symm.trans hpath)
    refine ⟨isSome_declarationOf.mpr ⟨_, _, Table.row_insert_next, rfl, rfl⟩, fun path' hpath' => ?_⟩
    obtain ⟨i, row, hrow, hrest⟩ := isSome_declarationOf.mp hpath'
    exact isSome_declarationOf.mpr ⟨i, row, Table.row_insert_of_row hrow, hrest⟩
  · next pk row hfound =>
    have hdeclared : (declarationOf files project path).isSome = true := by rw [hfound]; rfl
    split_ifs at h
    · cases h
      exact ⟨hdeclared, fun _ hpath' => hpath'⟩
    · split at h
      · cases h
      next saved hsave =>
      cases h
      obtain rfl := saveDeclaration_enable hsave
      exact ⟨declared_modify hdeclared, fun _ hpath' => declared_modify hpath'⟩

/-- An uploaded path is canonical. -/
theorem uploadedSourcePath_ok (hlaws : IdentifierLaws)
    (h : uploadedSourcePath filename = .ok path) : Importable path := by
  unfold uploadedSourcePath at h
  split at h
  · cases h
  next canonical hcanonical =>
  split_ifs at h
  split at h
  · cases h
  next dotted hdotted =>
  cases h
  exact importable_of_dotted hlaws hcanonical hdotted

/-- **What a preparation has checked and left**. -/
theorem prepareUpload_ok (hlaws : IdentifierLaws)
    (h : prepareUpload tree files project filename confirmReplace permitted = .ok (path, files')) :
    uploadedSourcePath filename = .ok path ∧ (confirmReplace = false → tree path = none ∧
      (declarationOf files project path).isSome = false) ∧
    (declarationOf files' project path).isSome = true ∧ ∀ path',
      (declarationOf files project path').isSome = true →
        (declarationOf files' project path').isSome = true := by
  unfold prepareUpload at h
  obtain ⟨path₁, hpath, h⟩ := Except.bind_eq_ok_iff.mp h
  obtain ⟨⟨⟩, hcheck, h⟩ := Except.bind_eq_ok_iff.mp h
  obtain ⟨files₁, hdeclare, h⟩ := Except.bind_eq_ok_iff.mp h
  cases h
  refine ⟨hpath, fun hconfirm => ?_,
    declareScriptFile_ok (uploadedSourcePath_ok hlaws hpath).canonical hdeclare⟩
  subst hconfirm
  simp only [checkUploadConflicts, true_and] at hcheck
  split_ifs at hcheck with hheld hreserved
  exact ⟨by simpa using hheld, by simpa using hreserved⟩

end Prepare

/-! ## Runs -/

section Runs

variable {project : Id} {s s' : UploadState} {e : UploadEvent}

/-- Paths that are to be stored are declared, and an unconfirmed one is nowhere else. -/
structure Reserved (project : Id) (s : UploadState) : Prop where
  ids : (s.inFlight.map Prod.fst).Nodup
  declared : ∀ x ∈ s.inFlight, (declarationOf s.files project x.2.path).isSome = true
  alone : ∀ x ∈ s.inFlight, x.2.confirmReplace = false → s.tree x.2.path = none ∧
    ∀ y ∈ s.inFlight, y.2.path = x.2.path → y.1 = x.1

omit [Unicode] in
theorem Tree.merge_of_ne {tree : Tree} {path path' : PyStr} {content : Bytes} {stored : Bool}
    (h : path' ≠ path) : tree.merge path content stored path' = tree path' := by
  unfold Tree.merge
  split_ifs
  · exact Function.update_of_ne h ..
  · rfl

/-- A path whose upload is confirmed has no unconfirmed one that is to be stored. -/
theorem UploadState.confirmed_of_settled {filename path : PyStr}
    (h : s.settled filename = true) (hpath : uploadedSourcePath filename = .ok path)
    {x : ℕ × Upload} (hx : x ∈ s.inFlight) (hxpath : x.2.path = path) :
    x.2.confirmReplace = true := by
  have := List.all_eq_true.mp h x hx
  rw [Bool.or_eq_true, decide_eq_true_eq] at this
  exact this.resolve_right fun hne => hne (hxpath ▸ hpath)

/-- **One event** keeps the reservations, where nobody confirms over one. -/
theorem Reserved.step (hlaws : IdentifierLaws) (h : Reserved project s)
    (hok : unreserved s e = true) (hstep : uploadStep project s e = some s') :
    Reserved project s' := by
  cases e with
  | browser r filename content confirmReplace permitted =>
    simp only [uploadStep] at hstep
    split_ifs at hstep with hr
    split at hstep
    · cases hstep
      exact h
    next path files hprepare =>
    cases hstep
    obtain ⟨hpath, hfree, hdeclared, hkept⟩ := prepareUpload_ok hlaws hprepare
    -- an unconfirmed upload of this path, before or now, meets no other one
    have hother : ∀ x ∈ s.inFlight, x.2.path = path →
        x.2.confirmReplace = true ∧ confirmReplace = true := by
      intro x hx hxpath
      have hconfirm : confirmReplace = true := by
        by_contra hunconfirmed
        have := (hfree (by simpa using hunconfirmed)).2
        rw [← hxpath, h.declared x hx] at this
        cases this
      subst hconfirm
      exact ⟨UploadState.confirmed_of_settled (by simpa [unreserved] using hok) hpath hx hxpath, rfl⟩
    refine ⟨List.nodup_cons.mpr ⟨hr, h.ids⟩, fun x hx => ?_, fun x hx hunconfirmed => ?_⟩
    · rcases List.mem_cons.mp hx with rfl | hx
      · exact hdeclared
      · exact hkept _ (h.declared x hx)
    · rcases List.mem_cons.mp hx with rfl | hx
      · refine ⟨(hfree hunconfirmed).1, fun y hy hypath => ?_⟩
        rcases List.mem_cons.mp hy with rfl | hy
        · rfl
        · exact absurd ((hother y hy hypath).2.symm.trans hunconfirmed) (by decide)
      · obtain ⟨hnone, halone⟩ := h.alone x hx hunconfirmed
        refine ⟨hnone, fun y hy hypath => ?_⟩
        rcases List.mem_cons.mp hy with rfl | hy
        · exact absurd ((hother x hx hypath.symm).1.symm.trans hunconfirmed) (by decide)
        · exact halone y hy hypath
  | ingest r stored =>
    obtain ⟨⟨r', upload⟩, hfind, rfl⟩ := Option.map_eq_some_iff.mp hstep
    have hupload := List.mem_of_find?_eq_some hfind
    obtain rfl : r' = r := by simpa using List.find?_some hfind
    have hfilter : ∀ {x}, x ∈ s.inFlight.filter (fun other => other.1 ≠ r') →
        x ∈ s.inFlight ∧ x.1 ≠ r' := by
      intro x hx
      simpa using List.mem_filter.mp hx
    refine ⟨(List.filter_sublist.map _).nodup h.ids, fun x hx => h.declared x (hfilter hx).1,
      fun x hx hunconfirmed => ?_⟩
    obtain ⟨hx, hne⟩ := hfilter hx
    obtain ⟨hnone, halone⟩ := h.alone x hx hunconfirmed
    refine ⟨?_, fun y hy hypath => halone y (hfilter hy).1 hypath⟩
    show s.tree.merge upload.path upload.content stored x.2.path = none
    rw [Tree.merge_of_ne fun heq => hne (halone _ hupload heq.symm).symm]
    exact hnone
  | rest filename content confirmReplace permitted stored =>
    simp only [uploadStep] at hstep
    split at hstep
    · cases hstep
      exact h
    next path files hprepare =>
    cases hstep
    obtain ⟨hpath, hfree, hdeclared, hkept⟩ := prepareUpload_ok hlaws hprepare
    refine ⟨h.ids, fun x hx => hkept _ (h.declared x hx), fun x hx hunconfirmed => ?_⟩
    obtain ⟨hnone, halone⟩ := h.alone x hx hunconfirmed
    refine ⟨?_, halone⟩
    show s.tree.merge path content stored x.2.path = none
    rw [Tree.merge_of_ne]
    · exact hnone
    · intro hxpath
      cases confirmReplace with
      | false =>
        have := (hfree rfl).2
        rw [← hxpath, h.declared x hx] at this
        cases this
      | true =>
        have hsettled : s.settled filename = true := by simpa [unreserved] using hok
        have := UploadState.confirmed_of_settled hsettled hpath hx hxpath
        exact absurd (this.symm.trans hunconfirmed) (by decide)

/-- What an event stores over other content was confirmed. -/
theorem Reserved.replaces (hlaws : IdentifierLaws) (h : Reserved project s)
    (hstep : uploadStep project s e = some s') {path : PyStr} {old new : Bytes}
    (hold : s.tree path = some old) (hnew : s'.tree path = some new) (hne : new ≠ old) :
    s.confirmed e = true := by
  have hchanged : ∀ {path' content stored}, s'.tree = s.tree.merge path' content stored →
      path = path' := by
    intro path' content stored htree
    by_contra hpath
    rw [htree, Tree.merge_of_ne hpath, hold] at hnew
    exact hne (Option.some.inj hnew).symm
  have hstays : s'.tree ≠ s.tree := by
    intro heq
    rw [heq, hold] at hnew
    exact hne (Option.some.inj hnew).symm
  cases e with
  | browser r filename content confirmReplace permitted =>
    simp only [uploadStep] at hstep
    split_ifs at hstep
    split at hstep <;> cases hstep <;> exact absurd rfl hstays
  | ingest r stored =>
    obtain ⟨⟨r', upload⟩, hfind, rfl⟩ := Option.map_eq_some_iff.mp hstep
    obtain rfl := hchanged rfl
    rw [UploadState.confirmed, hfind, Option.any_some]
    by_contra hunconfirmed
    have := (h.alone _ (List.mem_of_find?_eq_some hfind) (by simpa using hunconfirmed)).1
    rw [hold] at this
    cases this
  | rest filename content confirmReplace permitted stored =>
    simp only [uploadStep] at hstep
    split at hstep
    · cases hstep
      exact absurd rfl hstays
    next path' files hprepare =>
    cases hstep
    obtain rfl := hchanged rfl
    rw [UploadState.confirmed]
    by_contra hunconfirmed
    have := ((prepareUpload_ok hlaws hprepare).2.1 (by simpa using hunconfirmed)).1
    rw [hold] at this
    cases this

/-- **Content is replaced only by a confirmed upload**, in every run in which nobody confirms an
upload while an unconfirmed one of its path is still to be stored. -/
theorem replaced_only_confirmed (hlaws : IdentifierLaws) {tree : Tree}
    {files : Table ScriptFileRow}
    (htrace : Trace (uploadStep project) (fun s e => unreserved s e = true) ⟨tree, files, []⟩ s)
    (hstep : uploadStep project s e = some s') {path : PyStr} {old new : Bytes}
    (hold : s.tree path = some old) (hnew : s'.tree path = some new) (hne : new ≠ old) :
    s.confirmed e = true := by
  have hstart : Reserved project ⟨tree, files, []⟩ :=
    ⟨List.nodup_nil, fun x hx => (List.not_mem_nil hx).elim, fun x hx => (List.not_mem_nil hx).elim⟩
  exact (htrace.invariant hstart fun _ _ _ h hok hstep => h.step hlaws hok hstep).replaces hlaws
    hstep hold hnew hne

end Runs

end Uploads

/-! ## Two uploads of one path -/

/-- A project that holds nothing. -/
def noUploads : UploadState := ⟨fun _ => none, .startingAt 1, []⟩

/-- An upload is stored, and another, confirmed, replaces it. -/
theorem replaced_only_confirmed_twice :
    ∃ s s', @uploadStep asciiUnicode 1 s (.ingest 1 true) = some s' ∧
      s.tree (py "a.py") = some [97] ∧ s'.tree (py "a.py") = some [98] ∧
        s.confirmed (.ingest 1 true) = true := by
  have hrun : ((Trace.run (@uploadStep asciiUnicode 1) (@unreserved asciiUnicode) noUploads
      [.browser 0 (py "a.py") [97] false true, .ingest 0 true,
        .browser 1 (py "a.py") [98] true true]).map fun s => (s.tree (py "a.py"),
      (@uploadStep asciiUnicode 1 s (.ingest 1 true)).map fun s' => s'.tree (py "a.py"))) =
        some (some [97], some (some [98])) := by decide +kernel
  obtain ⟨s, hs, hrun⟩ := Option.map_eq_some_iff.mp hrun
  obtain ⟨hold, hnext⟩ := Prod.mk.inj hrun
  obtain ⟨s', hstep, hnew⟩ := Option.map_eq_some_iff.mp hnext
  have htrace : Trace (@uploadStep asciiUnicode 1) (fun s e => @unreserved asciiUnicode s e = true)
      ⟨fun _ => none, .startingAt 1, []⟩ s := Trace.of_run .start hs
  exact ⟨s, s', hstep, hold, hnew, @replaced_only_confirmed asciiUnicode 1 s s' _
    identifierLaws_ascii _ _ htrace hstep _ _ _ hold hnew (by decide)⟩

/-- An upload that nobody confirmed, stored after a confirmed one that came in meanwhile. -/
theorem replaced_unconfirmed :
    ∃ s s', Trace (@uploadStep asciiUnicode 1) (fun _ _ => True) noUploads s ∧
      @uploadStep asciiUnicode 1 s (.ingest 0 true) = some s' ∧
      s.tree (py "a.py") = some [98] ∧ s'.tree (py "a.py") = some [97] ∧
        s.confirmed (.ingest 0 true) = false := by
  have hrun : ((Trace.run (@uploadStep asciiUnicode 1) (fun _ _ => true) noUploads
      [.browser 0 (py "a.py") [97] false true, .browser 1 (py "a.py") [98] true true,
        .ingest 1 true]).map fun s => (s.tree (py "a.py"), s.confirmed (.ingest 0 true),
      (@uploadStep asciiUnicode 1 s (.ingest 0 true)).map fun s' => s'.tree (py "a.py"))) =
        some (some [98], false, some (some [97])) := by decide +kernel
  obtain ⟨s, hs, hrun⟩ := Option.map_eq_some_iff.mp hrun
  obtain ⟨hold, hrun⟩ := Prod.mk.inj hrun
  obtain ⟨hunconfirmed, hnext⟩ := Prod.mk.inj hrun
  obtain ⟨s', hstep, hnew⟩ := Option.map_eq_some_iff.mp hnext
  exact ⟨s, s', (Trace.start.of_run hs).mono fun _ _ _ => trivial, hstep, hold, hnew,
    hunconfirmed⟩

end NetBoxScripts
