import Mathlib.Data.List.Find
import NetBoxScripts.Services.Revisions
import NetBoxScripts.Services.Uploads

/-!
# The source of an uploaded project

`ingestion.py` and the refresh job (`jobs.py`) on one uploaded project: an ingestion reads the
current source back, merges one file and stages the whole, a refresh stages the current source
again. Each holds the project's lock throughout and is one event: `Services/Serial` has the
statements that it is made of.

## Main definitions

* `RevisionState.currentSourceTree`: the files of the accepted source
* `ingestUpload`, `refreshJob`: the operations
* `Filed`: what holds of the rows of a project, whatever becomes of its operations

## Main results

* `sourceStep_current`: one operation
* `currentSource_accepted`: the current source is the first one with the accepted uploads applied
  in their order
-/

namespace NetBoxScripts

/-! ## Files -/

namespace SourceFiles

/-- `files[path]` -/
def get? (files : SourceFiles) : Tree := fun path =>
  (files.items.find? fun file => file.1 = path).map Prod.snd

/-- `files[path] = content`; nothing depends on the order of the paths. -/
def set (files : SourceFiles) (path : PyStr) (content : Bytes) : SourceFiles where
  items := files.items.filter (fun file => file.1 ≠ path) ++ [(path, content)]
  nodup := by
    rw [List.map_append, List.nodup_append]
    refine ⟨(List.filter_sublist.map Prod.fst).nodup files.nodup, by simp, ?_⟩
    intro other hother last hlast
    obtain ⟨file, hfile, rfl⟩ := List.mem_map.mp hother
    obtain rfl : last = path := by simpa using hlast
    exact of_decide_eq_true (List.mem_filter.mp hfile).2

variable {files : SourceFiles} {path other : PyStr} {content bytes : Bytes}

theorem get?_eq_some_iff : files.get? path = some bytes ↔ (path, bytes) ∈ files.items := by
  rw [get?, Option.map_eq_some_iff]
  constructor
  · rintro ⟨file, hfound, rfl⟩
    obtain rfl : file.1 = path := by simpa using List.find?_some hfound
    exact List.mem_of_find?_eq_some hfound
  · intro hmem
    cases hfound : files.items.find? fun file => file.1 = path with
    | none => simpa using List.find?_eq_none.mp hfound (path, bytes) hmem
    | some file =>
      have hpath : file.1 = path := by simpa using List.find?_some hfound
      have hfile := List.mem_of_find?_eq_some hfound
      exact ⟨file, rfl, by rw [List.inj_on_of_nodup_map files.nodup hfile hmem hpath]⟩

theorem mem_set : (other, bytes) ∈ (files.set path content).items ↔
    (other ≠ path ∧ (other, bytes) ∈ files.items) ∨ (other = path ∧ bytes = content) := by
  rw [set, List.mem_append, List.mem_filter, List.mem_singleton, Prod.mk.injEq, decide_eq_true_eq]
  exact or_congr_left And.comm

/-- Setting one file is an update. -/
theorem get?_set : (files.set path content).get? = Function.update files.get? path (some content) := by
  funext other
  apply Option.ext
  intro bytes
  rw [get?_eq_some_iff, mem_set]
  by_cases hother : other = path
  · subst hother
    simp [eq_comm]
  · rw [Function.update_of_ne hother, get?_eq_some_iff]
    simp [hother]

end SourceFiles

section Sources

variable [Unicode] [Hashing]

/-- Paths that the policy takes as they are. -/
def SourceFiles.Canonical (files : SourceFiles) : Prop :=
  ∀ file ∈ files.items, normalizeSourcePath file.1 = .ok file.1

omit [Hashing] in
theorem SourceFiles.Canonical.set {files : SourceFiles} {path : PyStr} {content : Bytes}
    (h : files.Canonical) (hpath : normalizeSourcePath path = .ok path) :
    (files.set path content).Canonical := by
  rintro ⟨other, bytes⟩ hfile
  rcases SourceFiles.mem_set.mp hfile with ⟨-, hmem⟩ | ⟨rfl, -⟩
  · exact h _ hmem
  · exact hpath

omit [Hashing] in
/-- Files under canonical paths are their canonical tree. -/
theorem canonicalTree_eq_get? {files : SourceFiles} (h : files.Canonical) :
    canonicalTree files = files.get? := by
  funext path
  rw [canonicalTree, SourceFiles.get?]
  congr 1
  refine List.find?_congr fun file hfile => ?_
  rw [h file hfile]

/-! ## The current source -/

/-- The stored revisions that `latest_stored_revision` takes into account. -/
def RevisionState.storedRow (s : RevisionState) (project pk : Id) : Option RevisionRow :=
  (s.revisions.row pk).bind fun row => if row.IsStoredSource project then some row else none

/-- `latest_stored_revision()`: the accepted source, or else the newest stored revision. -/
def RevisionState.latestStoredRevision (s : RevisionState) (project : Id) :
    Option (Id × RevisionRow) :=
  (s.sourceRevision.bind fun pk => (s.storedRow project pk).map fun row => (pk, row)).or
    ((s.revisions.entries.filterMap fun revision =>
        if revision.2.IsStoredSource project then some revision else none).foldl
      (fun newest revision =>
        if newest.all fun best => best.2.created ≤ revision.2.created then some revision
        else newest) none)

/-- Every file of a manifest, verified. An accepted manifest names each path once. -/
def readStored (manifest : List ManifestEntry) (content : Tree) :
    Except StagingFailure SourceFiles :=
  match verifyStored .none manifest content with
  | .error failure => .error failure
  | .ok () =>
    let items := manifest.filterMap fun entry =>
      (content entry.path).map fun bytes => (entry.path, bytes)
    if h : (items.map Prod.fst).Nodup then .ok ⟨items, h⟩ else .error .revisionCorrupt

/-- `read_revision_tree(storage, storage_key, digest, manifest)` -/
def readRevision (row : RevisionRow) (content : PyStr → Tree) : Except StagingFailure SourceFiles :=
  match validateManifest (.arr (row.manifest.map ManifestEntry.toJson)) row.digest with
  | .error _ => .error .revisionCorrupt
  | .ok () => readStored row.manifest (content (row.digest.getD []))

/-- `current_source_tree(project)` -/
def RevisionState.currentSourceTree (s : RevisionState) (project : Id) :
    Except StagingFailure SourceFiles :=
  match s.latestStoredRevision project with
  | none => .ok ⟨[], List.nodup_nil⟩
  | some (_, row) => readRevision row s.content

/-! ## Operations -/

/-- One upload, and what it meets: the permission of its user, the limits, whether the current
source can be read, and what storage makes of the staging. -/
structure Ingestion where
  filename : PyStr
  content : Bytes
  declare : Bool
  permitted : Bool
  activateOnce : Bool
  limits : StorageLimits
  readable : Bool
  fault : StorageFault
  now : Time

/-- How an upload fails. -/
inductive IngestionFailure
  | refused (refusal : UploadRefusal)
  | failed (failure : StagingFailure)

/-- `if declare: prepare_upload(project, filename=path, confirm_replace=True, user=user)`; a
confirmed upload does not ask which paths are held. -/
def Ingestion.declared (upload : Ingestion) (project : Id) (path : PyStr)
    (files : Table ScriptFileRow) : Except UploadRefusal (Table ScriptFileRow) :=
  if upload.declare then
    match prepareUpload (fun _ => none) files project path true upload.permitted with
    | .error refusal => .error refusal
    | .ok (_, files) => .ok files
  else .ok files

/-- `ingest_upload(project, filename=…, content=…, declare=…, activate_once=…, user=…)` -/
def ingestUpload (project : Id) (upload : Ingestion) (s : RevisionState) :
    Except IngestionFailure StagedRevision × RevisionState :=
  match uploadedSourcePath upload.filename with
  | .error refusal => (.error (.refused refusal), s)
  | .ok path =>
    match upload.declared project path s.files with
    | .error refusal => (.error (.refused refusal), s)
    | .ok files =>
      let s := { s with files }
      match if upload.readable then s.currentSourceTree project else .error .storageError with
      | .error failure => (.error (.failed failure), s)
      | .ok tree =>
        match stageRevision project (tree.set path upload.content) upload.limits upload.fault
            upload.now s with
        | (.error failure, s) => (.error (.failed failure), s)
        | (.ok staged, s) => (.ok staged, s.acceptSource staged.revision upload.activateOnce)

/-- `ProjectScriptFileRefreshJob.run(project_id)` -/
def refreshJob (project : Id) (fault : StorageFault) (now : Time) (s : RevisionState) :
    RevisionState :=
  match s.latestStoredRevision project with
  | none => s
  | some (pk, _) =>
    match refreshRevisionScriptFiles pk fault now s with
    | (.error _, s) => s
    | (.ok staged, s) => s.acceptSource staged.revision false

/-- A project, and the uploads it accepted, in the order they held its lock. -/
structure SourceState where
  project : RevisionState
  accepted : List (PyStr × Bytes)

/-- An operation, or a change of the declarations between operations. -/
inductive SourceEvent
  | ingest (upload : Ingestion)
  | refresh (fault : StorageFault) (now : Time)
  | declare (files : Table ScriptFileRow)

/-- One event, under the project's lock (`Serial.ingest_alone`, `Serial.refreshSource_alone`). An
upload is accepted where its revision has a digest. -/
def sourceStep (project : Id) (s : SourceState) : SourceEvent → Option SourceState
  | .ingest upload =>
    let (result, next) := ingestUpload project upload s.project
    match result, uploadedSourcePath upload.filename with
    | .ok staged, .ok path =>
      if ((next.revisions.row staged.revision).bind RevisionRow.digest).isSome then
        some ⟨next, s.accepted ++ [(path, upload.content)]⟩
      else some { s with project := next }
    | _, _ => some { s with project := next }
  | .refresh fault now => some { s with project := refreshJob project fault now s.project }
  | .declare files => some { s with project := { s.project with files } }

/-- A tree with uploads applied one after another. -/
def Tree.apply (tree : Tree) (uploads : List (PyStr × Bytes)) : Tree :=
  uploads.foldl (fun tree upload => Function.update tree upload.1 (some upload.2)) tree

/-! ## Sound rows -/

/-- A row with a digest records one tree by it, and a stored one can be read. -/
structure RevisionRow.Sound (row : RevisionRow) (project : Id) (content : PyStr → Tree) : Prop where
  addressed : ∀ digest, row.digest = some digest →
    digest = manifestDigest row.manifest ∧ ∃ tree, Describes row.manifest tree
  stored : row.IsStoredSource project → Trusted row.manifest ∧ ∀ entry ∈ row.manifest,
    ∃ bytes, content (row.digest.getD []) entry.path = some bytes ∧ Intact bytes entry

/-- Every row of a project is sound. -/
def Filed (project : Id) (s : RevisionState) : Prop :=
  ∀ i row, s.revisions.row i = some row → row.project = project → row.Sound project s.content

/-- What the current source is read from is the same. -/
structure Agree (project : Id) (s s' : RevisionState) : Prop where
  rows : ∀ i, s'.storedRow project i = s.storedRow project i
  source : s'.sourceRevision = s.sourceRevision
  content : ∀ i row, s.storedRow project i = some row → ∀ entry ∈ row.manifest,
    s'.content (row.digest.getD []) entry.path = s.content (row.digest.getD []) entry.path

section Agreement

variable {project pk : Id} {s s' s'' : RevisionState} {row : RevisionRow}

omit [Unicode] [Hashing] in
theorem storedRow_eq_some : s.storedRow project pk = some row ↔
    s.revisions.row pk = some row ∧ row.IsStoredSource project := by
  simp only [RevisionState.storedRow, Option.bind_eq_some_iff, Option.ite_none_right_eq_some,
    Option.some_inj]
  constructor
  · rintro ⟨other, hrow, hstored, rfl⟩
    exact ⟨hrow, hstored⟩
  · rintro ⟨hrow, hstored⟩
    exact ⟨row, hrow, hstored, rfl⟩

omit [Unicode] [Hashing] in
theorem Agree.refl (s : RevisionState) : Agree project s s :=
  ⟨fun _ => rfl, rfl, fun _ _ _ _ _ => rfl⟩

omit [Unicode] [Hashing] in
theorem Agree.trans (h : Agree project s s') (h' : Agree project s' s'') :
    Agree project s s'' := by
  constructor
  · exact fun i => (h'.rows i).trans (h.rows i)
  · exact h'.source.trans h.source
  · intro i row hrow entry hentry
    have hrow' : s'.storedRow project i = some row := (h.rows i).trans hrow
    exact (h'.content i row hrow' entry hentry).trans (h.content i row hrow entry hentry)

omit [Unicode] [Hashing] in
theorem Agree.latestStoredRevision (h : Agree project s s') :
    s'.latestStoredRevision project = s.latestStoredRevision project := by
  have hentries : (s'.revisions.entries.filterMap fun revision =>
      if revision.2.IsStoredSource project then some revision else none) =
      s.revisions.entries.filterMap fun revision =>
        if revision.2.IsStoredSource project then some revision else none := by
    refine Table.filterMap_entries_congr fun i => ?_
    have hpair : ∀ s : RevisionState, ((s.revisions.row i).bind fun row =>
        if row.IsStoredSource project then some (i, row) else none) =
          (s.storedRow project i).map fun row => (i, row) := by
      intro s
      rw [RevisionState.storedRow, Option.map_bind]
      congr 1
      funext row
      simp only [Function.comp_apply]
      split_ifs <;> rfl
    rw [hpair, hpair, h.rows]
  rw [RevisionState.latestStoredRevision, RevisionState.latestStoredRevision, hentries, h.source]
  congr 2
  funext pk
  rw [h.rows]

omit [Unicode] [Hashing] in
/-- The latest stored revision is stored. -/
theorem storedRow_of_latestStoredRevision
    (h : s.latestStoredRevision project = some (pk, row)) : s.storedRow project pk = some row := by
  have hnewest : ∀ (entries : List (Id × RevisionRow)) (newest : Option (Id × RevisionRow)),
      (∀ revision ∈ newest, s.storedRow project revision.1 = some revision.2) →
      (∀ revision ∈ entries, s.storedRow project revision.1 = some revision.2) →
      ∀ revision ∈ entries.foldl (fun newest revision =>
          if newest.all fun best => best.2.created ≤ revision.2.created then some revision
          else newest) newest, s.storedRow project revision.1 = some revision.2 := by
    intro entries
    induction entries with
    | nil => exact fun _ h _ => h
    | cons entry entries ih =>
      intro newest hnewest hentries
      rw [List.forall_mem_cons] at hentries
      refine ih _ ?_ hentries.2
      dsimp only
      split_ifs
      · rintro revision ⟨⟩
        exact hentries.1
      · exact hnewest
  rw [RevisionState.latestStoredRevision, Option.or_eq_some_iff] at h
  rcases h with h | ⟨-, h⟩
  · obtain ⟨source, -, h⟩ := Option.bind_eq_some_iff.mp h
    obtain ⟨row', hrow', heq⟩ := Option.map_eq_some_iff.mp h
    cases heq
    exact hrow'
  · refine hnewest _ none nofun (fun revision hrevision => ?_) (pk, row) h
    obtain ⟨entry, hentry, hif⟩ := List.mem_filterMap.mp hrevision
    split_ifs at hif with hstored
    cases hif
    exact storedRow_eq_some.mpr ⟨Table.mem_entries.mp hentry, hstored⟩

omit [Unicode] [Hashing] in
/-- An accepted row that is stored is the latest. -/
theorem latestStoredRevision_acceptSource {activateOnce : Bool}
    (hrow : s.revisions.row pk = some row) (hstored : row.IsStoredSource project) :
    (s.acceptSource pk activateOnce).latestStoredRevision project = some (pk, row) := by
  have hcondition : row.digest.isSome ∧ row.status.unstored = false := hstored.2
  have hsource : (s.acceptSource pk activateOnce).sourceRevision = some pk := by
    rw [RevisionState.acceptSource, hrow]
    dsimp only
    rw [if_pos hcondition]
  have hkept : (s.acceptSource pk activateOnce).storedRow project pk = some row := by
    rw [storedRow_eq_some]
    refine ⟨?_, hstored⟩
    rw [RevisionState.acceptSource, hrow]
    dsimp only
    rw [if_pos hcondition]
    exact hrow
  rw [RevisionState.latestStoredRevision, hsource, Option.bind_some, hkept]
  rfl

omit [Unicode] [Hashing] in
theorem acceptSource_rows {activateOnce : Bool} :
    (s.acceptSource pk activateOnce).revisions = s.revisions ∧
      (s.acceptSource pk activateOnce).content = s.content := by
  unfold RevisionState.acceptSource
  split
  · exact ⟨rfl, rfl⟩
  · split_ifs
    · exact ⟨rfl, rfl⟩
    · exact ⟨rfl, rfl⟩

omit [Unicode] [Hashing] in
/-- A row without a digest is not accepted. -/
theorem acceptSource_of_none {activateOnce : Bool} (hrow : s.revisions.row pk = some row)
    (hdigest : row.digest = none) : s.acceptSource pk activateOnce = s := by
  rw [RevisionState.acceptSource, hrow]
  dsimp only
  rw [if_neg]
  simp [hdigest]

omit [Unicode] in
theorem readStored_congr {manifest : List ManifestEntry} {content content' : Tree}
    (h : ∀ entry ∈ manifest, content entry.path = content' entry.path) :
    readStored manifest content = readStored manifest content' := by
  have hverified : verifyStored .none manifest content = verifyStored .none manifest content' := by
    rw [verifyStored, verifyStored]
    congr 2
    rw [eq_iff_iff, List.all_eq_true, List.all_eq_true]
    refine forall₂_congr fun entry hentry => ?_
    rw [h entry hentry]
  have hitems : (manifest.filterMap fun entry =>
      (content entry.path).map fun bytes => (entry.path, bytes)) =
      manifest.filterMap fun entry =>
        (content' entry.path).map fun bytes => (entry.path, bytes) := by
    refine List.filterMap_congr fun entry hentry => ?_
    rw [h entry hentry]
  rw [readStored, readStored, hverified]
  simp only [hitems]

/-- States that agree have one current source. -/
theorem Agree.currentSourceTree (h : Agree project s s') :
    s'.currentSourceTree project = s.currentSourceTree project := by
  rw [RevisionState.currentSourceTree, RevisionState.currentSourceTree, h.latestStoredRevision]
  cases hlatest : s.latestStoredRevision project with
  | none => rfl
  | some revision =>
    have hcontent := h.content revision.1 revision.2 (storedRow_of_latestStoredRevision hlatest)
    dsimp only
    rw [readRevision, readRevision, readStored_congr hcontent]

end Agreement

section Keeping

variable {project pk : Id} {s : RevisionState} {row : RevisionRow} {digest : PyStr}
  {a b : List ManifestEntry}

/-! ## Reading -/

/-- A stored row can be read, and what is read is what its manifest records. -/
theorem RevisionRow.Sound.read (h : row.Sound project s.content)
    (hstored : row.IsStoredSource project) :
    ∃ files, readRevision row s.content = .ok files ∧ files.Canonical ∧
      Describes row.manifest files.get? := by
  obtain ⟨htrusted, hintact⟩ := h.stored hstored
  obtain ⟨digest, hdigest⟩ := Option.isSome_iff_exists.mp hstored.2.1
  obtain ⟨haddress, tree, hdescribes⟩ := h.addressed digest hdigest
  let content := s.content (row.digest.getD [])
  let items := row.manifest.filterMap fun entry =>
    (content entry.path).map fun bytes => (entry.path, bytes)
  have hverified := verifyStored_of_intact hintact
  have hmem : ∀ path bytes, (path, bytes) ∈ items ↔
      path ∈ row.manifest.map ManifestEntry.path ∧ content path = some bytes := by
    intro path bytes
    simp only [items, List.mem_filterMap, Option.map_eq_some_iff, Prod.mk.injEq, List.mem_map]
    constructor
    · rintro ⟨entry, hentry, found, hfound, rfl, rfl⟩
      exact ⟨⟨entry, hentry, rfl⟩, hfound⟩
    · rintro ⟨⟨entry, hentry, rfl⟩, hbytes⟩
      exact ⟨entry, hentry, bytes, hbytes, rfl, rfl⟩
  have hpaths : (items.map Prod.fst).Sublist (row.manifest.map ManifestEntry.path) := by
    have hfst : items.map Prod.fst = row.manifest.filterMap fun entry =>
        (content entry.path).map fun _ => entry.path := by
      simp only [items, List.map_filterMap, Option.map_map]
      rfl
    rw [hfst, ← List.filterMap_eq_map]
    clear * -
    induction row.manifest with
    | nil => exact List.Sublist.refl _
    | cons entry manifest ih =>
      rw [List.filterMap_cons, List.filterMap_cons]
      cases content entry.path with
      | none => exact ih.cons _
      | some bytes => exact ih.cons_cons _
  have hnodup : (items.map Prod.fst).Nodup := hpaths.nodup htrusted.nodup
  refine ⟨⟨items, hnodup⟩, ?_, ?_, ?_⟩
  · have hvalid := (validateManifest_toJson_iff row.manifest).mpr htrusted
    rw [readRevision, hdigest, haddress, hvalid]
    dsimp only
    rw [readStored, ← haddress]
    rw [hdigest] at hverified
    simp only [Option.getD_some] at hverified ⊢
    rw [hverified]
    have hsame : (row.manifest.filterMap fun entry =>
        (s.content digest entry.path).map fun bytes => (entry.path, bytes)) = items := by
      simp only [items, content, hdigest, Option.getD_some]
    dsimp only
    simp only [hsame, hnodup, dite_true]
  · rintro ⟨path, bytes⟩ hfile
    obtain ⟨entry, hentry, rfl⟩ := List.mem_map.mp ((hmem path bytes).mp hfile).1
    exact (htrusted.acceptable entry hentry).canonical
  · have hget : SourceFiles.get? ⟨items, hnodup⟩ = fun path =>
        if path ∈ row.manifest.map ManifestEntry.path then content path else none := by
      funext path
      apply Option.ext
      intro bytes
      rw [SourceFiles.get?_eq_some_iff, hmem]
      split_ifs with hpath
      · simp [hpath]
      · simp [hpath]
    rw [hget]
    exact verifyStored_describes hdescribes hverified

/-! ## Writing -/

omit [Unicode] in
/-- A key that holds what every entry records for it is not written. -/
theorem writeEntries_intact {source content : Tree} {fault : StorageFault}
    {entries : List ManifestEntry} {path : PyStr} {bytes : Bytes}
    (hbytes : content path = some bytes)
    (hintact : ∀ entry ∈ entries, entry.path = path → Intact bytes entry) :
    (writeEntries source fault entries content).2 path = some bytes := by
  induction entries generalizing fault content with
  | nil => exact hbytes
  | cons entry entries ih =>
    rw [List.forall_mem_cons] at hintact
    rw [writeEntries]
    split
    · exact hbytes
    · split_ifs with hstored
      · exact ih hbytes hintact.2
      · -- the key of this entry is another one
        have hne : path ≠ entry.path := by
          rintro rfl
          apply hstored
          rw [hbytes, Option.any_some]
          exact decide_eq_true (hintact.1 rfl)
        have hupdate : ∀ value, Function.update content entry.path value path = some bytes :=
          fun value => (Function.update_of_ne hne _ _).trans hbytes
        dsimp only
        split
        · dsimp only
          split_ifs
          · exact hupdate none
          · exact hbytes
        · exact ih (hupdate _) hintact.2
        · exact ih (hupdate _) hintact.2

omit [Unicode] [Hashing] in
theorem storedRow_settle {i : Id} {status : RevisionStatus} {errors : List ErrorRecord}
    (hunstored : ∀ row, s.revisions.row pk = some row → row.status.unstored = true)
    (hstatus : status.unstored = true) :
    (s.settle pk status errors).storedRow project i = s.storedRow project i := by
  by_cases hi : i = pk
  · subst hi
    simp only [RevisionState.storedRow, RevisionState.settle, Table.row_modify_self]
    cases hrow : s.revisions.row i with
    | none => rfl
    | some row =>
      have hold := hunstored row hrow
      simp [RevisionRow.IsStoredSource, hold, hstatus]
  · rw [RevisionState.storedRow, RevisionState.settle, Table.row_modify_of_ne hi]
    rfl

/-! ## Changes of a state -/

theorem Filed.insert (h : Filed project s)
    (hrow : row.project = project → row.Sound project s.content) :
    Filed project { s with revisions := s.revisions.insert row } := by
  intro i other hother hproject
  rcases Table.row_insert_eq_some hother with ⟨-, rfl⟩ | hother
  · exact hrow hproject
  · exact h i other hother hproject

omit [Unicode] [Hashing] in
theorem Agree.insert (hunstored : ¬ row.IsStoredSource project) :
    Agree project s { s with revisions := s.revisions.insert row } := by
  refine ⟨fun i => ?_, rfl, fun _ _ _ _ _ => rfl⟩
  by_cases hi : i = s.revisions.next
  · subst hi
    simp [RevisionState.storedRow, Table.row_next, hunstored]
  · simp [RevisionState.storedRow, Table.row_insert, hi]

theorem Filed.settle {status : RevisionStatus} {errors : List ErrorRecord} (h : Filed project s)
    (hsound : ∀ row, s.revisions.row pk = some row → row.project = project →
      ({ row with status, validationErrors := errors } : RevisionRow).Sound project s.content) :
    Filed project (s.settle pk status errors) := by
  intro i other hother hproject
  obtain ⟨row, hrow, rfl⟩ := Table.row_modify_eq_some hother
  split_ifs at hproject ⊢ with hi
  · subst hi
    exact hsound row hrow hproject
  · exact h i row hrow hproject

/-- A status that leaves a revision unstored asks nothing of its content. -/
theorem Filed.settleUnstored {status : RevisionStatus} {errors : List ErrorRecord}
    (h : Filed project s) (hstatus : status.unstored = true) :
    Filed project (s.settle pk status errors) := by
  refine h.settle fun row hrow hproject => ⟨(h pk row hrow hproject).addressed, fun hstored => ?_⟩
  exact absurd hstored.2.2 (by simp [hstatus])

omit [Unicode] [Hashing] in
theorem Agree.settle {status : RevisionStatus} {errors : List ErrorRecord}
    (hunstored : ∀ row, s.revisions.row pk = some row → row.status.unstored = true)
    (hstatus : status.unstored = true) : Agree project s (s.settle pk status errors) :=
  ⟨fun _ => storedRow_settle hunstored hstatus, rfl, fun _ _ _ _ _ => rfl⟩

/-- What a write under a digest leaves of the stored revisions: all that they record. -/
theorem writeEntries_frame (hfree : CollisionFree) (h : Filed project s)
    {manifest : List ManifestEntry} (hreadable : ∀ entry ∈ manifest, entry.Readable)
    (source : Tree) (fault : StorageFault) {i : Id} (hrow : s.storedRow project i = some row) :
    ∀ entry ∈ row.manifest, Function.update s.content (manifestDigest manifest)
        (writeEntries source fault manifest (s.content (manifestDigest manifest))).2
          (row.digest.getD []) entry.path = s.content (row.digest.getD []) entry.path := by
  intro entry hentry
  obtain ⟨hi, hstored⟩ := storedRow_eq_some.mp hrow
  have hsound := h i row hi hstored.1
  obtain ⟨digest, hdigest⟩ := Option.isSome_iff_exists.mp hstored.2.1
  obtain ⟨haddress, tree, hdescribes⟩ := hsound.addressed digest hdigest
  obtain ⟨bytes, hbytes, hintact⟩ := (hsound.stored hstored).2 entry hentry
  rw [hdigest, Option.getD_some] at hbytes ⊢
  by_cases hsame : digest = manifestDigest manifest
  · subst hsame
    have hperm := perm_of_manifestDigest_eq hfree hreadable hdescribes.readable haddress
    rw [Function.update_self, hbytes]
    refine writeEntries_intact hbytes fun other hother hpath => ?_
    rwa [List.inj_on_of_nodup_map hdescribes.nodup (hperm.mem_iff.mp hother) hentry hpath]
  · rw [Function.update_of_ne hsame]

theorem Filed.content {content : PyStr → Tree} (h : Filed project s)
    (hcontent : ∀ i row, s.storedRow project i = some row → ∀ entry ∈ row.manifest,
      content (row.digest.getD []) entry.path = s.content (row.digest.getD []) entry.path) :
    Filed project { s with content } := by
  intro i row hrow hproject
  have hsound := h i row hrow hproject
  refine ⟨hsound.addressed, fun hstored => ⟨(hsound.stored hstored).1, fun entry hentry => ?_⟩⟩
  dsimp only
  rw [hcontent i row (storedRow_eq_some.mpr ⟨hrow, hstored⟩) entry hentry]
  exact (hsound.stored hstored).2 entry hentry

/-! ## Calls -/

/-- What a call leaves: sound rows, what the current source is read from where it returns no
digest, and otherwise a stored row of the digest. -/
structure Sourced (project : Id) (digest : Option PyStr) (s : RevisionState)
    (result : StagingResult) : Prop where
  filed : Filed project result.2
  agree : (∀ staged, result.1 = .ok staged → digest = none) → Agree project s result.2
  returned : ∀ staged, result.1 = .ok staged → ∃ row,
    result.2.revisions.row staged.revision = some row ∧ row.project = project ∧
      row.digest = digest ∧ (digest.isSome → row.IsStoredSource project)

/-- A call that raises and changes nothing that is stored. -/
theorem Sourced.raised {digest : Option PyStr} {s' : RevisionState} (h : Filed project s')
    (hagree : Agree project s s') (failure : StagingFailure) :
    Sourced project digest s (.error failure, s') :=
  ⟨h, fun _ => hagree, nofun⟩

theorem writeStaged_sourced (hfree : CollisionFree) (h : Filed project s)
    {staged : StagedRevision} (hrow : s.revisions.row staged.revision = some row)
    (hproject : row.project = project) (hdigest : row.digest = some digest)
    (hunstored : row.status.unstored = true) (files : SourceFiles) (fault : StorageFault) :
    Sourced project (some digest) s (writeStaged files fault staged row s) := by
  have hold : ∀ row, s.revisions.row staged.revision = some row → row.status.unstored = true := by
    intro other hother
    obtain rfl := Option.some.inj (hrow.symm.trans hother)
    exact hunstored
  obtain ⟨haddress, tree, hdescribes⟩ := (h _ row hrow hproject).addressed digest hdigest
  let s₁ := s.settle staged.revision .staging row.validationErrors
  have h₁ : Filed project s₁ := h.settleUnstored rfl
  have hagree₁ : Agree project s s₁ := Agree.settle hold rfl
  have hrow₁ : s₁.revisions.row staged.revision = some { row with status := .staging } := by
    simp only [s₁, RevisionState.settle, Table.row_modify_self, hrow, Option.map_some]
  have hold₁ : ∀ row, s₁.revisions.row staged.revision = some row →
      row.status.unstored = true := by
    intro other hother
    obtain rfl := Option.some.inj (hrow₁.symm.trans hother)
    rfl
  unfold writeStaged
  dsimp only
  rw [hdigest, Option.getD_some]
  split
  · exact .raised h₁ hagree₁ _
  · exact .raised (h₁.settleUnstored rfl) (hagree₁.trans (Agree.settle hold₁ rfl)) _
  · next hvalid =>
    have htrusted : Trusted row.manifest := by
      unfold validatedManifest at hvalid
      split at hvalid
      · cases hvalid
      · cases hvalid
      · next hok =>
        rw [hdigest] at hok
        exact (validateManifest_toJson_ok hok).2
    have hframe : ∀ i other, s₁.storedRow project i = some other → ∀ entry ∈ other.manifest,
        Function.update s₁.content digest
          (writeEntries (canonicalTree files) fault row.manifest (s₁.content digest)).2
            (other.digest.getD []) entry.path = s₁.content (other.digest.getD []) entry.path := by
      intro i other hother
      rw [haddress]
      exact writeEntries_frame hfree h₁ hdescribes.readable (canonicalTree files) fault hother
    rcases hwritten : writeEntries (canonicalTree files) fault row.manifest (s₁.content digest)
      with ⟨written, content⟩
    rw [hwritten] at hframe
    let s₂ : RevisionState := { s₁ with content := Function.update s₁.content digest content }
    have h₂ : Filed project s₂ := h₁.content hframe
    have hagree₂ : Agree project s s₂ := hagree₁.trans ⟨fun _ => rfl, rfl, hframe⟩
    have hrow₂ : s₂.revisions.row staged.revision = some { row with status := .staging } := hrow₁
    have hfailed : ∀ failure : StagingFailure, Sourced project (some digest) s
        (.error failure, s₂.settle staged.revision .storageFailed [.storageWriteFailed]) :=
      fun failure => .raised (h₂.settleUnstored rfl) (hagree₂.trans (Agree.settle hold₁ rfl)) _
    dsimp only
    split
    · next hverified =>
      refine ⟨h₂.settle fun other hother _ => ?_, fun hnone => ?_, ?_⟩
      · obtain rfl := Option.some.inj (hrow₂.symm.trans hother)
        refine ⟨fun _ hsome => ?_, fun _ => ⟨htrusted, fun entry hentry => ?_⟩⟩
        · obtain rfl := Option.some.inj (hdigest.symm.trans hsome)
          exact ⟨haddress, tree, hdescribes⟩
        · have hcontent : s₂.content (row.digest.getD []) = content := by
            rw [hdigest, Option.getD_some]
            exact Function.update_self ..
          rw [hcontent]
          exact verifyStored_intact hverified entry hentry
      · cases hnone staged rfl
      · intro staged' hok
        obtain rfl := Except.ok.inj hok
        refine ⟨{ row with status := .materialized, validationErrors := [] }, ?_, hproject, hdigest,
          fun _ => ⟨hproject, by simp [hdigest], rfl⟩⟩
        simp only [RevisionState.settle, Table.row_modify_self]
        rw [hrow]
        rfl
    · exact hfailed _
    · exact hfailed _

omit [Unicode] [Hashing] in
theorem unstored_of_stored {status : RevisionStatus} (h : status.stored = true) :
    status.unstored = false := by
  cases status <;> simp_all [RevisionStatus.stored, RevisionStatus.unstored]

theorem settleStaged_sourced (hfree : CollisionFree) (h : Filed project s)
    {staged : StagedRevision} (hrow : s.revisions.row staged.revision = some row)
    (hproject : row.project = project) (hdigest : row.digest = some digest)
    (files : SourceFiles) (fault : StorageFault) :
    Sourced project (some digest) s (settleStaged files fault staged s) := by
  have hreturned : row.status.unstored = false → Sourced project (some digest) s (.ok staged, s) := by
    refine fun hstored => ⟨h, fun _ => .refl s, fun staged' hok => ?_⟩
    obtain rfl := Except.ok.inj hok
    exact ⟨row, hrow, hproject, hdigest, fun _ => ⟨hproject, by simp [hdigest], hstored⟩⟩
  unfold settleStaged
  rw [hrow]
  dsimp only
  split_ifs with hstored hretry
  · split
    · exact hreturned (unstored_of_stored hstored)
    · exact .raised h (.refl s) _
    · exact .raised h (.refl s) _
  · exact hreturned (row.status.retryable_eq_unstored ▸ hretry)
  · have hunstored := row.status.retryable_eq_unstored ▸ Bool.eq_true_of_not_eq_false hretry
    exact writeStaged_sourced hfree h hrow hproject hdigest hunstored files fault

/-- A row that is found or created, and then settled. -/
theorem sourced_getOrCreate (h : Filed project s) (row : RevisionRow) {digest : Option PyStr}
    (settle : StagedRevision → RevisionState → StagingResult)
    (hproject : row.project = project) (hdigest : row.digest = digest)
    (hsound : row.Sound project s.content)
    (hsettle : ∀ staged s' found, Filed project s' → s'.content = s.content →
      s'.revisions.row staged.revision = some found → found.project = project →
      found.digest = digest → Sourced project digest s' (settle staged s'))
    (hagree : ¬ row.IsStoredSource project ∨ ∀ staged s',
      s'.revisions.row staged.revision = some row → ∃ staged', (settle staged s').1 = .ok staged')
    (hsome : digest ≠ none) :
    Sourced project digest s (settle (getOrCreate s.revisions row).2
      { s with revisions := (getOrCreate s.revisions row).1 }) := by
  rcases getOrCreate_cases s.revisions row with ⟨pk, found, heq, hfound, hsame⟩ | ⟨heq, -⟩
  · rw [heq]
    exact hsettle _ _ found h rfl hfound (hsame.1.trans hproject) (hsame.2.1.trans hdigest)
  · rw [heq]
    have hrow : (s.revisions.insert row).row s.revisions.next = some row := Table.row_insert_next
    have hsettled := hsettle ⟨s.revisions.next, true⟩ { s with revisions := s.revisions.insert row }
      row (h.insert fun _ => hsound) rfl hrow hproject hdigest
    refine ⟨hsettled.filed, fun hnone => ?_, hsettled.returned⟩
    rcases hagree with hunstored | hok
    · exact (Agree.insert hunstored).trans (hsettled.agree hnone)
    · obtain ⟨staged, hstaged⟩ := hok ⟨s.revisions.next, true⟩
        { s with revisions := s.revisions.insert row } hrow
      exact absurd (hnone staged hstaged) hsome

/-- A staging call: the digest is that of the canonical tree. -/
theorem stageRevision_sourced (hfree : CollisionFree) (h : Filed project s) (files : SourceFiles)
    (limits : StorageLimits) (fault : StorageFault) (now : Time) :
    ∃ digest, Sourced project digest s (stageRevision project files limits fault now s) ∧
      ∀ address, digest = some address → ∃ manifest, Describes manifest (canonicalTree files) ∧
        address = manifestDigest manifest := by
  unfold stageRevision
  cases hbuild : buildManifest files limits with
  | error failure => exact ⟨none, .raised h (.refl s) _, nofun⟩
  | ok built =>
    obtain ⟨entries, errors⟩ := built
    cases errors with
    | nil =>
      have hdescribes := (buildManifest_builtFrom hbuild).describes
      refine ⟨some (manifestDigest entries), ?_, fun _ hsome => ⟨entries, hdescribes,
        (Option.some.inj hsome).symm⟩⟩
      let row : RevisionRow := { stagedRow project entries (projectSnapshot project s.files) now with
        digest := some (manifestDigest entries), status := .staging }
      have hunstored : ¬ row.IsStoredSource project := fun hstored => by cases hstored.2.2
      refine sourced_getOrCreate h row (settleStaged files fault) rfl rfl ?_ ?_ (.inl hunstored)
        nofun
      · refine ⟨fun _ hsome => ?_, fun hstored => absurd hstored hunstored⟩
        obtain rfl := Option.some.inj hsome
        exact ⟨rfl, _, hdescribes⟩
      · intro staged s' found hfiled _ hfound hproject hdigest
        exact settleStaged_sourced hfree hfiled hfound hproject hdigest files fault
    | cons error errors =>
      refine ⟨none, ?_, nofun⟩
      dsimp only
      rw [if_pos (List.cons_ne_nil _ _)]
      have hunstored : ∀ row : RevisionRow, row.digest = none → ¬ row.IsStoredSource project := by
        intro row hnone hstored
        have := hstored.2.1
        simp [hnone] at this
      cases storedErrors (error :: errors) with
      | none => exact .raised h (.refl s) _
      | some stored =>
        refine ⟨h.insert fun _ => ⟨nofun, fun hstored => ?_⟩, fun _ => Agree.insert (hunstored _ rfl),
          fun staged hok => ?_⟩
        · exact absurd hstored (hunstored _ rfl)
        · obtain rfl := Except.ok.inj hok
          exact ⟨_, Table.row_insert_next, rfl, rfl, nofun⟩

/-- A refreshing call of a stored source: the digest is the source's. -/
theorem refreshRevision_sourced (hfree : CollisionFree) (h : Filed project s) {source : RevisionRow}
    (hsource : s.storedRow project pk = some source) (fault : StorageFault) (now : Time) :
    Sourced project source.digest s (refreshRevisionScriptFiles pk fault now s) := by
  obtain ⟨hrow, hstored⟩ := storedRow_eq_some.mp hsource
  obtain ⟨digest, hdigest⟩ := Option.isSome_iff_exists.mp hstored.2.1
  have hsound := h pk source hrow hstored.1
  obtain ⟨haddress, tree, hdescribes⟩ := hsound.addressed digest hdigest
  obtain ⟨htrusted, hintact⟩ := hsound.stored hstored
  rw [hdigest, Option.getD_some] at hintact
  unfold refreshRevisionScriptFiles
  rw [hrow]
  dsimp only
  rw [hdigest]
  dsimp only
  split
  · exact .raised h (.refl s) _
  · exact .raised h (.refl s) _
  · let row : RevisionRow :=
      { stagedRow source.project source.manifest (projectSnapshot source.project s.files) now with
        digest := some digest
        status := .materialized
        fileCount := source.fileCount
        totalSize := source.totalSize }
    -- one digest is one list of files, in some order
    have hfound : ∀ found : RevisionRow, found.Sound project s.content →
        found.digest = some digest → Trusted found.manifest ∧ ∀ entry ∈ found.manifest,
          ∃ bytes, s.content digest entry.path = some bytes ∧ Intact bytes entry := by
      intro found hfound hsame
      obtain ⟨haddress', tree', hdescribes'⟩ := hfound.addressed digest hsame
      have hperm := perm_of_manifestDigest_eq hfree hdescribes.readable hdescribes'.readable
        (haddress.symm.trans haddress')
      exact ⟨htrusted.perm hperm, fun entry hentry => hintact entry (hperm.mem_iff.mpr hentry)⟩
    refine sourced_getOrCreate h row settleVerified hstored.1 rfl ?_ ?_ ?_ nofun
    · refine ⟨fun _ hsome => ?_, fun _ => ⟨htrusted, hintact⟩⟩
      obtain rfl := Option.some.inj hsome
      exact ⟨haddress, tree, hdescribes⟩
    · intro staged s' candidate hfiled hcontent hcandidate hproject hsame
      have hcandidateSound := hfiled _ candidate hcandidate hproject
      unfold settleVerified
      rw [hcandidate]
      dsimp only
      split_ifs with hretry
      · refine ⟨hfiled.settle fun other hother _ => ?_, fun hnone => ?_, fun staged' hok => ?_⟩
        · obtain rfl := Option.some.inj (hcandidate.symm.trans hother)
          refine ⟨hcandidateSound.addressed, fun _ => ?_⟩
          dsimp only
          rw [hsame, Option.getD_some, hcontent]
          exact hfound candidate (hcontent ▸ hcandidateSound) hsame
        · cases hnone staged rfl
        · obtain rfl := Except.ok.inj hok
          refine ⟨{ candidate with status := .materialized, validationErrors := [] }, ?_, hproject,
            hsame, fun _ => ⟨hproject, by simp [hsame], rfl⟩⟩
          simp only [RevisionState.settle, Table.row_modify_self, hcandidate, Option.map_some]
      · refine ⟨hfiled, fun _ => .refl s', fun staged' hok => ?_⟩
        obtain rfl := Except.ok.inj hok
        refine ⟨candidate, hcandidate, hproject, hsame,
          fun _ => ⟨hproject, by simp [hsame], ?_⟩⟩
        exact (RevisionStatus.retryable_eq_unstored _).symm.trans (Bool.eq_false_iff.mpr hretry)
    · refine .inr fun staged s' hrow' => ?_
      unfold settleVerified
      rw [hrow']
      exact ⟨staged, rfl⟩

/-! ## Runs -/

/-- The current source of a project can be read, and is the tree. -/
def Current (project : Id) (s : RevisionState) (tree : Tree) : Prop :=
  ∃ files, s.currentSourceTree project = .ok files ∧ files.get? = tree

/-- Files that are read back are under canonical paths. -/
theorem Filed.canonical (h : Filed project s) {files : SourceFiles}
    (hfiles : s.currentSourceTree project = .ok files) : files.Canonical := by
  unfold RevisionState.currentSourceTree at hfiles
  split at hfiles
  · obtain rfl := Except.ok.inj hfiles
    exact nofun
  · next revision row hlatest =>
    obtain ⟨hrow, hstored⟩ := storedRow_eq_some.mp (storedRow_of_latestStoredRevision hlatest)
    obtain ⟨files', hread, hcanonical, -⟩ := (h _ row hrow hstored.1).read hstored
    obtain rfl := Except.ok.inj (hread.symm.trans hfiles)
    exact hcanonical

theorem Filed.acceptSource {activateOnce : Bool} (h : Filed project s) :
    Filed project (s.acceptSource pk activateOnce) := by
  obtain ⟨hrows, hcontent⟩ := @acceptSource_rows pk s activateOnce
  intro i row hrow hproject
  rw [hrows] at hrow
  rw [hcontent]
  exact h i row hrow hproject

/-- The current source after a stored revision is accepted is the tree its digest stands for. -/
theorem current_acceptSource (hfree : CollisionFree) {s' : RevisionState} (h : Filed project s')
    {activateOnce : Bool} (hrow : s'.revisions.row pk = some row)
    (hstored : row.IsStoredSource project) {manifest : List ManifestEntry} {tree : Tree}
    (hdescribes : Describes manifest tree) (hdigest : row.digest = some (manifestDigest manifest)) :
    Current project (s'.acceptSource pk activateOnce) tree := by
  have hsound := h pk row hrow hstored.1
  obtain ⟨files, hread, -, hdescribes'⟩ := hsound.read hstored
  refine ⟨files, ?_, ?_⟩
  · rw [RevisionState.currentSourceTree, latestStoredRevision_acceptSource hrow hstored,
      acceptSource_rows.2]
    exact hread
  · obtain ⟨haddress, -⟩ := hsound.addressed _ hdigest
    exact ((hdescribes.manifestDigest_eq_iff hfree hdescribes').mp haddress).symm

theorem Agree.current {s' : RevisionState} {tree : Tree} (h : Agree project s s')
    (hcurrent : Current project s tree) : Current project s' tree := by
  obtain ⟨files, hfiles, htree⟩ := hcurrent
  exact ⟨files, h.currentSourceTree.trans hfiles, htree⟩

/-- An upload that is staged is merged into the tree it was read into, or changes nothing that is
read. -/
theorem ingestUpload_current (hlaws : IdentifierLaws) (hfree : CollisionFree)
    (h : Filed project s) {tree : Tree} (hcurrent : Current project s tree) (upload : Ingestion) :
    Filed project (ingestUpload project upload s).2 ∧
      ((Current project (ingestUpload project upload s).2 tree ∧
        ∀ staged, (ingestUpload project upload s).1 = .ok staged →
          ((ingestUpload project upload s).2.revisions.row staged.revision).bind
            RevisionRow.digest = none) ∨
      ∃ path staged, uploadedSourcePath upload.filename = .ok path ∧
        (ingestUpload project upload s).1 = .ok staged ∧
        (((ingestUpload project upload s).2.revisions.row staged.revision).bind
          RevisionRow.digest).isSome ∧
        Current project (ingestUpload project upload s).2
          (Function.update tree path (some upload.content))) := by
  unfold ingestUpload
  cases hpath : uploadedSourcePath upload.filename with
  | error refusal => exact ⟨h, .inl ⟨hcurrent, nofun⟩⟩
  | ok path =>
    dsimp only
    cases hdeclared : upload.declared project path s.files with
    | error refusal => exact ⟨h, .inl ⟨hcurrent, nofun⟩⟩
    | ok files =>
      dsimp only
      obtain ⟨current, hread, rfl⟩ := hcurrent
      have h₀ : Filed project { s with files } := h
      have hread₀ : ({ s with files } : RevisionState).currentSourceTree project = .ok current :=
        hread
      have hcurrent₀ : Current project { s with files } current.get? := ⟨current, hread₀, rfl⟩
      rw [hread₀]
      split
      · exact ⟨h₀, .inl ⟨hcurrent₀, nofun⟩⟩
      · next read hreadable =>
        split_ifs at hreadable
        obtain rfl := Except.ok.inj hreadable
        have hcanonical : (current.set path upload.content).Canonical :=
          (h₀.canonical hread₀).set (uploadedSourcePath_ok hlaws hpath).canonical
        obtain ⟨digest, hsourced, haddress⟩ := stageRevision_sourced hfree h₀
          (current.set path upload.content) upload.limits upload.fault upload.now
        rcases hstaged : stageRevision project (current.set path upload.content) upload.limits
          upload.fault upload.now { s with files } with ⟨outcome, s'⟩
        rw [hstaged] at hsourced
        cases outcome with
        | error failure =>
          exact ⟨hsourced.filed, .inl ⟨(hsourced.agree nofun).current hcurrent₀, nofun⟩⟩
        | ok staged =>
          obtain ⟨row, hrow, hproject, hdigest, hstored⟩ := hsourced.returned staged rfl
          refine ⟨Filed.acceptSource hsourced.filed, ?_⟩
          dsimp only at hrow ⊢
          rw [acceptSource_rows.1]
          cases digest with
          | none =>
            refine .inl ⟨?_, fun staged' hok => ?_⟩
            · rw [acceptSource_of_none hrow hdigest]
              exact (hsourced.agree fun _ _ => rfl).current hcurrent₀
            · obtain rfl := Except.ok.inj hok
              rw [hrow, Option.bind_some, hdigest]
          | some address =>
            obtain ⟨manifest, hdescribes, rfl⟩ := haddress address rfl
            rw [canonicalTree_eq_get? hcanonical, SourceFiles.get?_set] at hdescribes
            refine .inr ⟨path, staged, rfl, rfl, ?_, ?_⟩
            · rw [hrow, Option.bind_some, hdigest]
              rfl
            · exact current_acceptSource hfree hsourced.filed hrow (hstored rfl) hdescribes hdigest

/-- A refresh stages the current source once more. -/
theorem refreshJob_current (hfree : CollisionFree) (h : Filed project s) {tree : Tree}
    (hcurrent : Current project s tree) (fault : StorageFault) (now : Time) :
    Filed project (refreshJob project fault now s) ∧
      Current project (refreshJob project fault now s) tree := by
  unfold refreshJob
  cases hlatest : s.latestStoredRevision project with
  | none => exact ⟨h, hcurrent⟩
  | some revision =>
    obtain ⟨pk, source⟩ := revision
    have hsource := storedRow_of_latestStoredRevision hlatest
    obtain ⟨hpk, hstored⟩ := storedRow_eq_some.mp hsource
    have hsound := h pk source hpk hstored.1
    obtain ⟨files, hread, rfl⟩ := hcurrent
    have hdescribes : Describes source.manifest files.get? := by
      obtain ⟨files', hread', -, hdescribes⟩ := hsound.read hstored
      rw [RevisionState.currentSourceTree, hlatest] at hread
      obtain rfl := Except.ok.inj (hread'.symm.trans hread)
      exact hdescribes
    have hsourced := refreshRevision_sourced hfree h hsource fault now
    obtain ⟨digest, hdigest⟩ := Option.isSome_iff_exists.mp hstored.2.1
    obtain ⟨rfl, -⟩ := hsound.addressed digest hdigest
    dsimp only
    rcases hstaged : refreshRevisionScriptFiles pk fault now s with ⟨outcome, s'⟩
    rw [hstaged] at hsourced
    cases outcome with
    | error failure => exact ⟨hsourced.filed, (hsourced.agree nofun).current ⟨files, hread, rfl⟩⟩
    | ok staged =>
      obtain ⟨row, hrow, hproject, hrowDigest, hrowStored⟩ := hsourced.returned staged rfl
      refine ⟨Filed.acceptSource hsourced.filed, ?_⟩
      exact current_acceptSource hfree hsourced.filed hrow (hrowStored hstored.2.1) hdescribes
        (hrowDigest.trans hdigest)

omit [Unicode] [Hashing] in
theorem Tree.apply_concat (tree : Tree) (uploads : List (PyStr × Bytes)) (path : PyStr)
    (content : Bytes) : tree.apply (uploads ++ [(path, content)]) =
      Function.update (tree.apply uploads) path (some content) := by
  rw [Tree.apply, List.foldl_append]
  rfl

/-- **One operation**: the current source is the tree with the uploads accepted so far. -/
theorem sourceStep_current (hlaws : IdentifierLaws) (hfree : CollisionFree) {s s' : SourceState}
    {tree : Tree} {event : SourceEvent} (h : Filed project s.project)
    (hcurrent : Current project s.project (tree.apply s.accepted))
    (hstep : sourceStep project s event = some s') :
    Filed project s'.project ∧ Current project s'.project (tree.apply s'.accepted) := by
  cases event with
  | ingest upload =>
    obtain ⟨hfiled, hcases⟩ := ingestUpload_current hlaws hfree h hcurrent upload
    rw [sourceStep] at hstep
    rcases hingest : ingestUpload project upload s.project with ⟨result, next⟩
    rw [hingest] at hfiled hcases hstep
    dsimp only at hstep hfiled hcases
    rcases hcases with ⟨hsame, hnone⟩ | ⟨path, staged, hpath, rfl, hsome, hmerged⟩
    · split at hstep
      · rw [hnone _ rfl] at hstep
        obtain rfl := Option.some.inj hstep
        exact ⟨hfiled, hsame⟩
      · obtain rfl := Option.some.inj hstep
        exact ⟨hfiled, hsame⟩
    · rw [hpath] at hstep
      dsimp only at hstep
      rw [if_pos hsome] at hstep
      obtain rfl := Option.some.inj hstep
      rw [Tree.apply_concat]
      exact ⟨hfiled, hmerged⟩
  | refresh fault now =>
    obtain rfl := Option.some.inj hstep
    exact refreshJob_current hfree h hcurrent fault now
  | declare files =>
    obtain rfl := Option.some.inj hstep
    exact ⟨h, hcurrent⟩

/-- **The current source** after every operation is the starting tree with the accepted uploads
applied in the order they held the lock. -/
theorem currentSource_accepted (hlaws : IdentifierLaws) (hfree : CollisionFree) {project : Id}
    {start s : SourceState} {files : SourceFiles} (hfiled : Filed project start.project)
    (haccepted : start.accepted = [])
    (hfiles : start.project.currentSourceTree project = .ok files)
    (h : Trace (sourceStep project) (fun _ _ => True) start s) :
    ∃ current, s.project.currentSourceTree project = .ok current ∧
      current.get? = files.get?.apply s.accepted := by
  have hstart : Current project start.project (Tree.apply files.get? start.accepted) := by
    rw [haccepted]
    exact ⟨files, hfiles, rfl⟩
  have hinvariant := h.invariant (I := fun s => Filed project s.project ∧
    Current project s.project (Tree.apply files.get? s.accepted)) ⟨hfiled, hstart⟩
    fun _ _ _ hkept _ hstep => sourceStep_current hlaws hfree hkept.1 hkept.2 hstep
  exact hinvariant.2

end Keeping

/-! ## Two uploads -/

/-- An upload of the content `x`. -/
def exampleIngestion (filename : PyStr) (now : Time) : Ingestion :=
  ⟨filename, [120], true, true, false, ⟨10, 10, 10⟩, true, .none, now⟩

omit [Unicode] [Hashing] in
/-- `a.py`, a refresh, a file that is no source, and `b.py`. -/
theorem currentSource_accepted_twice :
    ∃ s : SourceState, s.accepted = [(py "a.py", [120]), (py "b.py", [120])] ∧
      ∃ current, @RevisionState.currentSourceTree asciiUnicode spelledHashing s.project 7 =
          .ok current ∧
        current.get? = Tree.apply (SourceFiles.get? ⟨[], List.nodup_nil⟩) s.accepted := by
  let step := @sourceStep asciiUnicode spelledHashing 7
  let events : List SourceEvent := [.ingest (exampleIngestion (py "a.py") 0), .refresh .none 1,
    .ingest (exampleIngestion (py "notes.txt") 2), .ingest (exampleIngestion (py "b.py") 3)]
  have hrun : (Trace.run step (fun _ _ => true) ⟨unstagedProject, []⟩ events).map
      SourceState.accepted = some [(py "a.py", [120]), (py "b.py", [120])] := by
    decide +kernel
  obtain ⟨s, hs, haccepted⟩ := Option.map_eq_some_iff.mp hrun
  have htrace : Trace step (fun _ _ => True) ⟨unstagedProject, []⟩ s :=
    (Trace.of_run .start hs).mono fun _ _ _ => trivial
  have hempty : @RevisionState.currentSourceTree asciiUnicode spelledHashing unstagedProject 7 =
      .ok ⟨[], List.nodup_nil⟩ := by
    have hnone : unstagedProject.latestStoredRevision 7 = none := rfl
    unfold RevisionState.currentSourceTree
    rw [hnone]
  exact ⟨s, haccepted, @currentSource_accepted asciiUnicode spelledHashing identifierLaws_ascii
    collisionFree_spelledHashing 7 ⟨unstagedProject, []⟩ s ⟨[], List.nodup_nil⟩ nofun rfl hempty
      htrace⟩

end Sources

end NetBoxScripts
