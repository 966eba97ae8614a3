import NetBoxScripts.Concurrency.Alone
import NetBoxScripts.Services.Requests
import NetBoxScripts.Services.Sources
import NetBoxScripts.Services.Staging

/-!
# Calls that run alone

The calls of `storage/service.py`, statement by statement, on a project that nobody else changes
meanwhile: its lock keeps other calls out. Each of them ends as the call that is one event does, for
some behaviour of the storage.

## Main definitions

* `Shows`: the shared state has the rows of a project's state, and what its stored revisions hold
* `EndsAs`: a call ends as the one that is one event, for some fault of the storage

## Main results

* `stageLocked_alone`, `refreshLocked_alone`: staging and refreshing
* `stageRevision_alone`, `session_stageRevision_alone`: with the acceptance, as a service and as a
  session
* `ingest_alone`, `refreshSource_alone`: an operation on an uploaded project
* `promote_alone`: the promotion
-/

namespace NetBoxScripts

namespace Serial

/-! ## Programs that nobody disturbs -/

section Rules

variable {α β : Type} {t : ThreadId} {k : StorageKey} {w w' : World}

/-- A program that nobody disturbs ends in a postcondition. -/
abbrev Alone (t : ThreadId) (prog : Service α) (post : Except Failure α → World → Prop)
    (w : World) : Prop :=
  wp Undisturbed t (fun _ _ => True) prog post w

/-- The same of a program of a session. -/
abbrev SessionAlone (t : ThreadId) (prog : Vanishing.Session α)
    (post : Except Failure α → World → Prop) (w : World) : Prop :=
  Alone t (prog.prog Vanishing.execute) post w

variable {post : Except Failure β → World → Prop}

theorem alone_bind {prog : Vanishing.Session α} {f : α → Vanishing.Session β}
    (h : SessionAlone t prog
      (andThen (fun a => SessionAlone t (f a) post) fun e => post (.error e)) w) :
    SessionAlone t (prog >>= f) post w := by
  rw [SessionAlone, Labelled.prog_bind, Alone, wp_bind]
  exact h

/-- A statement with one outcome. -/
theorem alone_ask {statement : Vanishing.Statement}
    {b : Vanishing.Answer statement} {f : Vanishing.Answer statement → Vanishing.Session β}
    (hstep : ∀ c, Vanishing.execute t statement c w = some (b, w'))
    (h : SessionAlone t (f b) post w') :
    SessionAlone t (Vanishing.ask statement >>= f) post w := by
  refine alone_bind (wp_act_undisturbed fun c b' w'' hstep' => ⟨trivial, ?_⟩)
  rw [hstep c] at hstep'
  cases hstep'
  exact h

/-- A row that is there is read. -/
theorem alone_getProject {p : Id} {project : ProjectRow} {failure : Failure}
    {f : ProjectRow → Service β} (hproject : w.projects.row p = some project)
    (h : Alone t (f project) post w) : Alone t (getProject p failure >>= f) post w := by
  rw [Alone, wp_bind, getProject]
  refine wp_query_undisturbed (fun _ => trivial) ?_
  rw [hproject]
  exact h

theorem alone_projectOrVanished {p : Id} {project : ProjectRow}
    {f : ProjectRow → Vanishing.Session β}
    (hproject : w.projects.row p = some project) (h : SessionAlone t (f project) post w) :
    SessionAlone t (Vanishing.projectOrVanished p >>= f) post w := by
  refine alone_bind (alone_ask (fun _ => rfl) ?_)
  rw [hproject]
  exact h

theorem alone_revisionOrVanished {r : Id} {row : RevisionRow}
    {f : RevisionRow → Vanishing.Session β}
    (hrow : w.revisions.row r = some row) (h : SessionAlone t (f row) post w) :
    SessionAlone t (Vanishing.revisionOrVanished r >>= f) post w := by
  refine alone_bind (alone_ask (fun _ => rfl) ?_)
  rw [hrow]
  exact h

/-- The project lock, as a session takes it. -/
theorem session_projectLock_alone {body : Vanishing.Session β}
    (hpost : ∀ result w k owner, post result w → post result (w.setLock k owner))
    (h : ∀ owner, SessionAlone t body post (w.setLock k owner)) :
    SessionAlone t (Vanishing.projectLock k body) post w := by
  rw [SessionAlone, Vanishing.projectLock, Labelled.prog_bind, Alone, wp_bind,
    Labelled.prog_finallyDo]
  refine wp_act_undisturbed fun c _ w₁ hlock => ⟨trivial, ?_⟩
  obtain ⟨owner, rfl⟩ : ∃ owner, w₁ = w.setLock k owner := by
    rw [Vanishing.execute] at hlock
    split at hlock
    · cases hlock
      exact ⟨_, rfl⟩
    · split_ifs at hlock
      cases hlock
      exact ⟨_, rfl⟩
    · cases hlock
  refine wp_finallyDo (wp_mono (fun result w₂ h₂ => ?_) (h owner))
  refine wp_act_undisturbed fun c _ w₃ hunlock => ⟨trivial, ?_⟩
  rw [Vanishing.execute] at hunlock
  split at hunlock
  · split_ifs at hunlock
    all_goals cases hunlock
    · exact hpost result w₂ _ _ h₂
    · exact hpost result w₂ _ _ h₂
    · exact h₂
  · cases hunlock
    exact h₂

end Rules

/-! ## What a project shows -/

section Shown

variable [Unicode] [Hashing] {p r : Id} {k : StorageKey} {s s' : RevisionState} {w w' : World}
  {row : RevisionRow}

/-- What the stored revisions of a project hold. -/
def ShowsContent (p : Id) (k : StorageKey) (s : RevisionState) (w : World) : Prop :=
  ∀ i row, s.storedRow p i = some row → ∀ entry ∈ row.manifest,
    w.objects (.revision k (row.digest.getD []) entry.path) =
      s.content (row.digest.getD []) entry.path

/-- **The shared state shows a project's**: it has the rows, and the stored revisions have the
content. -/
structure Shows (p : Id) (k : StorageKey) (s : RevisionState) (w : World) : Prop where
  revisions : w.revisions = s.revisions
  files : w.files = s.files
  project : ∃ project, w.projects.row p = some project ∧ project.storageKey = k ∧
    project.sourceRevision = s.sourceRevision ∧
      project.sourceActivationPending = s.sourceActivationPending
  content : ShowsContent p k s w

omit [Unicode] [Hashing] in
/-- Who holds a lock is none of it. -/
theorem Shows.setLock {k' : StorageKey} {owner : Option (ThreadId × ℕ)} (h : Shows p k s w) :
    Shows p k s (w.setLock k' owner) := ⟨h.revisions, h.files, h.project, h.content⟩

omit [Unicode] [Hashing] in
/-- Rows that are written alike, where no revision becomes stored or ceases to be. -/
theorem Shows.agree {revisions : Table RevisionRow} (h : Shows p k s w)
    (hagree : Agree p s { s with revisions }) :
    Shows p k { s with revisions } { w with revisions } where
  revisions := rfl
  files := h.files
  project := h.project
  content i row hrow := h.content i row ((hagree.rows i).symm.trans hrow)

omit [Unicode] [Hashing] in
/-- The source columns of a project are written. -/
theorem Shows.accept (h : Shows p k s w) (source : Option Id) (pending : Bool) :
    Shows p k { s with sourceRevision := source, sourceActivationPending := pending }
      (w.modifyProject p fun project =>
        { project with sourceRevision := source, sourceActivationPending := pending }) := by
  obtain ⟨project, hproject, hkey, -⟩ := h.project
  refine ⟨h.revisions, h.files, ⟨{ project with
    sourceRevision := source, sourceActivationPending := pending }, ?_, hkey, rfl, rfl⟩, h.content⟩
  rw [World.modifyProject, Table.row_modify_self, hproject]
  rfl

/-- Nothing but objects changes. -/
def OnlyObjects (w w' : World) : Prop := w' = { w with objects := w'.objects }

omit [Unicode] [Hashing] in
theorem OnlyObjects.revisions (h : OnlyObjects w w') : w'.revisions = w.revisions := by
  unfold OnlyObjects at h
  rw [h]

omit [Unicode] [Hashing] in
theorem OnlyObjects.projects (h : OnlyObjects w w') : w'.projects = w.projects := by
  unfold OnlyObjects at h
  rw [h]

omit [Unicode] [Hashing] in
theorem OnlyObjects.files (h : OnlyObjects w w') : w'.files = w.files := by
  unfold OnlyObjects at h
  rw [h]

end Shown

/-! ## The store -/

section Stored

variable [Unicode] [Hashing] {t : ThreadId} {p r : Id} {k : StorageKey} {s : RevisionState}
  {w w' : World} {row : RevisionRow} {digest : PyStr} {manifest : List ManifestEntry}
  {files : SourceFiles}

/-- What a writer does: it changes objects, and none of a stored revision. -/
def Spares (p : Id) (k : StorageKey) (s : RevisionState) (w w' : World) : Prop :=
  OnlyObjects w w' ∧ (ShowsContent p k s w → ShowsContent p k s w')

theorem writer_alone (hfree : CollisionFree) (hfiled : Filed p s)
    (hreadable : ∀ entry ∈ manifest, entry.Readable) (hdigest : digest = manifestDigest manifest) :
    WriterAssertion Undisturbed t (Spares p k s) k digest manifest fun w' =>
      OnlyObjects w w' ∧ ShowsContent p k s w' where
  kept _ _ := stable_undisturbed _
  stay _ := ⟨rfl, id⟩
  put w' entry content hw' hentry hnone := by
    refine ⟨rfl, fun hshows i row hrow other hother => ?_⟩
    obtain ⟨hi, hstored⟩ := storedRow_eq_some.mp hrow
    obtain ⟨bytes, hbytes, -⟩ := ((hfiled i row hi hstored.1).stored hstored).2 other hother
    have hheld := (hshows i row hrow other hother).trans hbytes
    -- the key of a stored file is not vacant
    have hne : ObjectKey.revision k (row.digest.getD []) other.path ≠
        .revision k digest entry.path := by
      intro heq
      rw [heq, hnone] at hheld
      cases hheld
    exact (Function.update_of_ne hne _ _).trans (hshows i row hrow other hother)
  drop w' entry hw' hentry hmismatch := by
    refine ⟨rfl, fun hshows i row hrow other hother => ?_⟩
    obtain ⟨hi, hstored⟩ := storedRow_eq_some.mp hrow
    have hsound := hfiled i row hi hstored.1
    obtain ⟨address, haddress⟩ := Option.isSome_iff_exists.mp hstored.2.1
    obtain ⟨hof, tree, hdescribes⟩ := hsound.addressed address haddress
    obtain ⟨bytes, hbytes, hintact⟩ := (hsound.stored hstored).2 other hother
    have hheld := (hshows i row hrow other hother).trans hbytes
    have hne : ObjectKey.revision k (row.digest.getD []) other.path ≠
        .revision k digest entry.path := by
      intro heq
      rw [haddress, Option.getD_some] at heq hheld
      injection heq with _ hsame hpath
      -- under one digest there is one list of files, so the entry is the stored one
      have hperm := perm_of_manifestDigest_eq hfree hdescribes.readable hreadable
        (hof.symm.trans (hsame.trans hdigest))
      obtain rfl := List.inj_on_of_nodup_map hdescribes.nodup hother
        (hperm.mem_iff.mpr hentry) hpath
      exact hmismatch ⟨bytes, hsame ▸ hheld, hintact⟩
    exact (Function.update_of_ne hne _ _).trans (hshows i row hrow other hother)
  park w' n content _ := by
    refine ⟨rfl, fun hshows i row hrow other hother => ?_⟩
    have hne : ObjectKey.revision k (row.digest.getD []) other.path ≠ .parked n :=
      fun hsame => by cases hsame
    exact (Function.update_of_ne hne content _).trans (hshows i row hrow other hother)
  own w' key content h hw' := by
    have hframe := hw'.1
    unfold OnlyObjects at hframe
    refine ⟨?_, h.2 hw'.2⟩
    rw [hframe]
    rfl

omit [Unicode] [Hashing] in
/-- What is expected of a store is a storage error. -/
theorem isStorageError_of_expected {e : Failure} (h : Vanishing.Expected False e) :
    e.isStorageError = true := by
  unfold Vanishing.Expected at h
  unfold Failure.isStorageError
  split at h <;> simp_all

/-- **A write** of a tree that nobody disturbs. -/
theorem write_alone (laws : UnicodeLaws) (hfree : CollisionFree) (hfiled : Filed p s)
    (hreadable : ∀ entry ∈ manifest, entry.Readable) (hfiles : ∀ file ∈ files.items, Plain file.1)
    (hplain : ∀ entry ∈ manifest, Plain entry.path) (h : ShowsContent p k s w) :
    SessionAlone t (Vanishing.store (writeRevision k digest files manifest)) (fun result w' =>
      OnlyObjects w w' ∧ ShowsContent p k s w' ∧
        (result = .ok () → w'.TreeStored k digest manifest) ∧
        ∀ e, result = .error e → e.isStorageError = true) w := by
  have hwrite : wp Undisturbed t (Spares p k s) (writeRevision k digest files manifest)
      (fun result w' => (OnlyObjects w w' ∧ ShowsContent p k s w') ∧
        (result = .ok () → w'.Verified k digest manifest)) w :=
    wp_writeRevision (fun _ => ⟨rfl, id⟩)
      (fun hdigest _ _ => writer_alone hfree hfiled hreadable hdigest) ⟨rfl, h⟩
  have hraises := wp_undisturbed_and hwrite (Vanishing.writeRevision_raises laws hfiles hplain t w)
  refine Vanishing.wp_store (fun w w' hspares => ⟨trivial, hspares.1⟩)
    (wp_mono (fun result w' hw' => ?_) hraises)
  obtain ⟨⟨⟨hframe, hshows⟩, hverified⟩, hexpected⟩ := hw'
  exact ⟨hframe, hshows, fun hok => (hverified hok).tree,
    fun e he => isStorageError_of_expected (hexpected e he)⟩

/-- **A verification** that nobody disturbs. -/
theorem verify_alone : SessionAlone t (Vanishing.store (verifyRevisionTree k digest manifest))
    (fun result w' => w' = w ∧ (result = .ok () → w.TreeStored k digest manifest)) w := by
  have hverify : wp Undisturbed t Eq (verifyRevisionTree k digest manifest) (fun result w' =>
      w' = w ∧ (result = .ok () → w'.Verified k digest manifest)) w :=
    wp_verifyRevisionTree (fun _ => rfl) (fun _ _ => stable_undisturbed _) rfl
  refine Vanishing.wp_store (fun w w' (hsame : w = w') => ⟨trivial, hsame ▸ rfl⟩)
    (wp_mono (fun result w' hw' => ?_) hverify)
  obtain ⟨rfl, hverified⟩ := hw'
  exact ⟨rfl, fun hok => (hverified hok).tree⟩

end Stored

/-! ## A row settles -/

section Settling

variable [Unicode] [Hashing] {t : ThreadId} {p r : Id} {k : StorageKey} {s s' : RevisionState}
  {w w' : World} {row stored : RevisionRow} {digest : PyStr} {files : SourceFiles}
  {created : Bool} {staged : StagedRevision} {failure : StagingFailure} {e : Failure}

/-- The row that a call returns has what its acceptance reads of the stored one. -/
def Returned (p : Id) (s : RevisionState) (r : Id) (row : RevisionRow) : Prop :=
  row.project = p ∧ ∃ stored, s.revisions.row r = some stored ∧ stored.project = p ∧
    row.digest = stored.digest ∧ row.status = stored.status

/-- **A call ends as the one that is one event**: both return the same revision or both raise, and
the shared state shows the rows. -/
structure EndsAs (p : Id) (k : StorageKey) (ending : StagingResult)
    (result : Except Failure (StagedRevision × RevisionRow)) (w : World) : Prop where
  shown : Shows p k ending.2 w
  returned : ∀ staged, ending.1 = .ok staged → ∃ row, result = .ok (staged, row) ∧
    Returned p ending.2 staged.revision row
  raised : ∀ failure, ending.1 = .error failure → ∃ e, result = .error e

omit [Unicode] [Hashing] in
theorem EndsAs.raise (h : Shows p k s w) : EndsAs p k (.error failure, s) (.error e) w :=
  ⟨h, fun _ hok => (by cases hok), fun _ _ => ⟨e, rfl⟩⟩

omit [Unicode] [Hashing] in
theorem EndsAs.return (h : Shows p k s w) (hrow : s.revisions.row staged.revision = some row)
    (hproject : row.project = p) : EndsAs p k (.ok staged, s) (.ok (staged, row)) w := by
  refine ⟨h, fun staged' hok => ?_, fun _ herror => by cases herror⟩
  obtain rfl := Except.ok.inj hok
  exact ⟨row, rfl, hproject, row, hrow, hproject, rfl, rfl⟩

omit [Unicode] [Hashing] in
/-- What follows a call, by how the one that is one event ended. -/
theorem EndsAs.andThen {ending : StagingResult}
    {result : Except Failure (StagedRevision × RevisionRow)}
    {next : StagedRevision × RevisionRow → World → Prop} {failed : Failure → World → Prop}
    (h : EndsAs p k ending result w)
    (hfailed : ∀ failure e, ending.1 = .error failure → failed e w)
    (hnext : ∀ staged row, ending.1 = .ok staged → Returned p ending.2 staged.revision row →
      next (staged, row) w) : NetBoxScripts.andThen next failed result w := by
  cases hending : ending.1 with
  | error failure =>
    obtain ⟨e, rfl⟩ := h.raised failure hending
    exact hfailed failure e hending
  | ok staged =>
    obtain ⟨row, rfl, hreturned⟩ := h.returned staged hending
    exact hnext staged row hending hreturned

omit [Unicode] [Hashing] in
theorem EndsAs.setLock {ending : StagingResult}
    {result : Except Failure (StagedRevision × RevisionRow)}
    {k' : StorageKey} {owner : Option (ThreadId × ℕ)} (h : EndsAs p k ending result w) :
    EndsAs p k ending result (w.setLock k' owner) := ⟨h.shown.setLock, h.returned, h.raised⟩

omit [Unicode] [Hashing] in
theorem ShowsContent.agree (h : ShowsContent p k s w) (hagree : Agree p s s') :
    ShowsContent p k s' w := by
  intro i row hrow entry hentry
  have hrow' := (hagree.rows i).symm.trans hrow
  exact (h i row hrow' entry hentry).trans (hagree.content i row hrow' entry hentry).symm

/-- Both checks of a row's manifest agree, and what is no storage error is a path that cannot be
encoded. -/
theorem rowManifest_cases (row : RevisionRow) :
    (Vanishing.rowManifest row = .ok () ∧ validatedManifest row = .ok ()) ∨
      ∃ e failure, Vanishing.rowManifest row = .error e ∧ validatedManifest row = .error failure ∧
        (e.isStorageError = false ↔ failure = .unicodeEncodeError) := by
  unfold Vanishing.rowManifest validatedManifest
  cases validateManifest (.arr (row.manifest.map ManifestEntry.toJson)) row.digest with
  | ok u =>
    split_ifs
    · exact .inr ⟨_, _, rfl, rfl, by simp [Failure.isStorageError]⟩
    · exact .inl ⟨rfl, rfl⟩
  | error failure =>
    cases failure with
    | revisionCorrupt message reasons =>
      exact .inr ⟨_, _, rfl, rfl, by simp [Failure.isStorageError]⟩
    | unicodeEncodeError => exact .inr ⟨_, _, rfl, rfl, by simp [Failure.isStorageError]⟩

omit [Unicode] [Hashing] in
/-- The update of a row that has one of the statuses. -/
theorem execute_settle {found : List RevisionStatus} {status : RevisionStatus}
    {errors : List ErrorRecord} (hrow : w.revisions.row r = some row) (hstatus : row.status ∈ found)
    (c : Choice) : Vanishing.execute t (.settle r found status errors) c w =
      some ((), { w with revisions := w.revisions.modify r fun row =>
        { row with status, validationErrors := errors } }) := by
  rw [Vanishing.execute, Vanishing.updateRevision, hrow]
  dsimp only
  rw [if_pos (decide_eq_true hstatus)]

omit [Unicode] [Hashing] in
/-- A row that was settled is settled again. -/
theorem settle_settle (hrow : s.revisions.row r = some row) (content : PyStr → Tree)
    (first status : RevisionStatus) (errors errors' : List ErrorRecord) :
    { s.settle r first errors with content }.settle r status errors' = { s with
      content
      revisions := s.revisions.modify r fun _ =>
        { row with status, validationErrors := errors' } } := by
  simp only [RevisionState.settle, Table.modify_modify]
  rw [Table.modify_eq_of_row hrow]

/-- A write that ends well, as one event. -/
theorem writeStaged_none (hrow : s.revisions.row r = some row)
    (hdigest : row.digest = some digest) (hvalid : validatedManifest row = .ok ())
    (hdescribes : Describes row.manifest (canonicalTree files)) :
    ∃ content : Tree, (∀ entry ∈ row.manifest, ∃ bytes, content entry.path = some bytes ∧
        Intact bytes entry) ∧
      content = (writeEntries (canonicalTree files) .none row.manifest (s.content digest)).2 ∧
      writeStaged files .none ⟨r, created⟩ row s = (.ok ⟨r, created⟩, { s with
        content := Function.update s.content digest content
        revisions := s.revisions.modify r fun _ =>
          { row with status := .materialized, validationErrors := [] } }) := by
  obtain ⟨content, hwrite, -, hintact⟩ := writeEntries_holds hdescribes.nodup hdescribes.intact
    ((s.settle r .staging row.validationErrors).content digest)
  have haddress : row.digest.getD [] = digest := by rw [hdigest, Option.getD_some]
  refine ⟨content, hintact, (congrArg Prod.snd hwrite).symm, ?_⟩
  rw [writeStaged, hvalid, haddress]
  dsimp only
  rw [hwrite]
  dsimp only
  rw [verifyStored_of_intact hintact]
  exact congrArg (Prod.mk _) (settle_settle hrow _ _ _ _ _)

omit [Unicode] in
/-- A write after which nothing can be read, as one event. -/
theorem writeStaged_reads [Unicode] (hvalid : validatedManifest row = .ok ()) :
    ∃ failure content, writeStaged files .reads staged row s = (.error failure,
      { s.settle staged.revision .staging row.validationErrors with content }.settle
        staged.revision .storageFailed [.storageWriteFailed]) := by
  rw [writeStaged, hvalid]
  dsimp only
  cases (writeEntries (canonicalTree files) .reads row.manifest ((s.settle staged.revision .staging
      row.validationErrors).content (row.digest.getD []))).1 with
  | error failure => exact ⟨failure, _, rfl⟩
  | ok u => exact ⟨.storageError, _, rfl⟩

/-- The content of the stored revisions after a write that ended well. -/
theorem showsContent_written (hfree : CollisionFree) (hfiled : Filed p s)
    (hrow : s.revisions.row r = some row) (hproject : row.project = p)
    (hdigest : row.digest = some digest) (h : ShowsContent p k s w)
    (htree : w.TreeStored k digest row.manifest) {content : Tree}
    (hintact : ∀ entry ∈ row.manifest, ∃ bytes, content entry.path = some bytes ∧
      Intact bytes entry)
    (hcontent : content = (writeEntries (canonicalTree files) .none row.manifest
      (s.content digest)).2) (row' : RevisionRow) (hsame : row'.manifest = row.manifest)
    (hdigest' : row'.digest = row.digest) :
    ShowsContent p k { s with
      content := Function.update s.content digest content
      revisions := s.revisions.modify r fun _ => row' } w := by
  obtain ⟨haddress, tree, hdescribes⟩ := (hfiled r row hrow hproject).addressed digest hdigest
  intro i other hother entry hentry
  by_cases hi : i = r
  · -- the revision that was written
    subst hi
    obtain ⟨hother, -⟩ := storedRow_eq_some.mp hother
    rw [Table.row_modify_self, hrow] at hother
    obtain rfl := Option.some.inj hother
    dsimp only at hentry ⊢
    rw [hdigest', hdigest, Option.getD_some, Function.update_self]
    rw [hsame] at hentry
    obtain ⟨bytes, hbytes, hsize, hsha⟩ := htree entry hentry
    obtain ⟨bytes', hbytes', hsize', hsha'⟩ := hintact entry hentry
    rw [hbytes, hbytes', hfree.injective (hsha.trans hsha'.symm)]
  · have hother' : s.storedRow p i = some other := by
      rw [storedRow_eq_some] at hother ⊢
      rwa [Table.row_modify_of_ne hi] at hother
    rw [h i other hother' entry hentry, hcontent, haddress]
    exact (writeEntries_frame hfree hfiled hdescribes.readable _ _ hother' entry hentry).symm

omit [Unicode] [Hashing] in
/-- A claim leaves the errors of a row as they are. -/
theorem modify_staging {table : Table RevisionRow} (hrow : table.row r = some row) :
    (table.modify r fun row => { row with status := .staging }) = table.modify r fun found =>
      { found with status := .staging, validationErrors := row.validationErrors } := by
  rw [Table.modify_eq_of_row hrow, Table.modify_eq_of_row (f := fun found =>
    { found with status := .staging, validationErrors := row.validationErrors }) hrow]

/-- **What follows the claim** of a row. -/
theorem writeClaimed_alone (laws : UnicodeLaws) (hfree : CollisionFree) (hfiled : Filed p s)
    (hshown : Shows p k s w) (hrow : s.revisions.row r = some row) (hproject : row.project = p)
    (hdigest : row.digest = some digest) (hunstored : row.status.unstored = true)
    (hdescribes : Describes row.manifest (canonicalTree files))
    (hfiles : ∀ file ∈ files.items, Plain file.1)
    (hplain : ∀ entry ∈ row.manifest, Plain entry.path) :
    SessionAlone t (Vanishing.writeClaimed k files r row created)
      (fun result w' => ∃ fault, EndsAs p k (writeStaged files fault ⟨r, created⟩ row s) result w')
      { w with revisions := w.revisions.modify r fun row => { row with status := .staging } } := by
  let staging : RevisionRow := { row with status := .staging }
  let w₁ : World :=
    { w with revisions := w.revisions.modify r fun row => { row with status := .staging } }
  have hsourced : ∀ fault, Sourced p (some digest) s (writeStaged files fault ⟨r, created⟩ row s) :=
    writeStaged_sourced hfree hfiled hrow hproject hdigest hunstored files
  have hrevisions : w₁.revisions = (s.settle r .staging row.validationErrors).revisions := by
    simp only [w₁, RevisionState.settle, hshown.revisions]
    exact modify_staging hrow
  have hrow₁ : w₁.revisions.row r = some staging := by
    simp only [w₁, Table.row_modify_self, hshown.revisions, hrow, Option.map_some]
    rfl
  rw [Vanishing.writeClaimed, SessionAlone, Labelled.prog_bind, Alone, wp_bind,
    Labelled.prog_attempt, wp_attempt, Labelled.prog_bind, wp_bind]
  -- a storage error leaves the row to be retried
  have hfailed : ∀ (e : Failure) (w' : World), e.isStorageError = true →
      OnlyObjects w₁ w' → ShowsContent p k s w' →
      (∃ fault failure content, writeStaged files fault ⟨r, created⟩ row s = (.error failure,
        { s.settle r .staging row.validationErrors with content }.settle r .storageFailed
          [.storageWriteFailed])) →
      SessionAlone t (if e.isStorageError then do
          Vanishing.ask (.settle r [.staging] .storageFailed [.storageWriteFailed])
          Labelled.raise e
        else Labelled.raise e : Vanishing.Session (StagedRevision × RevisionRow)) (fun result w' =>
          ∃ fault, EndsAs p k (writeStaged files fault ⟨r, created⟩ row s) result w') w' := by
    rintro e w' he hframe hcontent ⟨fault, failure, content, hwrite⟩
    have hagree := (hsourced fault).agree (by rw [hwrite]; intro _ hok; cases hok)
    rw [if_pos he]
    refine alone_ask (execute_settle (hframe.revisions ▸ hrow₁) List.mem_cons_self) ⟨fault, ?_⟩
    rw [hwrite] at hagree ⊢
    refine .raise ⟨?_, hframe.files.trans hshown.files, ?_, hcontent.agree hagree⟩
    · simp only [RevisionState.settle, hframe.revisions, hrevisions]
    · simp only [hframe.projects]
      exact hshown.project
  rcases rowManifest_cases row with ⟨hmanifest, hvalid⟩ | ⟨e, failure, hmanifest, hvalid, hkind⟩
  · rw [hmanifest]
    change SessionAlone t (Vanishing.store (writeRevision k (row.digest.getD []) files
      row.manifest)) _ w₁
    refine wp_mono (fun result w' hw' => ?_) (write_alone laws hfree hfiled hdescribes.readable
      hfiles hplain hshown.content)
    obtain ⟨hframe, hcontent, htree, hstorage⟩ := hw'
    cases result with
    | error e =>
      refine hfailed e w' (hstorage e rfl) hframe hcontent ?_
      obtain ⟨failure, content, hwrite⟩ := writeStaged_reads hvalid
      exact ⟨.reads, failure, content, hwrite⟩
    | ok u =>
      let written : RevisionRow := { row with status := .materialized, validationErrors := [] }
      obtain ⟨content, hintact, hcontent_eq, hwrite⟩ :=
        writeStaged_none hrow hdigest hvalid hdescribes
      have hrow' : (w'.revisions.modify r fun row =>
          { row with status := .materialized, validationErrors := [] }).row r = some written := by
        rw [Table.row_modify_self, hframe.revisions, hrow₁]
        rfl
      refine alone_ask (execute_settle (hframe.revisions ▸ hrow₁) List.mem_cons_self) ?_
      refine alone_revisionOrVanished hrow' ⟨.none, ?_⟩
      have htwice : (w'.revisions.modify r fun row =>
          { row with status := .materialized, validationErrors := [] }) =
            s.revisions.modify r fun _ => written := by
        rw [hframe.revisions, hrevisions, RevisionState.settle, Table.modify_modify,
          Table.modify_eq_of_row hrow]
      rw [hwrite]
      refine .return ⟨htwice, hframe.files.trans hshown.files, ?_, ?_⟩ ?_ hproject
      · simp only [hframe.projects]
        exact hshown.project
      · rw [hdigest, Option.getD_some] at htree
        exact showsContent_written hfree hfiled hrow hproject hdigest hcontent (htree rfl) hintact
          hcontent_eq written rfl rfl
      · rw [Table.row_modify_self, hrow]
        rfl
  · rw [hmanifest]
    by_cases he : e.isStorageError
    · refine hfailed e w₁ he rfl hshown.content ⟨.none, failure, s.content, ?_⟩
      rw [writeStaged, hvalid]
      cases failure with
      | unicodeEncodeError => simp [he] at hkind
      | _ => rfl
    · have hstate : Shows p k (s.settle r .staging row.validationErrors) w₁ := by
        refine ⟨hrevisions, hshown.files, hshown.project,
          hshown.content.agree (Agree.settle ?_ rfl)⟩
        intro other hother
        obtain rfl := Option.some.inj (hrow.symm.trans hother)
        exact hunstored
      change SessionAlone t (if e.isStorageError then _ else Labelled.raise e) _ w₁
      rw [if_neg he]
      refine ⟨.none, ?_⟩
      rw [writeStaged, hvalid, hkind.mp (Bool.eq_false_iff.mpr he)]
      exact .raise hstate

omit [Unicode] in
/-- What is verified in the store is verified in the project's state. -/
theorem verifyStored_shown (h : ShowsContent p k s w) (hrow : s.storedRow p r = some row)
    (htree : w.TreeStored k (row.digest.getD []) row.manifest) :
    verifyStored .none row.manifest (s.content (row.digest.getD [])) = .ok () := by
  refine verifyStored_of_intact fun entry hentry => ?_
  obtain ⟨bytes, hbytes, hintact⟩ := htree entry hentry
  exact ⟨bytes, (h r row hrow entry hentry).symm.trans hbytes, hintact⟩

omit [Unicode] in
theorem verifyStored_reads {manifest : List ManifestEntry} {content : Tree} :
    verifyStored .reads manifest content = .error .storageError := if_pos rfl

/-- **The loop of staging**: nobody takes the row away, so that one turn is enough. -/
theorem settleLoop_alone (laws : UnicodeLaws) (hfree : CollisionFree) (hfiled : Filed p s)
    (hshown : Shows p k s w) (hrow : s.revisions.row r = some row) (hproject : row.project = p)
    (hdigest : row.digest = some digest) (hdescribes : Describes row.manifest (canonicalTree files))
    (hfiles : ∀ file ∈ files.items, Plain file.1)
    (hplain : ∀ entry ∈ row.manifest, Plain entry.path) {turns : ℕ} :
    SessionAlone t (Vanishing.settleLoop k files r created (turns + 1) row)
      (fun result w' => ∃ fault, EndsAs p k (settleStaged files fault ⟨r, created⟩ s) result w')
      w := by
  unfold Vanishing.settleLoop settleStaged
  dsimp only
  rw [hrow]
  dsimp only
  split_ifs with hstored hretry
  · rcases rowManifest_cases row with ⟨hmanifest, hvalid⟩ | ⟨e, failure, hmanifest, hvalid, -⟩
    · rw [hmanifest, hvalid]
      refine alone_bind (alone_bind (wp_mono (fun result w' hw' => ?_) verify_alone))
      obtain ⟨rfl, htree⟩ := hw'
      cases result with
      | error e =>
        refine ⟨.reads, ?_⟩
        rw [verifyStored_reads]
        exact .raise hshown
      | ok u =>
        have hrow' : s.storedRow p r = some row := storedRow_eq_some.mpr
          ⟨hrow, hproject, by simp [hdigest], unstored_of_stored hstored⟩
        refine ⟨.none, ?_⟩
        rw [verifyStored_shown hshown.content hrow' (htree rfl)]
        exact .return hshown hrow hproject
    · rw [hmanifest, hvalid]
      exact ⟨.none, .raise hshown⟩
  · exact ⟨.none, .return hshown hrow hproject⟩
  · have hretryable := Bool.eq_true_of_not_eq_false hretry
    refine alone_ask (b := true) (fun c => ?_) (writeClaimed_alone laws hfree hfiled hshown hrow
      hproject hdigest (row.status.retryable_eq_unstored ▸ hretryable) hdescribes hfiles hplain)
    rw [Vanishing.execute, Vanishing.updateRevision, hshown.revisions, hrow]
    dsimp only
    rw [if_pos hretryable]

end Settling

/-! ## Staging -/

section Staging

variable [Unicode] [Hashing] {t : ThreadId} {p r : Id} {k : StorageKey} {s : RevisionState}
  {w : World} {row : RevisionRow} {files : SourceFiles} {limits : StorageLimits} {now : Time}
  {turns : ℕ} {entries : List ManifestEntry} {errors : List ManifestError}

omit [Unicode] [Hashing] in
/-- The records of a rejected source are stored, or one of them cannot be. -/
theorem storeAll_rejected (errors : List ManifestError) :
    Vanishing.storeAll Vanishing.storedRecord (errors.map ErrorRecord.rejected) =
      (storedErrors errors).map fun stored => stored.map ErrorRecord.rejected := by
  induction errors with
  | nil => rfl
  | cons error errors ih =>
    rw [List.map_cons, Vanishing.storeAll, ih, storedErrors, Vanishing.storedRecord]
    cases error.stored with
    | none => rfl
    | some first =>
      cases storedErrors errors with
      | none => rfl
      | some rest => rfl

omit [Unicode] [Hashing] in
/-- The row of a rejected source is created, or one of its records cannot be stored. -/
theorem insertRevision_rejected (hplain : ∀ entry ∈ row.manifest, Plain entry.path)
    (hproject : (w.projects.row row.project).isSome) (hdigest : row.digest = none)
    (herrors : row.validationErrors = errors.map ErrorRecord.rejected) :
    Vanishing.insertRevision row w = match storedErrors errors with
      | none => (.error .dataError, w)
      | some stored => (.ok w.revisions.next, { w with
          revisions := w.revisions.insert { row with
            validationErrors := stored.map ErrorRecord.rejected } }) := by
  rw [Vanishing.insertRevision, Vanishing.storedRow_of_plain hplain, herrors, storeAll_rejected]
  cases storedErrors errors with
  | none => rfl
  | some stored =>
    have hnone : ¬ (w.projects.row row.project).isNone = true := by
      rw [Option.isNone_iff_eq_none]
      exact Option.isSome_iff_ne_none.mp hproject
    dsimp only [Option.map_some]
    rw [if_neg (fun h => h.1 hdigest), if_neg hnone]

omit [Unicode] [Hashing] in
/-- A row that was not found is created. -/
theorem insertRevision_shown (hshown : Shows p k s w) (hproject : row.project = p)
    (hplain : ∀ entry ∈ row.manifest, Plain entry.path) (herrors : row.validationErrors = [])
    (hfind : (s.revisions.entries.find? fun found => found.2.SameIdentity row) = none) :
    Vanishing.insertRevision row w =
      (.ok s.revisions.next, { w with revisions := s.revisions.insert row }) := by
  obtain ⟨project, hthere, -⟩ := hshown.project
  have hvacant : Vanishing.Vacant row w := by
    intro r found hrow hsame
    rw [hshown.revisions] at hrow
    exact List.find?_eq_none.mp hfind (r, found) (Table.mem_entries.mpr hrow)
      (decide_eq_true hsame)
  rw [← hshown.revisions]
  refine Vanishing.insertRevision_ok ⟨hplain, ?_⟩ ?_ (.inr hvacant)
  · rw [herrors]
    intro _ hrecord
    cases hrecord
  · rw [hproject, hthere]
    rfl

/-- **A row that is found or created**, and then settled. -/
theorem getOrCreate_alone (laws : UnicodeLaws) (hfree : CollisionFree) (hfiled : Filed p s)
    (hshown : Shows p k s w) (hproject : row.project = p)
    (hdigest : row.digest = some (manifestDigest row.manifest)) (hstatus : row.status = .staging)
    (herrors : row.validationErrors = [])
    (hdescribes : Describes row.manifest (canonicalTree files))
    (hfiles : ∀ file ∈ files.items, Plain file.1)
    (hplain : ∀ entry ∈ row.manifest, Plain entry.path) :
    SessionAlone t (do
        let (r, found, created) ← Vanishing.getOrCreate row
        Vanishing.settleLoop k files r created (turns + 1) found) (fun result w' => ∃ fault,
      EndsAs p k (settleStaged files fault (getOrCreate s.revisions row).2
        { s with revisions := (getOrCreate s.revisions row).1 }) result w') w := by
  refine alone_bind (alone_ask (fun _ => rfl) ?_)
  rw [hshown.revisions, getOrCreate]
  cases hfind : s.revisions.entries.find? fun found => found.2.SameIdentity row with
  | some found =>
    obtain ⟨r, found⟩ := found
    have hrow := Table.mem_entries.mp (List.mem_of_find?_eq_some hfind)
    obtain ⟨hof, haddress, -⟩ : found.SameIdentity row := by simpa using List.find?_some hfind
    obtain ⟨hsame, tree, htree⟩ := (hfiled r found hrow (hof.trans hproject)).addressed _
      (haddress.trans hdigest)
    -- one digest is one tree
    obtain rfl := (hdescribes.manifestDigest_eq_iff hfree htree).mp hsame
    have hperm := perm_of_manifestDigest_eq hfree hdescribes.readable htree.readable hsame
    exact settleLoop_alone laws hfree hfiled hshown hrow (hof.trans hproject)
      (haddress.trans hdigest) htree hfiles fun entry hentry =>
        hplain entry (hperm.mem_iff.mpr hentry)
  | none =>
    have hinsert := insertRevision_shown hshown hproject hplain herrors hfind
    have hunstored : ¬ row.IsStoredSource p := by
      intro hstored
      have := hstored.2.2
      rw [hstatus] at this
      cases this
    have hsound : row.Sound p s.content := by
      refine ⟨fun digest hsome => ?_, fun hstored => absurd hstored hunstored⟩
      obtain rfl := Option.some.inj (hdigest.symm.trans hsome)
      exact ⟨rfl, _, hdescribes⟩
    refine alone_ask (fun c => by rw [Vanishing.execute, hinsert]) ?_
    exact settleLoop_alone laws hfree (hfiled.insert fun _ => hsound)
      (hshown.agree (Agree.insert hunstored)) Table.row_insert_next hproject hdigest hdescribes
      hfiles hplain

/-- **Staging** ends as the call that is one event. -/
theorem stageLocked_alone (laws : UnicodeLaws) (hkeeps : NfcKeeps) (hfree : CollisionFree)
    (hfiled : Filed p s) (hshown : Shows p k s w) :
    SessionAlone t (Vanishing.stageLocked p files limits now (turns + 1))
      (fun result w' => ∃ fault, EndsAs p k (stageRevision p files limits fault now s) result w')
      w := by
  obtain ⟨project, hproject, hkey, -⟩ := hshown.project
  unfold Vanishing.stageLocked stageRevision
  cases hbuild : buildManifest files limits with
  | error failure => exact ⟨.none, .raise hshown⟩
  | ok built =>
    obtain ⟨entries, errors⟩ := built
    have hentries := buildManifest_plain_entries hbuild
    refine alone_ask (fun _ => rfl) ?_
    rw [hshown.files]
    dsimp only
    split_ifs with herrors
    · have hinsert : Vanishing.insertRevision { stagedRow p entries (projectSnapshot p s.files) now
          with validationErrors := errors.map ErrorRecord.rejected } w = _ :=
        insertRevision_rejected hentries (by simp [stagedRow, hproject]) rfl rfl
      cases hstored : storedErrors errors with
      | none =>
        rw [hstored] at hinsert
        refine alone_bind (alone_bind (alone_ask (fun c => by rw [Vanishing.execute, hinsert]) ?_))
        exact ⟨.none, .raise hshown⟩
      | some stored =>
        let rejected : RevisionRow := { stagedRow p entries (projectSnapshot p s.files) now with
          validationErrors := stored.map ErrorRecord.rejected }
        have hunstored : ¬ rejected.IsStoredSource p := fun h => by cases h.2.1
        rw [hstored, hshown.revisions] at hinsert
        refine alone_bind (alone_bind (alone_ask (fun c => by rw [Vanishing.execute, hinsert]) ?_))
        refine ⟨.none, ?_⟩
        -- the row in memory has the records as they were found
        refine ⟨hshown.agree (Agree.insert hunstored), fun staged hok => ?_,
          fun _ herror => by cases herror⟩
        obtain rfl := Except.ok.inj hok
        exact ⟨_, rfl, rfl, rejected, Table.row_insert_next, rfl, rfl, rfl⟩
    · obtain rfl := not_not.mp herrors
      refine alone_projectOrVanished hproject ?_
      rw [hkey]
      refine session_projectLock_alone (fun result w k' owner h => h.imp fun _ => .setLock)
        fun owner => ?_
      exact getOrCreate_alone laws hfree hfiled hshown.setLock rfl rfl rfl rfl
        (buildManifest_builtFrom hbuild).describes
        (hkeeps.plain_of_buildManifest hbuild fun _ herror => by cases herror) hentries

/-- A row that a call returns has a digest where the stored one has: no digest is empty. -/
theorem hasDigest_eq (hdigests : ∀ manifest, manifestDigest manifest ≠ []) (hfiled : Filed p s)
    {stored : RevisionRow} (hrow : s.revisions.row r = some stored) (hproject : stored.project = p)
    (hsame : row.digest = stored.digest) :
    Vanishing.hasDigest row = stored.digest.isSome := by
  rw [Vanishing.hasDigest, hsame]
  cases hdigest : stored.digest with
  | none => simp
  | some digest =>
    have haddress := ((hfiled r stored hrow hproject).addressed digest hdigest).1
    simp [haddress, hdigests]

/-- **An acceptance**, by a service that records it. -/
theorem acceptSource_alone (hdigests : ∀ manifest, manifestDigest manifest ≠ [])
    (hfiled : Filed p s) (hshown : Shows p k s w) (hreturned : Returned p s r row)
    (activateOnce : Bool) :
    Alone t (Requests.acceptSource r row activateOnce) (fun result w' => result = .ok () ∧
      Shows p k (s.acceptSource r activateOnce) w') w := by
  obtain ⟨hproject, stored, hrow, hstored, hdigest, hstatus⟩ := hreturned
  obtain ⟨project, hthere, hkey, hsource, hpending⟩ := hshown.project
  unfold Requests.acceptSource RevisionState.acceptSource
  rw [hrow, hasDigest_eq hdigests hfiled hrow hstored hdigest, hstatus]
  dsimp only
  split_ifs with haccepted
  · refine wp_query_undisturbed (fun _ => trivial) ?_
    rw [hproject, hthere]
    refine wp_act_undisturbed fun c answer w' hstep => ⟨trivial, ?_⟩
    have hrevision : ¬ (w.revisions.row r).isNone = true := by
      simp [hshown.revisions, hrow]
    rw [hthere] at hstep
    dsimp only at hstep
    rw [if_neg hrevision, hsource, hpending] at hstep
    cases hstep
    have haccept := hshown.accept (some r)
      ((activateOnce || (decide (s.sourceRevision = some r) && s.sourceActivationPending)) &&
        decide (stored.status ≠ .active))
    exact ⟨rfl, haccept.revisions, haccept.files, haccept.project, haccept.content⟩
  · exact ⟨rfl, hshown⟩

/-- **An acceptance**, by a session. -/
theorem session_acceptSource_alone (hdigests : ∀ manifest, manifestDigest manifest ≠ [])
    (hfiled : Filed p s) (hshown : Shows p k s w) (hreturned : Returned p s r row)
    (activateOnce : Bool) :
    SessionAlone t (Vanishing.acceptSource r row activateOnce) (fun result w' => result = .ok () ∧
      Shows p k (s.acceptSource r activateOnce) w') w := by
  obtain ⟨hproject, stored, hrow, hstored, hdigest, hstatus⟩ := hreturned
  obtain ⟨project, hthere, hkey, hsource, hpending⟩ := hshown.project
  unfold Vanishing.acceptSource RevisionState.acceptSource
  rw [hrow, hasDigest_eq hdigests hfiled hrow hstored hdigest, hstatus]
  dsimp only
  split_ifs with haccepted
  · refine alone_ask (fun _ => rfl) ?_
    rw [hproject, hthere]
    have hrevision : ¬ (w.revisions.row r).isNone = true := by
      simp [hshown.revisions, hrow]
    refine alone_ask (fun c => by
      rw [Vanishing.execute, hthere]
      dsimp only
      rw [if_neg hrevision]) ?_
    rw [hsource, hpending]
    exact ⟨rfl, hshown.accept (some r) _⟩
  · exact ⟨rfl, hshown⟩

theorem stageSource_error {activateOnce : Bool} {fault : StorageFault}
    {failure : StagingFailure}
    (h : (stageRevision p files limits fault now s).1 = .error failure) :
    stageSource p files limits activateOnce fault now s =
      (.error failure, (stageRevision p files limits fault now s).2) := by
  unfold stageSource
  split <;> simp_all

theorem stageSource_ok {activateOnce : Bool} {fault : StorageFault}
    {staged : StagedRevision} (h : (stageRevision p files limits fault now s).1 = .ok staged) :
    stageSource p files limits activateOnce fault now s =
      (.ok staged, (stageRevision p files limits fault now s).2.acceptSource staged.revision
        activateOnce) := by
  unfold stageSource
  split <;> simp_all

/-- **A staging service** ends as the call that is one event, which returns exactly where it
does. -/
theorem stageRevision_alone (laws : UnicodeLaws) (hkeeps : NfcKeeps) (hfree : CollisionFree)
    (hdigests : ∀ manifest, manifestDigest manifest ≠ []) (hfiled : Filed p s)
    (hshown : Shows p k s w) {activateOnce : Bool} :
    Alone t (Requests.stageRevision p files limits activateOnce now (turns + 1))
      (fun result w' => ∃ fault,
        result.isOk = (stageSource p files limits activateOnce fault now s).1.isOk ∧
          Shows p k (stageSource p files limits activateOnce fault now s).2 w') w := by
  obtain ⟨project, hproject, hkey, -⟩ := hshown.project
  rw [Alone, Requests.stageRevision, wp_bind, getProject]
  refine wp_query_undisturbed (fun _ => trivial) ?_
  rw [hproject, wp_pure, andThen_ok, hkey]
  refine wp_projectLock_undisturbed (fun result w k' owner => ?_) fun owner => ?_
  · rintro ⟨fault, hreturns, hshown⟩
    exact ⟨fault, hreturns, hshown.setLock⟩
  · rw [wp_bind]
    refine wp_mono (fun result w' hends => ?_)
      (stageLocked_alone laws hkeeps hfree hfiled hshown.setLock)
    obtain ⟨fault, hends⟩ := hends
    obtain ⟨digest, hsourced, -⟩ := stageRevision_sourced hfree hfiled files limits fault now
    refine hends.andThen (fun failure e hcall => ⟨fault, ?_⟩) fun staged row hcall hreturned => ?_
    · rw [stageSource_error hcall]
      exact ⟨rfl, hends.shown⟩
    · refine wp_mono (fun result w'' haccepted => ⟨fault, ?_⟩)
        (acceptSource_alone hdigests hsourced.filed hends.shown hreturned activateOnce)
      obtain ⟨rfl, hshown'⟩ := haccepted
      rw [stageSource_ok hcall]
      exact ⟨rfl, hshown'⟩

/-- **A staging session** returns what the call that is one event does. -/
theorem session_stageRevision_alone (laws : UnicodeLaws) (hkeeps : NfcKeeps)
    (hfree : CollisionFree) (hdigests : ∀ manifest, manifestDigest manifest ≠ [])
    (hfiled : Filed p s) (hshown : Shows p k s w) {activateOnce : Bool} :
    SessionAlone t (Vanishing.stageRevision p files limits activateOnce now (turns + 1))
      (fun result w' => ∃ fault,
        result.toOption = (stageSource p files limits activateOnce fault now s).1.toOption ∧
          Shows p k (stageSource p files limits activateOnce fault now s).2 w') w := by
  obtain ⟨project, hproject, hkey, -⟩ := hshown.project
  refine alone_projectOrVanished hproject ?_
  rw [hkey]
  refine session_projectLock_alone (fun result w k' owner => ?_) fun owner => ?_
  · rintro ⟨fault, hreturns, hshown⟩
    exact ⟨fault, hreturns, hshown.setLock⟩
  · refine alone_bind (wp_mono (fun result w' hends => ?_)
      (stageLocked_alone laws hkeeps hfree hfiled hshown.setLock))
    obtain ⟨fault, hends⟩ := hends
    obtain ⟨digest, hsourced, -⟩ := stageRevision_sourced hfree hfiled files limits fault now
    refine hends.andThen (fun failure e hcall => ⟨fault, ?_⟩) fun staged row hcall hreturned => ?_
    · rw [stageSource_error hcall]
      exact ⟨rfl, hends.shown⟩
    · refine alone_bind (wp_mono (fun result w'' haccepted => ?_)
        (session_acceptSource_alone hdigests hsourced.filed hends.shown hreturned activateOnce))
      obtain ⟨rfl, hshown'⟩ := haccepted
      refine ⟨fault, ?_⟩
      rw [stageSource_ok hcall]
      exact ⟨rfl, hshown'⟩

end Staging

/-! ## Refreshing -/

section Refreshing

variable [Unicode] [Hashing] {t : ThreadId} {p r pk : Id} {k : StorageKey} {s s' : RevisionState}
  {w : World} {row source : RevisionRow} {now : Time}

omit [Unicode] [Hashing] in
/-- Revisions that are stored under the digest of a stored one have its files. -/
theorem ShowsContent.refreshed (h : ShowsContent p k s w) (hsource : s.storedRow p pk = some source)
    (hrows : ∀ i row, s'.storedRow p i = some row → s.storedRow p i = some row ∨
      row.digest = source.digest ∧ ∀ entry ∈ row.manifest, entry ∈ source.manifest)
    (hcontent : s'.content = s.content) : ShowsContent p k s' w := by
  intro i row hrow entry hentry
  rw [hcontent]
  rcases hrows i row hrow with hold | ⟨hdigest, hfiles⟩
  · exact h i row hold entry hentry
  · rw [hdigest]
    exact h pk source hsource entry (hfiles entry hentry)

/-- **A row whose content was verified** is found or created, and settled. -/
theorem refreshed_alone (hfree : CollisionFree) (hfiled : Filed p s) (hshown : Shows p k s w)
    (hsource : s.storedRow p pk = some source) (hproject : row.project = p)
    (hdigest : row.digest = source.digest) (hmanifest : row.manifest = source.manifest)
    (hstatus : row.status = .materialized) (herrors : row.validationErrors = []) :
    SessionAlone t (do
        let (r, candidate, created) ← Vanishing.getOrCreate row
        if candidate.status.retryable then do
          Vanishing.ask (.settle r [.staging, .storageFailed] .materialized [])
          let candidate ← Vanishing.revisionOrVanished r
          pure (⟨r, created⟩, candidate)
        else pure (⟨r, created⟩, candidate)) (fun result w' =>
      EndsAs p k (settleVerified (getOrCreate s.revisions row).2
        { s with revisions := (getOrCreate s.revisions row).1 }) result w') w := by
  obtain ⟨hsourceRow, hstored⟩ := storedRow_eq_some.mp hsource
  have hsound := hfiled pk source hsourceRow hstored.1
  obtain ⟨digest, hsome⟩ := Option.isSome_iff_exists.mp hstored.2.1
  obtain ⟨haddress, tree, hdescribes⟩ := hsound.addressed digest hsome
  have htrusted := (hsound.stored hstored).1
  refine alone_bind (alone_ask (fun _ => rfl) ?_)
  rw [hshown.revisions, getOrCreate]
  cases hfind : s.revisions.entries.find? fun found => found.2.SameIdentity row with
  | some found =>
    obtain ⟨r, candidate⟩ := found
    have hrow := Table.mem_entries.mp (List.mem_of_find?_eq_some hfind)
    obtain ⟨hof, hsame, -⟩ : candidate.SameIdentity row := by simpa using List.find?_some hfind
    have hcandidate := hfiled r candidate hrow (hof.trans hproject)
    obtain ⟨haddress', tree', hdescribes'⟩ :=
      hcandidate.addressed digest (hsame.trans (hdigest.trans hsome))
    have hperm := perm_of_manifestDigest_eq hfree hdescribes'.readable hdescribes.readable
      (haddress'.symm.trans haddress)
    rw [settleVerified]
    dsimp only
    rw [hrow]
    dsimp only
    change SessionAlone t (ite _ _ _) _ w
    split_ifs with hretryable
    · have hmem : candidate.status ∈ [.staging, .storageFailed] := by
        revert hretryable
        cases candidate.status <;> simp [RevisionStatus.retryable]
      have hrow' : (w.revisions.modify r fun row =>
          { row with status := .materialized, validationErrors := [] }).row r =
            some { candidate with status := .materialized, validationErrors := [] } := by
        rw [Table.row_modify_self, hshown.revisions, hrow]
        rfl
      refine alone_ask (execute_settle (hshown.revisions ▸ hrow) hmem) ?_
      refine alone_revisionOrVanished hrow' ?_
      refine .return ⟨?_, hshown.files, hshown.project, ?_⟩ ?_ (hof.trans hproject)
      · simp only [RevisionState.settle, hshown.revisions]
      · refine hshown.content.refreshed hsource (fun i other hother => ?_) rfl
        obtain ⟨hother, hstored'⟩ := storedRow_eq_some.mp hother
        obtain ⟨old, hold, rfl⟩ := Table.row_modify_eq_some hother
        split_ifs at hstored' ⊢ with hi
        · subst hi
          obtain rfl := Option.some.inj (hrow.symm.trans hold)
          exact .inr ⟨hsame.trans hdigest, fun entry hentry => hperm.mem_iff.mp hentry⟩
        · exact .inl (storedRow_eq_some.mpr ⟨hold, hstored'⟩)
      · rw [← hrow', hshown.revisions]
        rfl
    · exact .return hshown hrow (hof.trans hproject)
  | none =>
    have hplain : ∀ entry ∈ row.manifest, Plain entry.path := fun entry hentry =>
      plain_canonical (htrusted.acceptable entry (hmanifest ▸ hentry)).canonical
    have hinsert := insertRevision_shown hshown hproject hplain herrors hfind
    have hfresh : row.status.retryable = false := by rw [hstatus]; rfl
    refine alone_ask (fun c => by rw [Vanishing.execute, hinsert]) ?_
    rw [settleVerified]
    dsimp only
    rw [Table.row_insert_next]
    dsimp only
    change SessionAlone t (ite _ _ _) _ _
    rw [if_neg (by rw [hfresh]; decide), if_neg (by rw [hfresh]; decide)]
    refine .return ⟨rfl, hshown.files, hshown.project, ?_⟩ Table.row_insert_next hproject
    refine hshown.content.refreshed hsource (fun i other hother => ?_) rfl
    obtain ⟨hother, hstored'⟩ := storedRow_eq_some.mp hother
    rcases Table.row_insert_eq_some hother with ⟨-, rfl⟩ | hold
    · exact .inr ⟨hdigest, fun entry hentry => hmanifest ▸ hentry⟩
    · exact .inl (storedRow_eq_some.mpr ⟨hold, hstored'⟩)

/-- **Refreshing** ends as the call that is one event. -/
theorem refreshLocked_alone (hfree : CollisionFree)
    (hdigests : ∀ manifest, manifestDigest manifest ≠ []) (hfiled : Filed p s)
    (hshown : Shows p k s w) (hsource : s.storedRow p pk = some source) :
    SessionAlone t (Vanishing.refreshLocked pk now) (fun result w' => ∃ fault,
      EndsAs p k (refreshRevisionScriptFiles pk fault now s) result w') w := by
  obtain ⟨hrow, hstored⟩ := storedRow_eq_some.mp hsource
  obtain ⟨digest, hdigest⟩ := Option.isSome_iff_exists.mp hstored.2.1
  obtain ⟨project, hproject, hkey, -⟩ := hshown.project
  have hhas : Vanishing.hasDigest source = source.digest.isSome :=
    hasDigest_eq hdigests hfiled hrow hstored.1 rfl
  have haddress : source.digest.getD [] = digest := by rw [hdigest, Option.getD_some]
  refine alone_revisionOrVanished (hshown.revisions ▸ hrow) ?_
  unfold refreshRevisionScriptFiles
  rw [if_neg (by simp [hhas, hdigest]), hrow]
  dsimp only
  rw [hdigest]
  dsimp only
  rcases rowManifest_cases source with ⟨hmanifest, hvalid⟩ | ⟨e, failure, hmanifest, hvalid, -⟩
  · rw [hmanifest, hvalid]
    refine alone_bind (alone_ask (fun _ => rfl) ?_)
    refine alone_projectOrVanished (hstored.1 ▸ hproject) ?_
    rw [hkey, hshown.files]
    refine session_projectLock_alone (fun result w k' owner h => h.imp fun _ => .setLock)
      fun owner => ?_
    refine alone_bind (wp_mono (fun result w' hw' => ?_) verify_alone)
    obtain ⟨rfl, htree⟩ := hw'
    cases result with
    | error e =>
      refine ⟨.reads, ?_⟩
      rw [verifyStored_reads]
      exact .raise hshown.setLock
    | ok u =>
      have htree' : (w.setLock k owner).TreeStored k digest source.manifest := htree rfl
      rw [← haddress] at htree'
      have hverified := verifyStored_shown hshown.setLock.content hsource htree'
      rw [haddress] at hverified
      refine wp_mono (fun result w' hends => ⟨.none, ?_⟩) (refreshed_alone hfree hfiled
        hshown.setLock hsource hstored.1 hdigest.symm rfl rfl rfl)
      rw [hverified]
      exact hends
  · rw [hmanifest, hvalid]
    exact ⟨.none, .raise hshown⟩

omit [Unicode] [Hashing] in
/-- The latest stored revision is the one of the project's state. -/
theorem Shows.latestStoredRevision (h : Shows p k s w) :
    w.latestStoredRevision p = s.latestStoredRevision p := by
  obtain ⟨project, hproject, -, hsource, -⟩ := h.project
  have hnewest : w.newestRevision p = (s.revisions.entries.filterMap fun revision =>
      if revision.2.IsStoredSource p then some revision else none).foldl (fun newest revision =>
        if newest.all fun best => best.2.created ≤ revision.2.created then some revision
        else newest) none := by
    rw [World.newestRevision, h.revisions, ← List.filterMap_eq_filter]
    congr 2
    funext revision
    simp [Option.guard]
  have haccepted : w.acceptedRevision p = s.sourceRevision.bind fun pk =>
      (s.storedRow p pk).map fun row => (pk, row) := by
    simp only [World.acceptedRevision, Option.bind_eq_bind, hproject, Option.bind_some, hsource,
      h.revisions]
    refine congrArg _ (funext fun pk => ?_)
    rw [RevisionState.storedRow, Option.map_bind]
    refine congrArg _ (funext fun row => ?_)
    simp only [Function.comp_apply]
    split_ifs <;> rfl
  rw [World.latestStoredRevision, haccepted, hnewest]
  rfl

/-- **The refresh job** ends as the operation that is one event. -/
theorem refreshSource_alone (hfree : CollisionFree)
    (hdigests : ∀ manifest, manifestDigest manifest ≠ []) (hfiled : Filed p s)
    (hshown : Shows p k s w) :
    Alone t (Requests.refreshSource p now) (fun _ w' => ∃ fault,
      Shows p k (refreshJob p fault now s) w') w := by
  obtain ⟨project, hproject, hkey, -⟩ := hshown.project
  have hpost : ∀ (result : Except Failure Unit) w k' owner,
      (∃ fault, Shows p k (refreshJob p fault now s) w) →
        ∃ fault, Shows p k (refreshJob p fault now s) (w.setLock k' owner) :=
    fun _ _ _ _ h => h.imp fun _ => .setLock
  refine wp_query_undisturbed (fun _ => trivial) ?_
  rw [hproject]
  dsimp only
  rw [hkey]
  refine wp_projectLock_undisturbed hpost fun owner => ?_
  refine wp_query_undisturbed (fun _ => trivial) ?_
  rw [hshown.setLock.latestStoredRevision]
  unfold refreshJob at hpost ⊢
  cases hlatest : s.latestStoredRevision p with
  | none => exact ⟨.none, hshown.setLock⟩
  | some latest =>
    obtain ⟨pk, source⟩ := latest
    have hsource := storedRow_of_latestStoredRevision hlatest
    have hstored := (storedRow_eq_some.mp hsource).2
    rw [hlatest] at hpost
    dsimp only at hpost ⊢
    rw [Requests.refreshRevisionScriptFiles, hstored.1]
    refine alone_getProject hproject ?_
    rw [hkey]
    refine wp_projectLock_undisturbed hpost fun owner => ?_
    rw [wp_bind]
    refine wp_mono (fun result w' hends => ?_)
      (refreshLocked_alone hfree hdigests hfiled hshown.setLock.setLock hsource)
    obtain ⟨fault, hends⟩ := hends
    have hsourced := (refreshRevision_sourced hfree hfiled hsource fault now).filed
    rcases hcall : refreshRevisionScriptFiles pk fault now s with ⟨outcome, s'⟩
    rw [hcall] at hends hsourced
    refine hends.andThen (fun failure e hfailed => ⟨fault, ?_⟩) fun staged row hok hreturned => ?_
    · obtain rfl : outcome = .error failure := hfailed
      rw [hcall]
      exact hends.shown
    · obtain rfl : outcome = .ok staged := hok
      refine wp_mono (fun result w'' haccepted => ⟨fault, ?_⟩)
        (acceptSource_alone hdigests hsourced hends.shown hreturned false)
      rw [hcall]
      exact haccepted.2

end Refreshing

/-! ## Uploading -/

section Uploading

variable [Unicode] [Hashing] {t : ThreadId} {p : Id} {k : StorageKey} {s : RevisionState}
  {w : World} {upload : Ingestion} {path : PyStr} {table : Table ScriptFileRow} {tree : SourceFiles}
  {turns : ℕ}

/-- An upload whose path is declared stages the source that it was merged into. -/
theorem ingestUpload_eq (hpath : uploadedSourcePath upload.filename = .ok path)
    (hdeclared : upload.declared p path s.files = .ok table) (hreadable : upload.readable = true)
    (htree : { s with files := table }.currentSourceTree p = .ok tree) :
    ingestUpload p upload s =
      ((stageSource p (tree.set path upload.content) upload.limits upload.activateOnce upload.fault
        upload.now { s with files := table }).1.mapError .failed,
      (stageSource p (tree.set path upload.content) upload.limits upload.activateOnce upload.fault
        upload.now { s with files := table }).2) := by
  rw [ingestUpload, hpath]
  dsimp only
  rw [hdeclared]
  dsimp only
  rw [if_pos hreadable, htree, stageSource]
  dsimp only
  rcases stageRevision p (tree.set path upload.content) upload.limits upload.fault upload.now
    { s with files := table } with ⟨outcome, s'⟩
  cases outcome <;> rfl

/-- **An upload**, once its path is declared and the current source read, ends as the operation that
is one event. -/
theorem ingest_alone (laws : UnicodeLaws) (hkeeps : NfcKeeps) (hfree : CollisionFree)
    (hdigests : ∀ manifest, manifestDigest manifest ≠ []) (hfiled : Filed p s)
    (hpath : uploadedSourcePath upload.filename = .ok path)
    (hdeclared : upload.declared p path s.files = .ok table) (hreadable : upload.readable = true)
    (htree : { s with files := table }.currentSourceTree p = .ok tree)
    (hshown : Shows p k { s with files := table } w) :
    Alone t (Requests.stageRevision p (tree.set path upload.content) upload.limits
        upload.activateOnce upload.now (turns + 1)) (fun result w' => ∃ fault,
      result.isOk = (ingestUpload p { upload with fault } s).1.isOk ∧
        Shows p k (ingestUpload p { upload with fault } s).2 w') w := by
  refine wp_mono (fun result w' hends => ?_)
    (stageRevision_alone laws hkeeps hfree hdigests (s := { s with files := table }) hfiled hshown)
  obtain ⟨fault, hreturns, hshown'⟩ := hends
  refine ⟨fault, ?_⟩
  have hupload : ingestUpload p { upload with fault } s = _ :=
    ingestUpload_eq hpath hdeclared hreadable htree
  rw [hupload]
  refine ⟨hreturns.trans ?_, hshown'⟩
  rcases stageSource p (tree.set path upload.content) upload.limits upload.activateOnce fault
    upload.now { s with files := table } with ⟨outcome, s'⟩
  cases outcome <;> rfl

end Uploading

/-! ## Promoting -/

section Promoting

variable [Unicode] [Hashing] {t : ThreadId} {r : Id} {w : World} {project : ProjectRow}
  {snapshot locked : RevisionRow} {automatic isRepair : Bool}
  {post : Except Failure Unit → World → Prop}

omit [Unicode] in
/-- The question of an automatic activation, of a state that nobody changes. -/
theorem isCurrent_alone {next : Bool → Service Unit}
    (h : Alone t (next (Lifecycle.isCurrent w locked.project r project locked)) post w) :
    Alone t (Requests.isCurrent r project locked >>= next) post w := by
  unfold Requests.isCurrent
  split_ifs with hsource hpolicy
  · have hrefused : Lifecycle.isCurrent w locked.project r project locked = false :=
      decide_eq_false fun hcurrent => hsource hcurrent.1
    rw [hrefused] at h
    exact h
  · have hrefused : Lifecycle.isCurrent w locked.project r project locked = false := by
      refine decide_eq_false fun hcurrent => ?_
      rcases hcurrent.2.1 with hpending | hautomatic
      · rw [hpolicy.1] at hpending
        cases hpending
      · exact hpolicy.2 hautomatic
    rw [hrefused] at h
    exact h
  · have hrequest : project.sourceActivationPending = true ∨
        project.activationPolicy = .automaticIfValid := by
      by_contra hnone
      rw [not_or, Bool.not_eq_true] at hnone
      exact hpolicy hnone
    have hasked : Lifecycle.isCurrent w locked.project r project locked = decide (snapshotDigest
        (buildScriptFileSnapshot (w.declarations locked.project)) = locked.scriptFileDigest) :=
      decide_eq_decide.mpr
        ((and_iff_right (not_not.mp hsource)).trans (and_iff_right hrequest))
    rw [hasked] at h
    exact wp_act_undisturbed fun c b w' hstep => by
      cases hstep
      exact ⟨trivial, h⟩

omit [Unicode] in
/-- **The promotion**, statement by statement, ends as the one that is a single statement. -/
theorem promote_alone (h : Alone t (Lifecycle.promote snapshot r automatic isRepair) post w) :
    Alone t (Requests.promote snapshot r automatic isRepair) post w := by
  have hends := fun c result w' hstep => (h w .refl c result w' hstep).2
  dsimp only at hends
  rw [Alone, Requests.promote, wp_bind, getProject]
  refine wp_query_undisturbed (fun _ => trivial) ?_
  cases hproject : w.projects.row snapshot.project with
  | none => exact hends .proceed _ _ (by rw [hproject])
  | some project =>
    change Alone t (getRevision r .revisionVanished >>= _) post w
    rw [Alone, wp_bind, getRevision]
    refine wp_query_undisturbed (fun _ => trivial) ?_
    cases hrow : w.revisions.row r with
    | none => exact hends .proceed _ _ (by rw [hproject, hrow])
    | some locked =>
      rw [hproject, hrow] at hends
      dsimp only at hends
      change Alone t (ite _ _ _) post w
      by_cases hof : locked.project ≠ snapshot.project
      · rw [if_pos hof]
        exact hends .proceed _ _ (if_pos hof)
      · rw [if_neg hof]
        have hsame := not_not.mp hof
        simp only [if_neg hof] at hends
        rw [← hsame] at hends
        -- what is committed is the same, unless the question was asked and denied
        have hcommit (hasked : ¬ (automatic = true ∧
            Lifecycle.isCurrent w locked.project r project locked = false)) :
            Alone t (Requests.commitPromotion snapshot r project locked isRepair) post w := by
          simp only [if_neg hasked] at hends
          exact wp_act_undisturbed fun c result w' hstep => ⟨trivial, hends c result w' hstep⟩
        cases hautomatic : automatic with
        | false => exact hcommit fun hasked => by simp [hautomatic] at hasked
        | true =>
          refine isCurrent_alone ?_
          cases hcurrent : Lifecycle.isCurrent w locked.project r project locked with
          | true => exact hcommit fun hasked => by simp [hcurrent] at hasked
          | false => exact hends .proceed _ _ (if_pos ⟨hautomatic, hcurrent⟩)

end Promoting

end Serial

end NetBoxScripts
