import NetBoxScripts.Services.Revisions

/-!
# Bad content

`stage_revision` is to take every source: what cannot be stored is a rejected revision with the
errors found. Here the database takes part, which keeps the error records as `jsonb`; backend and
rows are healthy.

## Main definitions

* `stageSource`: `stage_revision`
* `Healthy`: the rows of a project as calls on a backend that works leave them
* `Promised`: what a call is to do
* `Stageable`: the sources with which it does

## Main results

* `settleStaged_ok_iff`: when the row of a digest is settled
* `stageSource_promised_iff`
-/

namespace NetBoxScripts

section Staging

variable [Unicode] [Hashing]

/-- `stage_revision(project, files, activate_once=…)` -/
def stageSource (project : Id) (files : SourceFiles) (limits : StorageLimits) (activateOnce : Bool)
    (fault : StorageFault) (now : Time) (s : RevisionState) : StagingResult :=
  match stageRevision project files limits fault now s with
  | (.ok staged, s) => (.ok staged, s.acceptSource staged.revision activateOnce)
  | (.error failure, s) => (.error failure, s)

/-- The digest of a row is that of its manifest, which records a tree, and its totals are the
manifest's. -/
structure RevisionRow.Described (row : RevisionRow) (digest : PyStr) : Prop where
  digest_eq : digest = manifestDigest row.manifest
  describes : ∃ tree, Describes row.manifest tree
  file_count : row.fileCount = row.manifest.length
  total_size : row.totalSize = (row.manifest.map ManifestEntry.size).sum

/-- **The rows of a project, healthy**: each has the digest of its manifest, the manifest of one
whose write ended is valid, and what counts as stored is stored. -/
structure Healthy (project : Id) (s : RevisionState) : Prop where
  described : ∀ pk row digest, s.revisions.row pk = some row → row.project = project →
    row.digest = some digest → row.Described digest
  written : ∀ pk row, s.revisions.row pk = some row → row.project = project →
    row.digest.isSome → row.status.retryable = false → validatedManifest row = .ok ()
  stored : ∀ pk row digest, s.revisions.row pk = some row → row.project = project →
    row.digest = some digest → row.status.stored →
      verifyStored .none row.manifest (s.content digest) = .ok ()

/-- **What a call is to do**: it returns a new revision with the errors found, or one with the
digest of the tree. -/
structure Promised (project : Id) (files : SourceFiles) (limits : StorageLimits) (s : RevisionState)
    (result : StagingResult) : Prop where
  returns : ∃ staged, result.1 = .ok staged
  revision : ∀ staged entries errors, result.1 = .ok staged →
    buildManifest files limits = .ok (entries, errors) →
    ∃ row, result.2.revisions.row staged.revision = some row ∧ row.project = project ∧
      (errors ≠ [] → staged.created = true ∧ s.revisions.row staged.revision = none ∧
        row.status = .invalid ∧ row.digest = none ∧
        row.validationErrors = errors.map ErrorRecord.rejected) ∧
      (errors = [] → row.digest = computeDigest (entries.map ManifestEntry.toJson))

/-- Paths without surrogates or U+0000, and stable spellings where nothing is rejected. -/
structure Stageable (files : SourceFiles) (limits : StorageLimits) : Prop where
  plain : ∀ file ∈ files.items, Plain file.1
  stable : Buildable files limits → ∀ file ∈ files.items, StableSpelling file.1

/-! ## A row settles -/

variable {project : Id} {files : SourceFiles} {limits : StorageLimits} {s : RevisionState}
  {entries manifest : List ManifestEntry} {errors : List ManifestError} {row : RevisionRow}
  {staged : StagedRevision} {digest : PyStr}

/-- The manifest of a row is valid exactly where its entries can be trusted. -/
theorem validatedManifest_eq_ok_iff (hdigest : row.digest = some digest)
    (h : row.Described digest) : validatedManifest row = .ok () ↔ Trusted row.manifest := by
  rw [← validateManifest_toJson_iff, validatedManifest, hdigest, h.digest_eq]
  cases validateManifest (.arr (row.manifest.map ManifestEntry.toJson))
      (some (manifestDigest row.manifest)) with
  | ok u => simp [h.file_count, h.total_size]
  | error failure => cases failure <;> simp

/-- What was built can be trusted exactly where the spellings are stable. -/
theorem BuiltFrom.trusted_iff (h : BuiltFrom files limits entries)
    (hhex : ∀ file ∈ files.items, isHexDigest (sha256 file.2)) :
    Trusted entries ↔ ∀ file ∈ files.items, StableSpelling file.1 := by
  constructor
  · intro htrusted file hfile
    obtain ⟨entry, hentry, hof⟩ := h.covers file hfile
    exact (hof.acceptable_iff (hhex file hfile)).mp (htrusted.acceptable entry hentry)
  · intro hstable
    refine ⟨fun entry hentry => ?_, h.nodup, h.coexist⟩
    obtain ⟨file, hfile, hof⟩ := h.entryOf entry hentry
    exact (hof.acceptable_iff (hhex file hfile)).mpr (hstable file hfile)

omit [Unicode] in
/-- A backend without faults holds every entry after the write. -/
theorem writeEntries_holds {source : Tree} (hnodup : (manifest.map ManifestEntry.path).Nodup)
    (hsource : ∀ entry ∈ manifest, ∃ bytes, source entry.path = some bytes ∧ Intact bytes entry)
    (content : Tree) :
    ∃ content', writeEntries source .none manifest content = (.ok (), content') ∧
      (∀ path ∉ manifest.map ManifestEntry.path, content' path = content path) ∧
      ∀ entry ∈ manifest, ∃ bytes, content' entry.path = some bytes ∧ Intact bytes entry := by
  induction manifest generalizing content with
  | nil => exact ⟨content, rfl, fun _ _ => rfl, nofun⟩
  | cons entry manifest ih =>
    rw [List.map_cons, List.nodup_cons] at hnodup
    rw [List.forall_mem_cons] at hsource
    obtain ⟨⟨bytes, hbytes, hintact⟩, hrest⟩ := hsource
    -- the content after this entry, whether it was written or left alone
    obtain ⟨next, hnext, hframe, stored, hstored, hintact'⟩ : ∃ next : Tree,
        writeEntries source .none (entry :: manifest) content =
          writeEntries source .none manifest next ∧
        (∀ path, path ≠ entry.path → next path = content path) ∧
        ∃ stored, next entry.path = some stored ∧ Intact stored entry := by
      rw [writeEntries, hbytes]
      dsimp only
      by_cases hheld : (content entry.path).any fun stored => Intact stored entry
      · rw [if_pos hheld]
        obtain ⟨stored, hstored, hintact'⟩ := (Option.any_eq_true _ _).mp hheld
        exact ⟨content, rfl, fun _ _ => rfl, stored, hstored, of_decide_eq_true hintact'⟩
      · rw [if_neg hheld]
        refine ⟨_, rfl, fun path hne => Function.update_of_ne hne _ _, bytes, ?_, hintact⟩
        exact Function.update_self _ _ _
    obtain ⟨content', hwrite, hunchanged, hall⟩ := ih hnodup.2 hrest next
    refine ⟨content', hnext.trans hwrite, fun path hpath => ?_, List.forall_mem_cons.mpr
      ⟨⟨stored, ?_, hintact'⟩, hall⟩⟩
    · rw [List.map_cons, List.mem_cons, not_or] at hpath
      rw [hunchanged path hpath.2, hframe path hpath.1]
    · rw [hunchanged _ hnodup.1, hstored]

omit [Unicode] in
/-- The content a manifest was made from is what it records. -/
theorem Describes.intact {tree : Tree} (h : Describes manifest tree) :
    ∀ entry ∈ manifest, ∃ bytes, tree entry.path = some bytes ∧ Intact bytes entry := by
  intro entry hentry
  have hfile := (fileAt_eq_some_iff h.nodup).mpr ⟨entry, hentry, rfl, rfl⟩
  rw [h.files] at hfile
  obtain ⟨bytes, hbytes, hmeasure⟩ := Option.map_eq_some_iff.mp hfile
  obtain ⟨hsize, hsha⟩ := Prod.mk.inj hmeasure
  exact ⟨bytes, hbytes, hsize, hsha⟩

/-- The write of a row whose manifest records the sources: it ends well where they are stable. -/
theorem writeStaged_ok_iff (hdigest : row.digest = some digest) (h : row.Described digest)
    (hdescribes : Describes row.manifest (canonicalTree files)) :
    (∃ staged', (writeStaged files .none staged row s).1 = .ok staged') ↔ Trusted row.manifest := by
  rw [← validatedManifest_eq_ok_iff hdigest h, writeStaged, hdigest]
  dsimp only [Option.getD_some]
  cases hvalidated : validatedManifest row with
  | error failure => cases failure <;> simp
  | ok u =>
    obtain ⟨content', hwrite, -, hintact⟩ := writeEntries_holds hdescribes.nodup hdescribes.intact
      ((s.settle staged.revision .staging row.validationErrors).content digest)
    rw [hwrite]
    dsimp only
    rw [verifyStored_of_intact hintact]
    simp

/-- **A row of the tree's digest is settled** exactly where the spellings are stable. -/
theorem settleStaged_ok_iff (hfree : CollisionFree)
    (hhex : ∀ file ∈ files.items, isHexDigest (sha256 file.2)) (h : Healthy project s)
    (hbuilt : BuiltFrom files limits entries)
    (hrow : s.revisions.row staged.revision = some row) (hproject : row.project = project)
    (hdigest : row.digest = some (manifestDigest entries)) :
    (∃ staged', (settleStaged files .none staged s).1 = .ok staged') ↔
      ∀ file ∈ files.items, StableSpelling file.1 := by
  have hrowDescribed := h.described _ row _ hrow hproject hdigest
  obtain ⟨tree, htree⟩ := hrowDescribed.describes
  -- one digest is one tree, so the row's manifest records these sources
  obtain rfl : canonicalTree files = tree :=
    (hbuilt.describes.manifestDigest_eq_iff hfree htree).mp hrowDescribed.digest_eq
  have htrusted : Trusted row.manifest ↔ ∀ file ∈ files.items, StableSpelling file.1 := by
    rw [← hbuilt.trusted_iff hhex]
    exact ⟨fun ht => ht.perm (htree.perm hbuilt.describes),
      fun ht => ht.perm (hbuilt.describes.perm htree)⟩
  have hwritten : row.status.retryable = false → Trusted row.manifest := fun hstatus =>
    (validatedManifest_eq_ok_iff hdigest hrowDescribed).mp
      (h.written _ row hrow hproject (by simp [hdigest]) hstatus)
  rw [← htrusted, settleStaged, hrow]
  dsimp only
  by_cases hstored : row.status.stored
  · have hstatus : row.status.retryable = false := by
      revert hstored
      cases row.status <;> decide
    rw [if_pos hstored, (validatedManifest_eq_ok_iff hdigest hrowDescribed).mpr (hwritten hstatus),
      hdigest, Option.getD_some, h.stored _ row _ hrow hproject hdigest hstored]
    simp [hwritten hstatus]
  · rw [if_neg hstored]
    by_cases hstatus : row.status.retryable = false
    · rw [if_pos hstatus]
      simp [hwritten hstatus]
    · rw [if_neg hstatus]
      exact writeStaged_ok_iff hdigest hrowDescribed htree

/-- A row that is still to be written may be added. -/
theorem Healthy.insert (h : Healthy project s)
    (hdescribed : ∀ digest, row.digest = some digest → row.Described digest)
    (hstatus : row.status.retryable) :
    Healthy project { s with revisions := s.revisions.insert row } := by
  have hunstored : row.status.stored = false := by
    revert hstatus
    cases row.status <;> decide
  have hcases : ∀ {pk found}, (s.revisions.insert row).row pk = some found →
      found = row ∨ s.revisions.row pk = some found := by
    intro pk found hfound
    rw [Table.row_insert] at hfound
    split_ifs at hfound
    · exact .inl (Option.some.inj hfound).symm
    · exact .inr hfound
  constructor
  · intro pk found digest hfound hproject hdigest
    rcases hcases hfound with rfl | hold
    · exact hdescribed digest hdigest
    · exact h.described pk found digest hold hproject hdigest
  · intro pk found hfound hproject hdigest hretryable
    rcases hcases hfound with rfl | hold
    · rw [hstatus] at hretryable
      cases hretryable
    · exact h.written pk found hold hproject hdigest hretryable
  · intro pk found digest hfound hproject hdigest hstored
    rcases hcases hfound with rfl | hold
    · rw [hunstored] at hstored
      cases hstored
    · exact h.stored pk found digest hold hproject hdigest hstored

/-! ## A call -/

/-- A source without errors: the call returns exactly where the spellings are stable, and then a
row of its digest. -/
theorem stageRevision_built (hfree : CollisionFree)
    (hhex : ∀ file ∈ files.items, isHexDigest (sha256 file.2)) (h : Healthy project s)
    (hbuild : buildManifest files limits = .ok (entries, [])) (now : Time) :
    ((∃ staged, (stageRevision project files limits .none now s).1 = .ok staged) ↔
      ∀ file ∈ files.items, StableSpelling file.1) ∧
    ∀ staged, (stageRevision project files limits .none now s).1 = .ok staged →
      ∃ identity, (stageRevision project files limits .none now s).2.identities staged.revision =
        some identity ∧ identity.project = project ∧
        identity.digest = some (manifestDigest entries) := by
  have hbuilt := buildManifest_builtFrom hbuild
  let row : RevisionRow := { stagedRow project entries (projectSnapshot project s.files) now with
    digest := some (manifestDigest entries), status := .staging }
  have hcall : stageRevision project files limits .none now s =
      settleStaged files .none (getOrCreate s.revisions row).2
        { s with revisions := (getOrCreate s.revisions row).1 } := by
    rw [stageRevision, hbuild]
    rfl
  rw [hcall]
  -- the row that is found or created, in a state that is healthy
  obtain ⟨found, hhealthy, hfound, hproject, hdigest⟩ : ∃ found,
      Healthy project { s with revisions := (getOrCreate s.revisions row).1 } ∧
      (getOrCreate s.revisions row).1.row (getOrCreate s.revisions row).2.revision = some found ∧
      found.project = project ∧ found.digest = some (manifestDigest entries) := by
    rcases getOrCreate_cases s.revisions row with ⟨pk, found, heq, hfound, hsame⟩ | ⟨heq, -⟩
    · rw [heq]
      exact ⟨found, h, hfound, hsame.1, hsame.2.1⟩
    · rw [heq]
      refine ⟨row, h.insert (fun digest hdigest => ?_) rfl, Table.row_insert_next, rfl, rfl⟩
      obtain rfl := Option.some.inj hdigest
      exact ⟨rfl, ⟨_, hbuilt.describes⟩, rfl, rfl⟩
  refine ⟨settleStaged_ok_iff hfree hhex hhealthy hbuilt hfound hproject hdigest,
    fun staged hok => ?_⟩
  have hsettled : SettledAs (getOrCreate s.revisions row).2
      { s with revisions := (getOrCreate s.revisions row).1 }
      (settleStaged files .none (getOrCreate s.revisions row).2
        { s with revisions := (getOrCreate s.revisions row).1 }) :=
    settleStaged_settled files .none
  rw [hsettled.identities, hsettled.ok staged hok]
  refine ⟨found.identity, ?_, hproject, hdigest⟩
  rw [RevisionState.identities, hfound, Option.map_some]

/-- A source without errors is handled as promised exactly where its spellings are stable. -/
theorem promised_built_iff (hfree : CollisionFree)
    (hhex : ∀ file ∈ files.items, isHexDigest (sha256 file.2)) (h : Healthy project s)
    (hbuild : buildManifest files limits = .ok (entries, [])) (activateOnce : Bool) (now : Time) :
    Promised project files limits s (stageSource project files limits activateOnce .none now s) ↔
      ∀ file ∈ files.items, StableSpelling file.1 := by
  obtain ⟨hiff, hreturned⟩ := stageRevision_built hfree hhex h hbuild now
  rw [← hiff, stageSource]
  rcases hcall : stageRevision project files limits .none now s with ⟨outcome, s'⟩
  rw [hcall] at hreturned
  cases outcome with
  | error failure =>
    constructor
    · rintro ⟨⟨staged, hok⟩, -⟩
      cases hok
    · rintro ⟨staged, hok⟩
      cases hok
  | ok staged =>
    refine ⟨fun _ => ⟨staged, rfl⟩, fun _ => ⟨⟨staged, rfl⟩, ?_⟩⟩
    intro staged' entries' errors' hok hbuild'
    obtain rfl := Except.ok.inj hok
    obtain ⟨rfl, rfl⟩ := Prod.mk.inj (Except.ok.inj (hbuild.symm.trans hbuild'))
    obtain ⟨identity, hidentity, hproject, hdigest⟩ := hreturned staged rfl
    rw [← acceptSource_frame.1] at hidentity
    obtain ⟨row, hrow, rfl⟩ := Option.map_eq_some_iff.mp hidentity
    exact ⟨row, hrow, hproject, fun hne => absurd rfl hne,
      fun _ => hdigest.trans (computeDigest_toJson entries).symm⟩

/-- A rejected source is handled as promised exactly where its error records are stored as they
are. -/
theorem promised_rejected_iff {error : ManifestError}
    (hbuild : buildManifest files limits = .ok (entries, error :: errors)) (activateOnce : Bool)
    (fault : StorageFault) (now : Time) :
    Promised project files limits s (stageSource project files limits activateOnce fault now s) ↔
      ∀ error' ∈ error :: errors, error'.Plain := by
  rw [← storedErrors_eq_self_iff, stageSource, stageRevision, hbuild]
  dsimp only
  rw [if_pos (List.cons_ne_nil _ _)]
  cases hstored : storedErrors (error :: errors) with
  | none =>
    refine ⟨?_, fun h => by cases h⟩
    rintro ⟨⟨staged, hok⟩, -⟩
    cases hok
  | some stored =>
    dsimp only
    -- without a digest the row is not accepted as the source
    rw [RevisionState.acceptSource, Table.row_insert_next]
    dsimp only
    rw [if_neg (fun h => by cases h.1)]
    constructor
    · rintro ⟨-, hrevision⟩
      obtain ⟨row, hrow, -, hrejected, -⟩ := hrevision _ entries (error :: errors) rfl hbuild
      obtain ⟨-, -, -, -, herrors⟩ := hrejected (List.cons_ne_nil _ _)
      rw [Table.row_insert_next] at hrow
      obtain rfl := Option.some.inj hrow
      have hinjective : Function.Injective ErrorRecord.rejected := fun _ _ => ErrorRecord.rejected.inj
      rw [List.map_injective_iff.mpr hinjective herrors]
    · intro heq
      obtain rfl := Option.some.inj heq
      refine ⟨⟨_, rfl⟩, fun staged entries' errors' hok hbuild' => ?_⟩
      obtain rfl := Except.ok.inj hok
      obtain ⟨rfl, rfl⟩ := Prod.mk.inj (Except.ok.inj (hbuild.symm.trans hbuild'))
      refine ⟨_, Table.row_insert_next, rfl, fun _ => ⟨rfl, Table.row_next, rfl, rfl, rfl⟩, ?_⟩
      intro hnil
      cases hnil

/-- **Bad content.** On a healthy project `stage_revision` returns, a rejected revision with the
errors found or one with the tree's digest, exactly for sources whose paths have neither surrogates
nor U+0000 and, where nothing is rejected, are spelled stably. -/
theorem stageSource_promised_iff (laws : UnicodeLaws) (hkeeps : NfcKeeps) (hfree : CollisionFree)
    (hhex : ∀ file ∈ files.items, isHexDigest (sha256 file.2)) (h : Healthy project s)
    (activateOnce : Bool) (now : Time) :
    Promised project files limits s (stageSource project files limits activateOnce .none now s) ↔
      Stageable files limits := by
  have hexact : (∀ file ∈ files.items, Plain file.1) → ∃ entries errors,
      buildManifest files limits = .ok (entries, errors) ∧ (errors = [] ↔ Buildable files limits) := by
    intro hplain
    obtain ⟨entries, errors, hbuild, hiff, -⟩ := buildManifest_exact laws files limits
      fun file hfile c hc => (hplain file hfile c hc).1
    exact ⟨entries, errors, hbuild, hiff⟩
  cases hbuild : buildManifest files limits with
  | error failure =>
    constructor
    · rintro ⟨⟨staged, hok⟩, -⟩
      rw [stageSource, stageRevision, hbuild] at hok
      cases hok
    · rintro ⟨hplain, -⟩
      obtain ⟨entries, errors, hok, -⟩ := hexact hplain
      cases hbuild.symm.trans hok
  | ok built =>
    obtain ⟨entries, errors⟩ := built
    have hbuildable : (∀ file ∈ files.items, Plain file.1) →
        (errors = [] ↔ Buildable files limits) := by
      intro hplain
      obtain ⟨entries', errors', hok, hiff⟩ := hexact hplain
      obtain ⟨rfl, rfl⟩ := Prod.mk.inj (Except.ok.inj (hbuild.symm.trans hok))
      exact hiff
    cases errors with
    | nil =>
      rw [promised_built_iff hfree hhex h hbuild activateOnce now]
      constructor
      · intro hstable
        exact ⟨hkeeps.plain_of_buildManifest hbuild fun _ herror => (by cases herror),
          fun _ => hstable⟩
      · rintro ⟨hplain, hstable⟩
        exact hstable ((hbuildable hplain).mp rfl)
    | cons error errors =>
      rw [promised_rejected_iff hbuild activateOnce .none now]
      constructor
      · intro herrors
        have hplain := hkeeps.plain_of_buildManifest hbuild herrors
        refine ⟨hplain, fun hbuildable' => ?_⟩
        cases (hbuildable hplain).mpr hbuildable'
      · rintro ⟨hplain, -⟩
        exact buildManifest_plain laws hplain hbuild

end Staging

/-! ## Three files -/

/-- A project without revisions is healthy. -/
theorem healthy_unstagedProject : @Healthy asciiUnicode spelledHashing 7 unstagedProject := by
  have hnone : ∀ pk row, unstagedProject.revisions.row pk ≠ some row := fun _ _ => nofun
  exact @Healthy.mk asciiUnicode spelledHashing 7 unstagedProject
    (fun pk row _ hrow => absurd hrow (hnone pk row)) (fun pk row hrow => absurd hrow (hnone pk row))
    fun pk row _ hrow => absurd hrow (hnone pk row)

/-- `a.py` is stored. -/
theorem stageSource_promised_iff_plain :
    @Promised asciiUnicode spelledHashing 7 (oneFile (py "a.py")) ⟨10, 10, 10⟩ unstagedProject
      (@stageSource asciiUnicode spelledHashing 7 (oneFile (py "a.py")) ⟨10, 10, 10⟩ false .none 0
        unstagedProject) := by
  refine (@stageSource_promised_iff asciiUnicode spelledHashing _ _ _ _ unicodeLaws_ascii
    nfcKeeps_ascii collisionFree_spelledHashing (by decide +kernel) healthy_unstagedProject false
    0).mpr (@Stageable.mk asciiUnicode _ _ (by decide) fun _ file hfile => ?_)
  obtain rfl := List.mem_singleton.mp hfile
  exact @StableSpelling.mk asciiUnicode _ (by decide) (by decide) (by decide)

/-- A surrogate in a path, U+0000 in a path, and a blank behind a segment that is dropped: each makes
the call on a healthy project raise. -/
theorem stageSource_raises :
    @Healthy asciiUnicode spelledHashing 7 unstagedProject ∧
    (@stageSource asciiUnicode spelledHashing 7 (oneFile [0xD800]) ⟨10, 10, 10⟩ false .none 0
      unstagedProject).1 = .error .unicodeEncodeError ∧
    (@stageSource asciiUnicode spelledHashing 7 (oneFile [0]) ⟨10, 10, 10⟩ false .none 0
      unstagedProject).1 = .error .dataError ∧
    (@stageSource asciiUnicode spelledHashing 7 (oneFile (py "./ a.py")) ⟨10, 10, 10⟩ false .none 0
      unstagedProject).1 = .error .revisionCorrupt :=
  ⟨healthy_unstagedProject, by decide +kernel, by decide +kernel, by decide +kernel⟩

end NetBoxScripts
