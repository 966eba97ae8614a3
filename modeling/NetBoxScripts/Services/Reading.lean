import NetBoxScripts.Concurrency.Alone
import NetBoxScripts.Services.StoredTrees

/-!
# Reading a revision without its lock

The runtime cache pulls the files of a revision into a local tree (`runtime/cache.py`) and takes no
lock of the project. What it reads was never replaced, so it gets what the revision was stored with,
unless a storage call fails or the revision is deleted meanwhile.

## Main definitions

* `fillStaging`, `materialize`: what `materialize_revision` reads of the store
* `Surviving`: what a reader knows of the revision it reads

## Main results

* `wp_fillStaging`: the loop of the reads
* `stored_content_available`: what a reader gets in any interleaving
-/

namespace NetBoxScripts

namespace Storehouse

open Lifecycle (keyOf)

section Reading

variable [Unicode] [Hashing] {t u : ThreadId} {s s' : World} {r : Id} {k : StorageKey}
  {digest : PyStr} {row : RevisionRow} {entry : ManifestEntry}

/-- `_fill_staging(storage, storage_key, digest, manifest, staging)`: the files it pulls. That the
local tree cannot be written (`LocalCacheError`) is left out. -/
def fillStaging (k : StorageKey) (digest : PyStr) (manifest : List ManifestEntry) :
    Service (List (PyStr × Bytes)) :=
  manifest.foldlM (fun tree entry => do
    revisionPrefix digest
    let canonical ← check .unsafePath (normalizeSourcePath entry.path)
    let content ← readVerified (.revision k digest canonical) entry
    pure (tree ++ [(entry.path, content)])) []

/-- `materialize_revision(storage, storage_key, digest, manifest)`, where the slot has no tree yet;
what becomes of a slot with one, and of a failing disk, is in `Runtime/Cache`. -/
def materialize (k : StorageKey) (digest : PyStr) (manifest : List ManifestEntry) :
    Service (List (PyStr × Bytes)) := do
  requireManifest manifest digest
  fillStaging k digest manifest

/-! ## What a reader can rely on -/

/-- The revision is as it was, if it is still there. -/
structure Surviving (r : Id) (row : RevisionRow) (k : StorageKey) (s : World) : Prop where
  kept : Safekept s
  homed : Homed row.project k s
  issued : r < s.revisions.next
  same : ∀ row', s.revisions.row r = some row' → Continues row row'

theorem Safe.surviving (h : Safe u s s') (hs : Surviving r row k s) : Surviving r row k s' := by
  refine ⟨h.safekept hs.kept, h.homed hs.homed, Nat.lt_of_lt_of_le hs.issued h.next, ?_⟩
  intro row' hrow'
  rcases h.rows r row' hrow' with ⟨old, hold, hsame⟩ | ⟨hnew, -⟩
  · exact (hs.same old hold).trans hsame
  · exact absurd hs.issued (Nat.not_lt.mpr hnew)

theorem stable_surviving : Stable Safe t (Surviving r row k) := fun _ _ _ _ h => h.surviving

/-- A file of a revision that is there is stored. -/
theorem Surviving.entryStored (hs : Surviving r row k s) (htree : row.HasTree)
    (hdigest : row.digest = some digest) (hthere : s.revisions.row r ≠ none)
    (hentry : entry ∈ row.manifest) : s.EntryStored k digest entry := by
  obtain ⟨row', hrow'⟩ := Option.ne_none_iff_exists'.mp hthere
  have hsame := hs.same row' hrow'
  have htree' : row'.HasTree := ⟨hsame.stored htree.1, hsame.digest ▸ htree.2⟩
  obtain ⟨k', hkey⟩ := Option.isSome_iff_exists.mp (hs.kept.owned r row' hrow')
  obtain rfl := hs.homed k' (hsame.project ▸ hkey)
  refine (hs.kept.intact r row' hrow' htree' k' hkey digest (hsame.digest.trans hdigest)).tree entry ?_
  rwa [hsame.manifest]

/-- The file was read as its entry records it. -/
def PulledAs (file : PyStr × Bytes) (entry : ManifestEntry) : Prop :=
  file.1 = entry.path ∧ Intact file.2 entry

omit [Unicode] in
theorem paths_of_pulledAs {tree : List (PyStr × Bytes)} {manifest : List ManifestEntry}
    (h : List.Forall₂ PulledAs tree manifest) :
    tree.map Prod.fst = manifest.map ManifestEntry.path := by
  induction h with
  | nil => rfl
  | cons hfile _ ih => rw [List.map_cons, List.map_cons, hfile.1, ih]

omit [Unicode] in
theorem exists_pulledAs {tree : List (PyStr × Bytes)} {manifest : List ManifestEntry}
    {file : PyStr × Bytes} (h : List.Forall₂ PulledAs tree manifest) (hfile : file ∈ tree) :
    ∃ entry ∈ manifest, PulledAs file entry := by
  induction h with
  | nil => cases hfile
  | cons hpulled _ ih =>
    rcases List.mem_cons.mp hfile with rfl | hrest
    · exact ⟨_, List.mem_cons_self, hpulled⟩
    · obtain ⟨entry, hentry, hpulled⟩ := ih hrest
      exact ⟨entry, List.mem_cons_of_mem _ hentry, hpulled⟩

/-- What a pull comes to: files as recorded, a storage failure, or a revision that is gone. -/
def Pulled (r : Id) (manifest : List ManifestEntry) :
    Except Failure (List (PyStr × Bytes)) → World → Prop
  | .ok tree, _ => List.Forall₂ PulledAs tree manifest
  | .error failure, s => failure = .storage ∨ s.revisions.row r = none

/-- **The loop of the reads**, each of its own moment. -/
theorem wp_fillStaging (hhex : isHexDigest digest = true) (htrusted : Trusted row.manifest)
    (htree : row.HasTree) (hdigest : row.digest = some digest) (hs : Surviving r row k s) :
    wp Safe t (fun s s' => s' = s) (fillStaging k digest row.manifest) (Pulled r row.manifest)
      s := by
  refine wp_foldlM (fun before after tree s' => Surviving r row k s' ∧
    before ++ after = row.manifest ∧ List.Forall₂ PulledAs tree before) ?_
    (fun tree s' h => h.2.1 ▸ (List.append_nil _).symm ▸ h.2.2) ⟨hs, rfl, .nil⟩
  rintro before entry after tree s₁ ⟨h₁, hmanifest, htree_before⟩
  have hentry : entry ∈ row.manifest := by
    rw [← hmanifest]
    exact List.mem_append_right _ List.mem_cons_self
  rw [wp_bind, revisionPrefix, if_pos hhex, wp_pure, andThen_ok, wp_bind,
    (htrusted.acceptable entry hentry).canonical, check_ok, wp_pure, andThen_ok, wp_bind]
  refine wp_mono (fun result s₂ h₂ => ?_) (wp_readVerified (fun _ => rfl) stable_surviving h₁)
  obtain ⟨h₂, houtcome⟩ := h₂
  cases result with
  | ok content =>
    refine ⟨h₂, ?_, List.rel_append htree_before (.cons ⟨rfl, houtcome.2⟩ .nil)⟩
    rw [← hmanifest, List.append_assoc]
    rfl
  | error failure =>
    cases failure with
    | corruptTree reasons =>
      refine .inr ?_
      by_contra hthere
      exact houtcome.2 (h₂.entryStored htree hdigest hthere hentry)
    | storage => exact .inl rfl
    | _ => cases houtcome

theorem wp_materialize (hhex : isHexDigest digest = true) (htree : row.HasTree)
    (hdigest : row.digest = some digest) (hverified : s.Verified k digest row.manifest)
    (hs : Surviving r row k s) : wp Safe t (fun s s' => s' = s) (materialize k digest row.manifest)
      (Pulled r row.manifest) s := by
  have hvalid : validateManifest (.arr (row.manifest.map ManifestEntry.toJson)) (some digest) =
      .ok () := by
    rw [hverified.digest_eq]
    exact (validateManifest_toJson_iff _).mpr hverified.trusted
  rw [materialize, requireManifest, hvalid, check_ok, wp_bind, wp_pure, andThen_ok]
  exact wp_fillStaging hhex hverified.trusted htree hdigest hs

/-- **Stored content is available.** In any interleaving with stagings, refreshes, validations,
activations, saves, deletions and cleanups, a pull of a revision into a local tree, which takes no
lock, gets the files that the store held when it began, and changes nothing; it fails with a failure
of the storage or if the revision is gone by then, and never finds a tree corrupt that is not. -/
theorem stored_content_available {Cls : Type} [DecidableEq Cls]
    {pool : Pool World Choice Failure (Task Cls)} {s₀ : World} {next : ThreadId}
    (hfree : CollisionFree) (hstart : Safekept s₀) (hidle : ∀ r, s₀.deleting r = none)
    (hrun : Run storehouse (fun _ _ => True) (Pool.start s₀ next) pool)
    (hrow : pool.world.revisions.row r = some row) (hkey : keyOf pool.world row.project = some k)
    (htree : row.HasTree) (hdigest : row.digest = some digest)
    (hhex : isHexDigest digest = true) :
    wp Safe t (fun s s' => s' = s) (materialize k digest row.manifest) (fun result s =>
      (∀ tree, result = .ok tree →
        tree.map Prod.fst = row.manifest.map ManifestEntry.path ∧
          ∀ file ∈ tree, pool.world.objects (.revision k digest file.1) = some file.2) ∧
      ∀ failure, result = .error failure → failure = .storage ∨ s.revisions.row r = none)
      pool.world := by
  have hkept : Safekept pool.world := (verified_storehouse hfree).run_invariant
    (fun _ _ _ h => h.safekept) (sound_start hstart hidle) hstart hrun
  have hverified := hkept.intact r row hrow htree k hkey digest hdigest
  have hsurviving : Surviving r row k pool.world := by
    refine ⟨hkept, fun k' hkey' => Option.some.inj (hkey'.symm.trans hkey),
      Table.lt_next_of_row hrow, fun row' hrow' => ?_⟩
    obtain rfl := Option.some.inj (hrow.symm.trans hrow')
    exact .refl
  refine wp_mono (fun result s hpulled => ⟨fun tree hok => ?_, fun failure herror => ?_⟩)
    (wp_materialize hhex htree hdigest hverified hsurviving)
  · subst hok
    refine ⟨paths_of_pulledAs hpulled, fun file hfile => ?_⟩
    obtain ⟨entry, hentry, hpath, hintact⟩ := exists_pulledAs hpulled hfile
    obtain ⟨content, hstored, hcontent⟩ := hverified.tree entry hentry
    rw [hpath, hstored, hfree.injective (hcontent.2.trans hintact.2.symm)]
  · subst herror
    exact hpulled

omit [Unicode] [Hashing] in
/-- The tree that was staged again is pulled as it was staged. -/
theorem stored_content_available_restaged : ∃ row digest tree s,
    stagedAgainPool.world.revisions.row (2 : Id) = some row ∧ row.digest = some digest ∧
    (@materialize asciiUnicode writtenHashing 0 digest row.manifest).runWith 9 (fun _ => .proceed)
      stagedAgainPool.world = some (.ok tree, s) ∧ tree.map Prod.fst = [py "a.py"] ∧
    ∀ file ∈ tree, stagedAgainPool.world.objects (.revision 0 digest file.1) = some file.2 := by
  have hends : ((stagedAgainPool.world.revisions.row (2 : Id)).bind fun row =>
      row.digest.bind fun digest =>
        ((@materialize asciiUnicode writtenHashing 0 digest row.manifest).runWith 9
          (fun _ => .proceed) stagedAgainPool.world).map fun ended =>
            ((keyOf stagedAgainPool.world row.project, row.status.unstored),
              isHexDigest digest, ended.1.toOption.map fun tree => tree.map Prod.fst)) =
        some ((some 0, false), true, some [py "a.py"]) := by
    decide +kernel
  obtain ⟨row, hrow, hends⟩ := Option.bind_eq_some_iff.mp hends
  obtain ⟨digest, hdigest, hends⟩ := Option.bind_eq_some_iff.mp hends
  obtain ⟨⟨result, s⟩, hrun, hends⟩ := Option.map_eq_some_iff.mp hends
  simp only [Prod.mk.injEq] at hends
  obtain ⟨⟨hkey, hstored⟩, hhex, hresult⟩ := hends
  cases result with
  | error failure => cases hresult
  | ok tree =>
    have hpull := @stored_content_available asciiUnicode writtenHashing 9 _ _ _ row Unit _
      stagedAgainPool unstagedWorld 0 collisionFree_writtenHashing safekept_unstagedWorld
      (fun _ => rfl) stagedAgainPool_run hrow hkey ⟨hstored, by rw [hdigest]; rfl⟩ hdigest hhex
    obtain ⟨hpulled, -⟩ := (Reach.start.of_runWith hrun).wp hpull
    exact ⟨row, digest, tree, s, hrow, hdigest, hrun, Option.some.inj hresult,
      (hpulled tree rfl).2⟩

end Reading

end Storehouse

end NetBoxScripts
