import NetBoxScripts.Database.Statements

/-!
# The store

`storage/store.py`: writing, verifying, reading and removing the objects of one revision, one
storage call a step. A backend may raise at any call; what it reads is what it holds, and it
reports a key missing only when it is.

## Main definitions

* `readVerified`, `verifyEntry`: one object against its manifest entry
* `writeOne`, `writeRevision`, `verifyRevisionTree`, `deleteRevision`

## Main results

* `wp_writeRevision`, `wp_verifyRevisionTree`: when they return, the tree is stored
* `wp_deleteRevision`: when it returns, every object is gone
-/

namespace NetBoxScripts

section Calls

/-- `storage.exists(key)` -/
def storageExists (key : ObjectKey) : Service Bool := .stmt fun _ c s =>
  match c with
  | .fail => some (.error .storage, s)
  | .mistaken => some (.ok true, s)
  | _ => some (.ok (s.objects key).isSome, s)

/-- What `_size` answers. -/
inductive SizeAnswer
  | notFound
  | unknown
  | known (size : ℕ)
  deriving DecidableEq

/-- `storage.size(key)` -/
def storageSize (key : ObjectKey) : Service SizeAnswer := .stmt fun _ c s =>
  match c with
  | .fail => some (.error .storage, s)
  | .unsized => some (.ok .unknown, s)
  | _ => some (.ok ((s.objects key).elim .notFound fun content => .known content.length), s)

/-- `storage.open(key)` and the reads from it; `none` is a `FileNotFoundError`. -/
def storageOpen (key : ObjectKey) : Service (Option Bytes) := .stmt fun _ c s =>
  match c with
  | .fail => some (.error .storage, s)
  | _ => some (.ok (s.objects key), s)

/-- `storage.save(key, content)`: a key that is taken is left alone, and a name made up. -/
def storageSave (key : ObjectKey) (content : Bytes) : Service ObjectKey := .stmt fun _ c s =>
  match c with
  | .fail => some (.error .storage, s)
  | .park n =>
    if s.objects (.parked n) = none then
      some (.ok (.parked n), s.setObject (.parked n) (some content)) else none
  | .parkTorn n other =>
    if s.objects (.parked n) = none then
      some (.error .storage, s.setObject (.parked n) (some other)) else none
  | _ =>
    if s.objects key = none then
      match c with
      | .failAfter => some (.error .storage, s.setObject key (some content))
      | .torn other => some (.error .storage, s.setObject key (some other))
      | _ => some (.ok key, s.setObject key (some content))
    else none

/-- `storage.delete(key)`; the answer is whether there was something to delete. -/
def storageDelete (key : ObjectKey) : Service Bool := .stmt fun _ c s =>
  match c with
  | .fail => some (.error .storage, s)
  | .failAfter => some (.error .storage, s.setObject key none)
  | _ => some (.ok (s.objects key).isSome, s.setObject key none)

end Calls

section Store

variable [Unicode] [Hashing]

/-- `read_verified(storage, key, entry)` -/
def readVerified (key : ObjectKey) (entry : ManifestEntry) : Service Bytes := do
  match ← storageSize key with
  | .notFound => .raise (.corruptTree [.missing entry.path])
  | reported =>
    if reported ≠ .unknown ∧ reported ≠ .known entry.size then
      .raise (.corruptTree [.sizeMismatch entry.path])
    else
      match ← storageOpen key with
      | none => .raise (.corruptTree [.missing entry.path])
      | some content =>
        -- the read stops one byte past the recorded size
        let measured := content.take (entry.size + 1)
        if measured.length ≠ entry.size then .raise (.corruptTree [.sizeMismatch entry.path])
        else if sha256 measured ≠ entry.sha256 then
          .raise (.corruptTree [.checksumMismatch entry.path])
        else pure measured

/-- `_verify_entry(storage, key, entry)` -/
def verifyEntry (key : ObjectKey) (entry : ManifestEntry) : Service (List TreeReason) := do
  match ← (readVerified key entry).attempt with
  | .ok _ => pure []
  | .error (.corruptTree reasons) => pure reasons
  | .error error => .raise error

/-- The end of `_write_one`: the save, and what follows where the backend made up a name. -/
def saveOne (key : ObjectKey) (content : Bytes) (entry : ManifestEntry) : Service Unit := do
  let stored ← storageSave key content
  if stored = key then pure ()
  else do
    -- a stray that cannot be removed is logged only
    let _ ← (storageDelete stored).attempt
    let reasons ← verifyEntry key entry
    if reasons = [] then pure () else .raise .storage

/-- `_write_one(storage, key, content, entry)` -/
def writeOne (key : ObjectKey) (content : Bytes) (entry : ManifestEntry) : Service Unit := do
  if ← storageExists key then do
    let reasons ← verifyEntry key entry
    if reasons = [] then pure ()
    else do
      let _ ← storageDelete key
      saveOne key content entry
  else saveOne key content entry

/-- `revision_prefix(storage_key, digest)`, as far as it refuses. -/
def revisionPrefix (digest : PyStr) : Service Unit :=
  if isHexDigest digest then pure ()
  else .raise (.unsafePath (.unsafePath ⟨digest, .escapesRoot,
    py "The revision digest must be 64 lowercase hex characters."⟩))

/-- `_canonical_source(files)` -/
def canonicalSource (files : SourceFiles) : Except PathFailure (List (PyStr × Bytes)) :=
  files.items.foldlM (fun source file => do
    let canonical ← normalizeSourcePath file.1
    if canonical ∈ source.map Prod.fst then
      refuse file.1 .duplicatePath
        (py "Multiple source files resolve to the path \"" ++ canonical ++ py "\".")
    else pure (source ++ [(canonical, file.2)])) []

/-- `validate_manifest(manifest, digest)` on the entries of a row. -/
def requireManifest (manifest : List ManifestEntry) (digest : PyStr) : Service Unit :=
  check .manifest (validateManifest (.arr (manifest.map ManifestEntry.toJson)) (some digest))

/-- `_verify_tree(storage, storage_key, digest, manifest)` -/
def verifyTree (k : StorageKey) (digest : PyStr) (manifest : List ManifestEntry) :
    Service Unit := do
  revisionPrefix digest
  let reasons ← (sortByPath manifest).foldlM (fun reasons entry => do
    let found ← verifyEntry (.revision k digest entry.path) entry
    pure (reasons ++ found)) ([] : List TreeReason)
  if manifest ≠ [] ∧ reasons = (sortByPath manifest).map fun entry => .missing entry.path then
    .raise (.corruptTree [.prefixMissing])
  else if reasons ≠ [] then .raise (.corruptTree reasons)
  else pure ()

/-- `verify_revision_tree(storage, storage_key, digest, manifest)` -/
def verifyRevisionTree (k : StorageKey) (digest : PyStr) (manifest : List ManifestEntry) :
    Service Unit := do
  requireManifest manifest digest
  verifyTree k digest manifest

/-- `write_revision(storage, storage_key, digest, files, manifest)` -/
def writeRevision (k : StorageKey) (digest : PyStr) (files : SourceFiles)
    (manifest : List ManifestEntry) : Service Unit := do
  requireManifest manifest digest
  revisionPrefix digest
  let source ← check .unsafePath (canonicalSource files)
  manifest.forM fun entry =>
    match source.find? fun file => file.1 = entry.path with
    | none => .raise .storage
    | some file => writeOne (.revision k digest entry.path) file.2 entry
  verifyTree k digest manifest

/-- `delete_revision(storage, storage_key, digest, paths)`: every key is tried. -/
def deleteRevision (k : StorageKey) (digest : PyStr) (paths : List PyStr) : Service Unit := do
  let failed ← (paths.insertionSort (· ≤ ·)).foldlM (fun failed path => do
    let removed ← (do
      revisionPrefix digest
      let canonical ← check .unsafePath (normalizeSourcePath path)
      let _ ← storageDelete (.revision k digest canonical)
      pure ()).attempt
    pure (match removed with
      | .ok () => failed
      | .error _ => failed ++ [path])) ([] : List PyStr)
  if failed ≠ [] then .raise .storage else pure ()

end Store

/-! ## Specifications -/

section Specifications

variable [Unicode] [Hashing] {t : ThreadId} {s : World} {k : StorageKey} {digest : PyStr}
  {assertion : World → Prop} {key : ObjectKey} {entry : ManifestEntry}
  {change : Changes World} {guar : World → World → Prop}

/-- The assertion is about the objects of a project. -/
def AboutObjects (k : StorageKey) (about : World → Prop) : Prop :=
  ∀ s s' : World, (∀ digest path, s'.objects (.revision k digest path) =
    s.objects (.revision k digest path)) → about s → about s'

/-- Others keep the assertion, and with it what is said of the objects of a project: its lock is
held. -/
def KeepsObjects (change : Changes World) (t : ThreadId) (k : StorageKey)
    (assertion : World → Prop) : Prop :=
  ∀ about, AboutObjects k about → Stable change t fun s => assertion s ∧ about s

omit [Unicode] [Hashing] in
theorem KeepsObjects.stable (h : KeepsObjects change t k assertion) : Stable change t assertion :=
  fun u s s' hne hchange hs =>
    (h (fun _ => True) (fun _ _ _ h => h) u s s' hne hchange ⟨hs, trivial⟩).1

omit [Unicode] in
theorem aboutObjects_entryStored {p : Prop} {entries : List ManifestEntry} :
    AboutObjects k fun s => p → ∀ entry ∈ entries, s.EntryStored k digest entry := by
  intro s s' hsame hstored hp entry hentry
  simpa only [World.EntryStored, hsame] using hstored hp entry hentry

/-! ### Reads -/

omit [Unicode] [Hashing] in
theorem wp_storageExists {post : Except Failure Bool → World → Prop} (hstay : ∀ s, guar s s)
    (hkept : Stable change t assertion) (hs : assertion s)
    (h : ∀ s' answer, assertion s' → (s'.objects key ≠ none → answer = true) →
      post (.ok answer) s')
    (hfail : ∀ s', assertion s' → post (.error .storage) s') :
    wp change t guar (storageExists key) post s := by
  refine wp_stmt hkept hs fun s' hs' c r s'' hstep => ?_
  split at hstep <;> cases hstep
  · exact ⟨hstay _, hfail s' hs'⟩
  · exact ⟨hstay _, h s' _ hs' fun _ => rfl⟩
  · exact ⟨hstay _, h s' _ hs' Option.isSome_iff_ne_none.mpr⟩

omit [Unicode] [Hashing] in
theorem wp_storageSize {post : Except Failure SizeAnswer → World → Prop} (hstay : ∀ s, guar s s)
    (hkept : Stable change t assertion) (hs : assertion s)
    (h : ∀ s' answer, assertion s' → (answer = .unknown ∨
      answer = (s'.objects key).elim .notFound fun content => .known content.length) →
        post (.ok answer) s')
    (hfail : ∀ s', assertion s' → post (.error .storage) s') :
    wp change t guar (storageSize key) post s := by
  refine wp_stmt hkept hs fun s' hs' c r s'' hstep => ?_
  split at hstep <;> cases hstep
  · exact ⟨hstay _, hfail s' hs'⟩
  · exact ⟨hstay _, h s' _ hs' (.inl rfl)⟩
  · exact ⟨hstay _, h s' _ hs' (.inr rfl)⟩

omit [Unicode] [Hashing] in
theorem wp_storageOpen {post : Except Failure (Option Bytes) → World → Prop}
    (hstay : ∀ s, guar s s) (hkept : Stable change t assertion) (hs : assertion s)
    (h : ∀ s', assertion s' → post (.ok (s'.objects key)) s')
    (hfail : ∀ s', assertion s' → post (.error .storage) s') :
    wp change t guar (storageOpen key) post s := by
  refine wp_stmt hkept hs fun s' hs' c r s'' hstep => ?_
  split at hstep <;> cases hstep
  · exact ⟨hstay _, hfail s' hs'⟩
  · exact ⟨hstay _, h s' hs'⟩

/-- What a verified read comes to. -/
def ReadOutcome (k : StorageKey) (digest : PyStr) (entry : ManifestEntry) (s : World) :
    Except Failure Bytes → Prop
  | .ok content =>
    s.objects (.revision k digest entry.path) = some content ∧ Intact content entry
  | .error (.corruptTree reasons) => reasons ≠ [] ∧ ¬ s.EntryStored k digest entry
  | .error error => error = .storage

omit [Unicode] in
theorem not_entryStored_of_none (h : s.objects (.revision k digest entry.path) = none) :
    ¬ s.EntryStored k digest entry := by
  rintro ⟨content, hcontent, -⟩
  rw [h] at hcontent
  cases hcontent

omit [Unicode] in
theorem not_entryStored_of_some {content : Bytes}
    (h : s.objects (.revision k digest entry.path) = some content)
    (hmismatch : ¬ Intact content entry) : ¬ s.EntryStored k digest entry := by
  rintro ⟨other, hother, hintact⟩
  obtain rfl : content = other := Option.some.inj (h.symm.trans hother)
  exact hmismatch hintact

omit [Unicode] in
/-- A read returns the stored bytes where they match the entry, and reports a
mismatch only where they do not. -/
theorem wp_readVerified {change : Changes World} {G : World → World → Prop}
    (hstay : ∀ s, G s s) (hkept : Stable change t assertion) (hs : assertion s) :
    wp change t G (readVerified (.revision k digest entry.path) entry)
      (fun r s' => assertion s' ∧ ReadOutcome k digest entry s' r) s := by
  rw [readVerified, wp_bind]
  refine wp_storageSize hstay hkept hs (fun s₁ answer hs₁ hanswer => ?_)
    fun s₁ hs₁ => ⟨hs₁, rfl⟩
  rw [andThen_ok]
  split
  · refine ⟨hs₁, by simp, not_entryStored_of_none ?_⟩
    rcases hanswer with h | h
    · cases h
    · cases hobject : s₁.objects (.revision k digest entry.path) with
      | none => rfl
      | some content => simp [hobject] at h
  · next hfound =>
    split_ifs with hsize
    · -- the size reported is that of the object
      refine ⟨hs₁, by simp, ?_⟩
      rcases hanswer with rfl | rfl
      · exact absurd rfl hsize.1
      · cases hobject : s₁.objects (.revision k digest entry.path) with
        | none => exact not_entryStored_of_none hobject
        | some content =>
          refine not_entryStored_of_some hobject fun hintact => hsize.2 ?_
          simp [hobject, hintact.1]
    · rw [wp_bind]
      refine wp_storageOpen hstay hkept hs₁ (fun s₂ hs₂ => ?_) fun s₂ hs₂ => ⟨hs₂, rfl⟩
      rw [andThen_ok]
      cases hobject : s₂.objects (.revision k digest entry.path) with
      | none => exact ⟨hs₂, by simp, not_entryStored_of_none hobject⟩
      | some content =>
        dsimp only
        split_ifs with hlength hhash
        · refine ⟨hs₂, by simp, not_entryStored_of_some hobject fun hintact => hlength ?_⟩
          simp [List.length_take, hintact.1]
        · refine ⟨hs₂, by simp, not_entryStored_of_some hobject fun hintact => hhash ?_⟩
          rw [List.take_of_length_le (by rw [hintact.1]; omega), hintact.2]
        · rw [not_not] at hlength hhash
          have hle : content.length ≤ entry.size := by
            rw [List.length_take] at hlength
            omega
          rw [List.take_of_length_le (Nat.le_succ_of_le hle)] at hlength hhash ⊢
          exact ⟨hs₂, hobject, hlength, hhash⟩

/-- What verifying one entry comes to: no reason exactly where it is stored. -/
def VerifyOutcome (k : StorageKey) (digest : PyStr) (entry : ManifestEntry) (s : World) :
    Except Failure (List TreeReason) → Prop
  | .ok reasons => reasons = [] ↔ s.EntryStored k digest entry
  | .error error => error = .storage

omit [Unicode] in
theorem wp_verifyEntry {change : Changes World} {guar : World → World → Prop}
    (hstay : ∀ s, guar s s) (hkept : Stable change t assertion) (hs : assertion s) :
    wp change t guar (verifyEntry (.revision k digest entry.path) entry)
      (fun r s' => assertion s' ∧ VerifyOutcome k digest entry s' r) s := by
  rw [verifyEntry, wp_bind, wp_attempt]
  refine wp_mono (fun r s' hs' => ?_) (wp_readVerified hstay hkept hs)
  obtain ⟨hs', hread⟩ := hs'
  rw [andThen_ok]
  cases r with
  | ok content =>
    obtain ⟨hobject, hintact⟩ := hread
    exact ⟨hs', iff_of_true rfl ⟨content, hobject, hintact⟩⟩
  | error error =>
    cases error with
    | corruptTree reasons => exact ⟨hs', iff_of_false hread.1 hread.2⟩
    | storage => exact ⟨hs', rfl⟩
    | _ => cases hread

/-- A manifest that can be trusted, with its whole tree in storage. -/
structure World.Verified (s : World) (k : StorageKey) (digest : PyStr)
    (manifest : List ManifestEntry) : Prop where
  digest_eq : digest = manifestDigest manifest
  trusted : Trusted manifest
  tree : s.TreeStored k digest manifest

omit [Unicode] in
/-- When the tree verifies, every file of the manifest is stored. -/
theorem wp_verifyTree {manifest : List ManifestEntry} (hstay : ∀ s, guar s s)
    (hkept : KeepsObjects change t k assertion) (hs : assertion s) :
    wp change t guar (verifyTree k digest manifest)
      (fun r s' => assertion s' ∧ (r = .ok () → s'.TreeStored k digest manifest)) s := by
  rw [verifyTree, wp_bind, revisionPrefix]
  split_ifs with hhex
  · rw [wp_pure, andThen_ok, wp_bind]
    -- without a reason so far, the entries verified so far are stored
    refine wp_foldlM (fun before _ reasons s' => assertion s' ∧
      (reasons = [] → ∀ entry ∈ before, s'.EntryStored k digest entry)) ?_ ?_
      ⟨hs, fun _ entry hentry => by cases hentry⟩
    · intro before entry after reasons s₁ hs₁
      rw [wp_bind]
      refine wp_mono (fun r s₂ hs₂ => ?_)
        (wp_verifyEntry hstay (hkept _ aboutObjects_entryStored) hs₁)
      obtain ⟨⟨hs₂, hbefore⟩, hentry⟩ := hs₂
      cases r with
      | error error => exact ⟨hs₂, fun h => by cases h⟩
      | ok found =>
        refine ⟨hs₂, fun hreasons => ?_⟩
        obtain ⟨hreasons, hfound⟩ := List.append_eq_nil_iff.mp hreasons
        intro other hother
        rcases List.mem_append.mp hother with hother | hother
        · exact hbefore hreasons other hother
        · obtain rfl := List.mem_singleton.mp hother
          exact hentry.mp hfound
    · rintro reasons s₁ ⟨hs₁, hstored⟩
      rw [andThen_ok]
      split_ifs with hmissing hreasons
      · exact ⟨hs₁, fun h => by cases h⟩
      · exact ⟨hs₁, fun h => by cases h⟩
      · refine ⟨hs₁, fun _ entry hentry => hstored (not_not.mp hreasons) entry ?_⟩
        exact (List.mem_insertionSort _).mpr hentry
  · exact ⟨hs, fun h => by cases h⟩

omit [Unicode] [Hashing] in
theorem wp_check {ε α : Type} {failure : ε → Failure} {result : Except ε α}
    {post : Except Failure α → World → Prop} (h : ∀ a, result = .ok a → post (.ok a) s)
    (hfail : ∀ e, result = .error e → post (.error (failure e)) s) :
    wp change t guar (check failure result) post s := by
  cases result with
  | ok a => exact h a rfl
  | error e => exact hfail e rfl

theorem wp_requireManifest {manifest : List ManifestEntry}
    {post : Except Failure Unit → World → Prop}
    (h : digest = manifestDigest manifest → Trusted manifest → post (.ok ()) s)
    (hfail : ∀ failure, post (.error (.manifest failure)) s) :
    wp change t guar (requireManifest manifest digest) post s := by
  refine wp_check (fun _ hok => ?_) fun failure _ => hfail failure
  obtain ⟨hdigest, htrusted⟩ := validateManifest_toJson_ok hok
  exact h hdigest htrusted

theorem wp_verifyRevisionTree {manifest : List ManifestEntry} (hstay : ∀ s, guar s s)
    (hkept : KeepsObjects change t k assertion) (hs : assertion s) :
    wp change t guar (verifyRevisionTree k digest manifest)
      (fun r s' => assertion s' ∧ (r = .ok () → s'.Verified k digest manifest)) s := by
  rw [verifyRevisionTree, wp_bind]
  refine wp_requireManifest (fun hdigest htrusted => ?_) fun failure =>
    ⟨hs, fun h => by cases h⟩
  rw [andThen_ok]
  refine wp_mono (fun r s' hs' => ?_) (wp_verifyTree hstay hkept hs)
  exact ⟨hs'.1, fun hok => ⟨hdigest, htrusted, hs'.2 hok⟩⟩

/-! ### Writes -/

/-- **What a writer of a revision may do** where it asserts something: put an object of the manifest
where there is none, drop one that does not match its entry, and use the names a backend makes up.
It asserts the same afterwards. -/
structure WriterAssertion (change : Changes World) (t : ThreadId) (guar : World → World → Prop)
    (k : StorageKey) (digest : PyStr) (manifest : List ManifestEntry)
    (assertion : World → Prop) : Prop where
  kept : KeepsObjects change t k assertion
  stay : ∀ s, guar s s
  put : ∀ s entry content, assertion s → entry ∈ manifest →
    s.objects (.revision k digest entry.path) = none →
      guar s (s.setObject (.revision k digest entry.path) (some content))
  drop : ∀ s entry, assertion s → entry ∈ manifest → ¬ s.EntryStored k digest entry →
    guar s (s.setObject (.revision k digest entry.path) none)
  park : ∀ s n content, assertion s → guar s (s.setObject (.parked n) content)
  own : ∀ s key content, guar s (s.setObject key content) → assertion s →
    assertion (s.setObject key content)

variable {manifest : List ManifestEntry}

omit [Unicode] in
theorem wp_storageSave {content : Bytes}
    (hwriter : WriterAssertion change t guar k digest manifest assertion)
    (hentry : entry ∈ manifest) (hs : assertion s) :
    wp change t guar (storageSave (.revision k digest entry.path) content)
      (fun r s' => assertion s' ∧ ∀ stored, r = .ok stored →
        stored = .revision k digest entry.path ∨ ∃ n, stored = .parked n) s := by
  refine wp_stmt hwriter.kept.stable hs fun s' hs' c r s'' hstep => ?_
  have hput := fun hfree content => hwriter.put s' entry content hs' hentry hfree
  have hpark := fun n content => hwriter.park s' n content hs'
  split at hstep
  · cases hstep
    exact ⟨hwriter.stay _, hs', fun _ h => by cases h⟩
  · split_ifs at hstep with hfree
    cases hstep
    refine ⟨hpark _ _, hwriter.own _ _ _ (hpark _ _) hs', fun stored h => ?_⟩
    cases h
    exact .inr ⟨_, rfl⟩
  · split_ifs at hstep with hfree
    cases hstep
    exact ⟨hpark _ _, hwriter.own _ _ _ (hpark _ _) hs', fun _ h => by cases h⟩
  · split_ifs at hstep with hfree
    split at hstep <;> cases hstep
    · exact ⟨hput hfree _, hwriter.own _ _ _ (hput hfree _) hs', fun _ h => by cases h⟩
    · exact ⟨hput hfree _, hwriter.own _ _ _ (hput hfree _) hs', fun _ h => by cases h⟩
    · refine ⟨hput hfree _, hwriter.own _ _ _ (hput hfree _) hs', fun stored h => ?_⟩
      cases h
      exact .inl rfl

omit [Unicode] [Hashing] in
/-- A delete call, where deleting the object is an allowed change. -/
theorem wp_storageDelete {post : Except Failure Bool → World → Prop} (hstay : ∀ s, guar s s)
    (hkept : Stable change t assertion) (hs : assertion s)
    (hdelete : ∀ s', assertion s' → guar s' (s'.setObject key none))
    (h : ∀ s', assertion s' → ∀ existed, post (.ok existed) (s'.setObject key none))
    (hfail : ∀ s', assertion s' → post (.error .storage) s' ∧
      post (.error .storage) (s'.setObject key none)) :
    wp change t guar (storageDelete key) post s := by
  refine wp_stmt hkept hs fun s' hs' c r s'' hstep => ?_
  split at hstep <;> cases hstep
  · exact ⟨hstay _, (hfail s' hs').1⟩
  · exact ⟨hdelete s' hs', (hfail s' hs').2⟩
  · exact ⟨hdelete s' hs', h s' hs' _⟩

omit [Unicode] in
theorem wp_saveOne {content : Bytes}
    (hwriter : WriterAssertion change t guar k digest manifest assertion)
    (hentry : entry ∈ manifest) (hs : assertion s) :
    wp change t guar (saveOne (.revision k digest entry.path) content entry)
      (fun _ s' => assertion s') s := by
  rw [saveOne, wp_bind]
  refine wp_mono (fun r s₁ hs₁ => ?_) (wp_storageSave hwriter hentry hs)
  obtain ⟨hs₁, hstored⟩ := hs₁
  cases r with
  | error error => exact hs₁
  | ok stored =>
    rw [andThen_ok]
    split_ifs with hkey
    · exact hs₁
    · obtain ⟨n, rfl⟩ := (hstored stored rfl).resolve_left hkey
      have hverify : ∀ s, assertion s → wp change t guar (do
          let reasons ← verifyEntry (.revision k digest entry.path) entry
          if reasons = [] then pure () else .raise .storage) (fun _ s' => assertion s') s := by
        intro s hs
        rw [wp_bind]
        refine wp_mono (fun r s₂ hs₂ => ?_)
          (wp_verifyEntry hwriter.stay hwriter.kept.stable hs)
        cases r with
        | error error => exact hs₂.1
        | ok reasons =>
          rw [andThen_ok]
          split_ifs
          · exact hs₂.1
          · exact hs₂.1
      have hpark : ∀ s', assertion s' → assertion (s'.setObject (.parked n) none) :=
        fun s' hs' => hwriter.own _ _ _ (hwriter.park s' n none hs') hs'
      rw [wp_bind, wp_attempt]
      exact wp_storageDelete hwriter.stay hwriter.kept.stable hs₁
        (fun s' hs' => hwriter.park s' n none hs')
        (fun s' hs' _ => hverify _ (hpark s' hs'))
        fun s' hs' => ⟨hverify _ hs', hverify _ (hpark s' hs')⟩

omit [Unicode] in
/-- Writing one file removes an object only where it does not match the entry. -/
theorem wp_writeOne {content : Bytes}
    (hwriter : WriterAssertion change t guar k digest manifest assertion)
    (hentry : entry ∈ manifest) (hs : assertion s) :
    wp change t guar (writeOne (.revision k digest entry.path) content entry)
      (fun _ s' => assertion s') s := by
  rw [writeOne, wp_bind]
  refine wp_storageExists hwriter.stay hwriter.kept.stable hs (fun s₁ occupied hs₁ _ => ?_)
    fun s₁ hs₁ => hs₁
  rw [andThen_ok]
  split_ifs with hoccupied
  · rw [wp_bind]
    refine wp_mono (fun r s₂ hs₂ => ?_) (wp_verifyEntry hwriter.stay hwriter.kept.stable hs₁)
    obtain ⟨hs₂, hverified⟩ := hs₂
    cases r with
    | error error => exact hs₂
    | ok reasons =>
      rw [andThen_ok]
      split_ifs with hreasons
      · exact hs₂
      · -- the key holds something else, and nobody else writes it meanwhile
        have habout : AboutObjects k fun s => ¬ s.EntryStored k digest entry :=
          fun s s' hsame hmismatch => by simpa only [World.EntryStored, hsame] using hmismatch
        have hdrop : ∀ s', assertion s' ∧ ¬ s'.EntryStored k digest entry →
            guar s' (s'.setObject (.revision k digest entry.path) none) :=
          fun s' hs' => hwriter.drop s' entry hs'.1 hentry hs'.2
        have hdropped := fun s' hs' => hwriter.own s' _ none (hdrop s' hs') hs'.1
        rw [wp_bind]
        exact wp_storageDelete hwriter.stay (hwriter.kept _ habout)
          ⟨hs₂, fun h => hreasons (hverified.mpr h)⟩ hdrop
          (fun s' hs' _ => wp_saveOne hwriter hentry (hdropped s' hs'))
          fun s' hs' => ⟨hs'.1, hdropped s' hs'⟩
  · exact wp_saveOne hwriter hentry hs₁

/-- **Writing a revision**: when it returns, every file of the manifest is stored. What a writer may
do is to be known of manifests only that the validator accepts. -/
theorem wp_writeRevision {files : SourceFiles} (hstay : ∀ s, guar s s)
    (hwriter : digest = manifestDigest manifest → Trusted manifest → isHexDigest digest = true →
      WriterAssertion change t guar k digest manifest assertion) (hs : assertion s) :
    wp change t guar (writeRevision k digest files manifest)
      (fun r s' => assertion s' ∧ (r = .ok () → s'.Verified k digest manifest)) s := by
  have hfailed : ∀ {s : World} {error : Failure}, assertion s → assertion s ∧
      ((.error error : Except Failure Unit) = .ok () → s.Verified k digest manifest) :=
    fun hs => ⟨hs, fun h => by cases h⟩
  rw [writeRevision, wp_bind]
  refine wp_requireManifest (fun hdigest htrusted => ?_) fun failure => hfailed hs
  rw [andThen_ok, wp_bind, revisionPrefix]
  split_ifs with hhex
  · replace hwriter := hwriter hdigest htrusted hhex
    rw [wp_pure, andThen_ok, wp_bind]
    refine wp_check (fun source _ => ?_) fun failure _ => hfailed hs
    rw [andThen_ok, wp_bind]
    refine wp_forM (fun before after s' => before ++ after = manifest ∧ assertion s') ?_ ?_
      ⟨rfl, hs⟩
    · rintro before entry after s₁ ⟨hmanifest, hs₁⟩
      have hentry : entry ∈ manifest := hmanifest ▸ by simp
      split
      · exact hfailed hs₁
      · refine wp_mono (fun r s₂ hs₂ => ?_) (wp_writeOne hwriter hentry hs₁)
        cases r with
        | ok u => exact ⟨by simpa using hmanifest, hs₂⟩
        | error error => exact hfailed hs₂
    · rintro s₁ ⟨-, hs₁⟩
      refine wp_mono (fun r s₂ hs₂ => ?_) (wp_verifyTree hstay hwriter.kept hs₁)
      exact ⟨hs₂.1, fun hok => ⟨hdigest, htrusted, hs₂.2 hok⟩⟩
  · exact ⟨hs, fun h => by cases h⟩

/-- The object of a payload path is gone. -/
def PathGone (k : StorageKey) (digest : PyStr) (s : World) (path : PyStr) : Prop :=
  ∀ canonical, normalizeSourcePath path = .ok canonical →
    s.objects (.revision k digest canonical) = none

omit [Hashing] in
theorem PathGone.setObject {path : PyStr} (h : PathGone k digest s path) :
    PathGone k digest (s.setObject key none) path := by
  intro canonical hcanonical
  show Function.update s.objects key none _ = none
  by_cases hkey : ObjectKey.revision k digest canonical = key
  · rw [hkey, Function.update_self]
  · rw [Function.update_of_ne hkey]
    exact h canonical hcanonical

omit [Hashing] in
/-- **Deleting a revision**: when it returns, the objects of all its paths are gone. -/
theorem wp_deleteRevision {paths : List PyStr} (hstay : ∀ s, guar s s)
    (hkept : KeepsObjects change t k assertion) (hs : assertion s)
    (hdelete : ∀ s path, assertion s → guar s (s.setObject (.revision k digest path) none) ∧
      assertion (s.setObject (.revision k digest path) none)) :
    wp change t guar (deleteRevision k digest paths)
      (fun r s' => assertion s' ∧ (r = .ok () → ∀ path ∈ paths, PathGone k digest s' path)) s := by
  rw [deleteRevision, wp_bind]
  -- without a failure so far, the objects tried so far are gone
  refine wp_foldlM (fun before _ failed s' => assertion s' ∧
    (failed = [] → ∀ path ∈ before, PathGone k digest s' path)) ?_ ?_
    ⟨hs, fun _ path hpath => by cases hpath⟩
  · intro before path after failed s₁ hs₁
    rw [wp_bind, wp_attempt, wp_bind, revisionPrefix]
    have hfailed : ∀ s, assertion s → wp change t guar
        (pure (failed ++ [path]) : Service (List PyStr)) (andThen (fun failed' s' => assertion s' ∧
          (failed' = [] → ∀ p ∈ before ++ [path], PathGone k digest s' p))
          fun e s' => assertion s' ∧ ((.error e : Except Failure Unit) =
            .ok () → ∀ p ∈ paths, PathGone k digest s' p)) s :=
      fun s hs => ⟨hs, fun h => by simp at h⟩
    split_ifs with hhex
    · rw [wp_pure, andThen_ok, wp_bind]
      refine wp_check (fun canonical hcanonical => ?_) fun failure _ => hfailed _ hs₁.1
      rw [andThen_ok, wp_bind]
      have habout : AboutObjects k fun s => failed = [] →
          ∀ p ∈ before, PathGone k digest s p := by
        intro s s' hsame hgone hnone p hp canonical hcanonical
        rw [hsame]
        exact hgone hnone p hp canonical hcanonical
      refine wp_storageDelete hstay (hkept _ habout) hs₁ (fun s₂ hs₂ => (hdelete s₂ _ hs₂.1).1)
        (fun s₂ hs₂ existed => ?_) fun s₂ hs₂ =>
          ⟨hfailed _ hs₂.1, hfailed _ (hdelete s₂ _ hs₂.1).2⟩
      refine ⟨(hdelete s₂ _ hs₂.1).2, fun hnone p hp => ?_⟩
      rcases List.mem_append.mp hp with hp | hp
      · exact (hs₂.2 hnone p hp).setObject
      · obtain rfl := List.mem_singleton.mp hp
        intro other hother
        obtain rfl : canonical = other := Except.ok.inj (hcanonical.symm.trans hother)
        exact Function.update_self ..
    · exact hfailed _ hs₁.1
  · rintro failed s₁ ⟨hs₁, hgone⟩
    rw [andThen_ok]
    split_ifs with hnone
    · exact ⟨hs₁, fun h => by cases h⟩
    · refine ⟨hs₁, fun _ path hpath => hgone (not_not.mp hnone) path ?_⟩
      exact (List.mem_insertionSort _).mpr hpath

end Specifications

end NetBoxScripts
