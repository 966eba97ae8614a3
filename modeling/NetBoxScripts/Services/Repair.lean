import NetBoxScripts.Concurrency.Alone
import NetBoxScripts.Services.Store

/-!
# Writing a revision over whatever is there

`write_revision` (`storage/store.py`) alone on a backend that may fail at any call: from every
state it goes on to the manifest's tree, and damages nothing on the way.

## Main definitions

* `Repairs`: what a call may have done to the storage so far
* `Supplies`: a source mapping that holds what a manifest names
* `Choice.Healthy`: the answers of a backend that does not fail

## Main results

* `writeRevision_repairs`: what holds after each action, when it returns, and of a healthy retry
-/

namespace NetBoxScripts

section Repair

variable [Unicode] [Hashing] {t : ThreadId} {s₀ s : World} {k : StorageKey} {digest : PyStr}
  {manifest : List ManifestEntry} {entry : ManifestEntry}

/-- What a call may have done to the storage so far: only the manifest's keys changed, those that
held their content did not, and there may be objects that the backend itself parked. -/
structure Repairs (k : StorageKey) (digest : PyStr) (manifest : List ManifestEntry)
    (s₀ s : World) : Prop where
  frame : ∀ key, (∀ e ∈ manifest, key ≠ .revision k digest e.path) →
    s.objects key = s₀.objects key ∨ (∃ n, key = .parked n) ∧ s₀.objects key = none
  intact : ∀ e ∈ manifest, s₀.EntryStored k digest e →
    s.objects (.revision k digest e.path) = s₀.objects (.revision k digest e.path)
  rest : { s with objects := s₀.objects } = s₀
  idle : s₀.TreeStored k digest manifest → s = s₀

omit [Unicode] in
theorem Repairs.refl : Repairs k digest manifest s₀ s₀ :=
  ⟨fun _ _ => .inl rfl, fun _ _ _ => rfl, rfl, fun _ => rfl⟩

omit [Unicode] in
/-- A content that is stored was, or is new. -/
theorem Repairs.not_stored (h : Repairs k digest manifest s₀ s) (hentry : entry ∈ manifest)
    (hnot : ¬ s.EntryStored k digest entry) : ¬ s₀.EntryStored k digest entry := by
  intro hstored
  obtain ⟨content, hcontent, hintact⟩ := id hstored
  exact hnot ⟨content, (h.intact entry hentry hstored).trans hcontent, hintact⟩

omit [Unicode] in
/-- A parked object of the backend is not one from before the call. -/
theorem Repairs.parked (h : Repairs k digest manifest s₀ s) {n : ℕ}
    (hfree : s.objects (.parked n) = none) : s₀.objects (.parked n) = none := by
  rcases h.frame (.parked n) fun e _ => by simp with heq | ⟨-, hnone⟩
  · exact heq ▸ hfree
  · exact hnone

/-- **Setting an object** for an entry that was not stored. -/
theorem Repairs.set (h : Repairs k digest manifest s₀ s) (htrusted : Trusted manifest)
    (hentry : entry ∈ manifest) (hnot : ¬ s₀.EntryStored k digest entry) {key : ObjectKey}
    (hkey : key = .revision k digest entry.path ∨ (∃ n, key = .parked n) ∧ s₀.objects key = none)
    (content : Option Bytes) : Repairs k digest manifest s₀ (s.setObject key content) where
  frame other hother := by
    rcases eq_or_ne other key with rfl | hne
    · rcases hkey with rfl | hparked
      · exact absurd rfl (hother entry hentry)
      · exact .inr hparked
    · show Function.update s.objects key content other = _ ∨ _
      rw [Function.update_of_ne hne]
      exact h.frame other hother
  intact e he hstored := by
    have hne : ObjectKey.revision k digest e.path ≠ key := by
      rcases hkey with rfl | ⟨⟨n, rfl⟩, -⟩
      · rintro heq
        obtain rfl : e = entry := by
          have hpath : e.path = entry.path := by injection heq
          exact List.inj_on_of_nodup_map htrusted.nodup he hentry hpath
        exact hnot hstored
      · simp
    show Function.update s.objects key content _ = _
    rw [Function.update_of_ne hne]
    exact h.intact e he hstored
  rest := h.rest
  idle htree := absurd (htree entry hentry) hnot

/-- A source mapping that holds the content of each entry. -/
def Supplies (files : SourceFiles) (manifest : List ManifestEntry) : Prop :=
  ∃ source, canonicalSource files = .ok source ∧ ∀ entry ∈ manifest,
    ∃ file, source.find? (fun file => file.1 = entry.path) = some file ∧ Intact file.2 entry

/-! ## Any backend -/

/-- Each action leaves what a repair may leave. -/
abbrev Mends {α : Type} (t : ThreadId) (k : StorageKey) (digest : PyStr)
    (manifest : List ManifestEntry) (s₀ : World) (prog : Service α)
    (post : Except Failure α → World → Prop) (s : World) : Prop :=
  wp Undisturbed t (fun _ => Repairs k digest manifest s₀) prog post s

omit [Unicode] in
/-- What a program that stays where it is does. -/
theorem wp_stay {α : Type} {prog : Service α} {post : Except Failure α → World → Prop}
    (hs : Repairs k digest manifest s₀ s)
    (h : wp Undisturbed t (fun s s' => s' = s) prog (fun r s' => s' = s → post r s') s) :
    Mends t k digest manifest s₀ prog post s := by
  induction prog generalizing s with
  | done result => exact h rfl
  | act step next ih =>
    intro s' hrely c b s'' hstep
    obtain rfl := rely_undisturbed hrely
    obtain ⟨rfl, hnext⟩ := h s' .refl c b s'' hstep
    exact ⟨hs, ih b hs hnext⟩

omit [Unicode] in
/-- Verifying one entry changes nothing. -/
theorem mends_verifyEntry {post : Except Failure (List TreeReason) → World → Prop}
    (hs : Repairs k digest manifest s₀ s)
    (h : ∀ r, VerifyOutcome k digest entry s r → post r s) :
    Mends t k digest manifest s₀ (verifyEntry (.revision k digest entry.path) entry) post s := by
  refine wp_stay hs (wp_mono (fun r s' hr heq => ?_)
    (wp_verifyEntry (fun _ => rfl) (stable_undisturbed fun _ => True) trivial))
  subst heq
  exact h r hr.2

/-- **Saving** the content of an entry that was not stored. -/
theorem mends_saveOne {content : Bytes} (htrusted : Trusted manifest) (hentry : entry ∈ manifest)
    (hs : Repairs k digest manifest s₀ s) (hnot : ¬ s₀.EntryStored k digest entry) :
    Mends t k digest manifest s₀ (saveOne (.revision k digest entry.path) content entry)
      (fun _ s' => Repairs k digest manifest s₀ s') s := by
  have hset : ∀ {s}, Repairs k digest manifest s₀ s → ∀ content,
      Repairs k digest manifest s₀ (s.setObject (.revision k digest entry.path) content) :=
    fun hs content => hs.set htrusted hentry hnot (.inl rfl) content
  have hpark : ∀ {s n}, Repairs k digest manifest s₀ s → s₀.objects (.parked n) = none →
      ∀ content, Repairs k digest manifest s₀ (s.setObject (.parked n) content) :=
    fun hs hnone content => hs.set htrusted hentry hnot (.inr ⟨⟨_, rfl⟩, hnone⟩) content
  -- what follows a save: the key, or a name that the backend made up and that was free
  let after : ObjectKey → World → Prop := fun stored s' => Repairs k digest manifest s₀ s' ∧
    (stored = .revision k digest entry.path ∨ ∃ n, stored = .parked n ∧
      s₀.objects (.parked n) = none)
  have hsave : Mends t k digest manifest s₀ (storageSave (.revision k digest entry.path) content)
      (andThen after fun _ s' => Repairs k digest manifest s₀ s') s := by
    refine wp_stmt (stable_undisturbed fun s' => s' = s) rfl fun s' hs' c r s'' hstep => ?_
    subst hs'
    split at hstep
    · cases hstep
      exact ⟨hs, hs⟩
    · split_ifs at hstep with hfree
      cases hstep
      exact ⟨hpark hs (hs.parked hfree) _, hpark hs (hs.parked hfree) _, .inr ⟨_, rfl,
        hs.parked hfree⟩⟩
    · split_ifs at hstep with hfree
      cases hstep
      exact ⟨hpark hs (hs.parked hfree) _, hpark hs (hs.parked hfree) _⟩
    · split_ifs at hstep with hfree
      split at hstep <;> cases hstep
      · exact ⟨hset hs _, hset hs _⟩
      · exact ⟨hset hs _, hset hs _⟩
      · exact ⟨hset hs _, hset hs _, .inl rfl⟩
  unfold saveOne
  rw [Mends, wp_bind]
  refine wp_mono (fun r s₁ h₁ => ?_) hsave
  cases r with
  | error error => exact h₁
  | ok stored =>
    obtain ⟨hs₁, hstored⟩ := h₁
    rw [andThen_ok]
    split_ifs with hkey
    · exact hs₁
    · obtain ⟨n, rfl, hnone⟩ := hstored.resolve_left hkey
      rw [wp_bind, wp_attempt]
      have hverify : ∀ s, Repairs k digest manifest s₀ s → Mends t k digest manifest s₀ (do
          let reasons ← verifyEntry (.revision k digest entry.path) entry
          if reasons = [] then pure () else .raise .storage)
          (fun _ s' => Repairs k digest manifest s₀ s') s := by
        intro s hs
        rw [Mends, wp_bind]
        refine mends_verifyEntry hs fun r _ => ?_
        cases r with
        | error error => exact hs
        | ok reasons =>
          rw [andThen_ok]
          split_ifs
          · exact hs
          · exact hs
      refine wp_stmt (stable_undisturbed fun s' => s' = s₁) rfl fun s' hs' c r s'' hstep => ?_
      subst hs'
      have hgone := hpark hs₁ hnone none
      split at hstep <;> cases hstep
      · exact ⟨hs₁, hverify _ hs₁⟩
      · exact ⟨hgone, hverify _ hgone⟩
      · exact ⟨hgone, hverify _ hgone⟩

/-- **Writing one file**: what holds its recorded content is left alone. -/
theorem mends_writeOne {content : Bytes} (htrusted : Trusted manifest) (hentry : entry ∈ manifest)
    (hs : Repairs k digest manifest s₀ s) :
    Mends t k digest manifest s₀ (writeOne (.revision k digest entry.path) content entry)
      (fun _ s' => Repairs k digest manifest s₀ s') s := by
  unfold writeOne
  rw [Mends, wp_bind]
  refine wp_stay hs (wp_storageExists (fun _ => rfl) (stable_undisturbed fun s' => s' = s) rfl
    (fun s₁ occupied _ hoccupied heq => ?_) fun s₁ _ heq => heq ▸ hs)
  subst heq
  rw [andThen_ok]
  split_ifs with htaken
  · rw [wp_bind]
    refine mends_verifyEntry hs fun r hverified => ?_
    cases r with
    | error error => exact hs
    | ok reasons =>
      rw [andThen_ok]
      split_ifs with hreasons
      · exact hs
      · -- the key holds something else, which may go
        have hnot := hs.not_stored hentry fun hstored => hreasons (hverified.mpr hstored)
        have hgone := hs.set htrusted hentry hnot (.inl rfl) none
        rw [wp_bind]
        refine wp_stmt (stable_undisturbed fun s' => s' = s₁) rfl fun s' hs' c r s'' hstep => ?_
        subst hs'
        split at hstep <;> cases hstep
        · exact ⟨hs, hs⟩
        · exact ⟨hgone, hgone⟩
        · exact ⟨hgone, mends_saveOne htrusted hentry hgone hnot⟩
  · refine mends_saveOne htrusted hentry hs (hs.not_stored hentry (not_entryStored_of_none ?_))
    by_contra hsome
    exact htaken (hoccupied hsome)

omit [Unicode] in
/-- Verifying the tree changes nothing, and it is stored when that returns. -/
theorem mends_verifyTree (hs : Repairs k digest manifest s₀ s) :
    Mends t k digest manifest s₀ (verifyTree k digest manifest) (fun r s' =>
      Repairs k digest manifest s₀ s' ∧ (r = .ok () → s'.TreeStored k digest manifest)) s := by
  rw [Mends, verifyTree, wp_bind, revisionPrefix]
  split_ifs with hhex
  · rw [wp_pure, andThen_ok, wp_bind]
    -- without a reason so far, the entries verified so far are stored
    refine wp_foldlM (fun before _ reasons s' => s' = s ∧
      (reasons = [] → ∀ entry ∈ before, s.EntryStored k digest entry)) ?_ ?_
      ⟨rfl, fun _ entry hentry => by cases hentry⟩
    · rintro before entry after reasons s₁ ⟨rfl, hbefore⟩
      rw [wp_bind]
      refine mends_verifyEntry hs fun r hverified => ?_
      cases r with
      | error error => exact ⟨hs, fun h => by cases h⟩
      | ok found =>
        refine ⟨rfl, fun hreasons other hother => ?_⟩
        obtain ⟨hreasons, hfound⟩ := List.append_eq_nil_iff.mp hreasons
        rcases List.mem_append.mp hother with hother | hother
        · exact hbefore hreasons other hother
        · exact List.mem_singleton.mp hother ▸ hverified.mp hfound
    · rintro reasons s₁ ⟨rfl, hstored⟩
      rw [andThen_ok]
      split_ifs with hmissing hreasons
      · exact ⟨hs, fun h => by cases h⟩
      · exact ⟨hs, fun h => by cases h⟩
      · exact ⟨hs, fun _ entry hentry =>
          hstored (not_not.mp hreasons) entry ((List.mem_insertionSort _).mpr hentry)⟩
  · exact ⟨hs, fun h => by cases h⟩

/-- **Writing a revision**, whatever the backend does. -/
theorem mends_writeRevision {files : SourceFiles} (hs : Repairs k digest manifest s₀ s) :
    Mends t k digest manifest s₀ (writeRevision k digest files manifest) (fun r s' =>
      Repairs k digest manifest s₀ s' ∧ (r = .ok () → s'.TreeStored k digest manifest)) s := by
  have hfailed : ∀ {s : World} {error : Failure}, Repairs k digest manifest s₀ s →
      Repairs k digest manifest s₀ s ∧ ((.error error : Except Failure Unit) = .ok () →
        s.TreeStored k digest manifest) := fun hs => ⟨hs, fun h => by cases h⟩
  rw [Mends, writeRevision, wp_bind, requireManifest]
  cases hmanifest : validateManifest (.arr (manifest.map ManifestEntry.toJson)) (some digest) with
  | error failure => exact hfailed hs
  | ok accepted =>
    obtain ⟨-, htrusted⟩ := validateManifest_toJson_ok hmanifest
    rw [check_ok, wp_pure, andThen_ok, wp_bind, revisionPrefix]
    split_ifs
    · rw [wp_pure, andThen_ok, wp_bind]
      cases canonicalSource files with
      | error failure => exact hfailed hs
      | ok source =>
        rw [check_ok, wp_pure, andThen_ok, wp_bind]
        refine wp_forM (fun before after s' => before ++ after = manifest ∧
          Repairs k digest manifest s₀ s') ?_ (fun s₁ hs₁ => mends_verifyTree hs₁.2) ⟨rfl, hs⟩
        rintro before entry after s₁ ⟨hsplit, hs₁⟩
        split
        · exact hfailed hs₁
        · refine wp_mono (fun r s₂ hs₂ => ?_)
            (mends_writeOne htrusted (hsplit ▸ by simp : entry ∈ manifest) hs₁)
          cases r with
          | ok u => exact ⟨by simpa using hsplit, hs₂⟩
          | error error => exact hfailed hs₂
    · exact ⟨hs, fun h => h.elim⟩

/-! ## A healthy backend -/

/-- The answers of a backend that does not fail; it need not know sizes. -/
def Choice.Healthy (choice : Choice) : Prop := choice = .proceed ∨ choice = .unsized

omit [Unicode] in
/-- A healthy read raises no storage error, and changes nothing. -/
theorem succeeds_readVerified :
    Succeeds t Choice.Healthy (readVerified (.revision k digest entry.path) entry)
      (fun r s' => s' = s ∧ r ≠ .error .storage) s := by
  rw [readVerified, succeeds_bind]
  have hopen : Succeeds t Choice.Healthy (storageOpen (.revision k digest entry.path))
      (fun r s' => s' = s ∧ ∃ content, r = .ok content) s := by
    rintro c (rfl | rfl)
    · exact ⟨_, _, rfl, rfl, _, rfl⟩
    · exact ⟨_, _, rfl, rfl, _, rfl⟩
  have hsize : Succeeds t Choice.Healthy (storageSize (.revision k digest entry.path))
      (fun r s' => s' = s ∧ ∃ answer, r = .ok answer) s := by
    rintro c (rfl | rfl)
    · exact ⟨_, _, rfl, rfl, _, rfl⟩
    · exact ⟨_, _, rfl, rfl, _, rfl⟩
  refine Succeeds.mono ?_ hsize
  rintro r s₁ ⟨rfl, answer, rfl⟩
  rw [andThen_ok]
  split
  · exact ⟨rfl, by simp⟩
  · split_ifs
    · exact ⟨rfl, by simp⟩
    · rw [succeeds_bind]
      refine Succeeds.mono ?_ hopen
      rintro r s₂ ⟨rfl, content, rfl⟩
      rw [andThen_ok]
      cases content with
      | none => exact ⟨rfl, by simp⟩
      | some content =>
        dsimp only
        split_ifs
        · exact ⟨rfl, by simp⟩
        · exact ⟨rfl, by simp⟩
        · exact ⟨rfl, by simp⟩

omit [Unicode] in
/-- Healthy, verifying one entry tells whether it is stored. -/
theorem succeeds_verifyEntry :
    Succeeds t Choice.Healthy (verifyEntry (.revision k digest entry.path) entry)
      (fun r s' => s' = s ∧ ∃ reasons, r = .ok reasons ∧
        (reasons = [] ↔ s.EntryStored k digest entry)) s := by
  rw [verifyEntry, succeeds_bind, succeeds_attempt]
  refine Succeeds.mono ?_ (succeeds_readVerified.and_wp (wp_readVerified (G := fun _ _ => True)
    (fun _ => trivial) (stable_undisturbed fun _ => True) trivial))
  rintro r s₁ ⟨⟨rfl, hhealthy⟩, -, hread⟩
  rw [andThen_ok]
  cases r with
  | ok content => exact ⟨rfl, [], rfl, iff_of_true rfl ⟨content, hread⟩⟩
  | error error =>
    cases error with
    | corruptTree reasons => exact ⟨rfl, reasons, rfl, iff_of_false hread.1 hread.2⟩
    | storage => exact absurd rfl hhealthy
    | _ => cases hread

/-- What a healthy write of one file leaves: the entry is stored, and other keys are as before. -/
def Wrote (k : StorageKey) (digest : PyStr) (entry : ManifestEntry) (s s' : World) : Prop :=
  s'.EntryStored k digest entry ∧
    ∀ key, key ≠ .revision k digest entry.path → s'.objects key = s.objects key

omit [Unicode] in
theorem succeeds_saveOne {content : Bytes} (hintact : Intact content entry)
    (hfree : s.objects (.revision k digest entry.path) = none) :
    Succeeds t Choice.Healthy (saveOne (.revision k digest entry.path) content entry)
      (fun r s' => r = .ok () ∧ Wrote k digest entry s s') s := by
  have hsave : Succeeds t Choice.Healthy (storageSave (.revision k digest entry.path) content)
      (fun r s' => r = .ok (.revision k digest entry.path) ∧
        s' = s.setObject (.revision k digest entry.path) (some content)) s := by
    rintro c (rfl | rfl)
    · exact ⟨_, _, if_pos hfree, rfl, rfl⟩
    · exact ⟨_, _, if_pos hfree, rfl, rfl⟩
  rw [saveOne, succeeds_bind]
  refine Succeeds.mono ?_ hsave
  rintro r s' ⟨rfl, rfl⟩
  rw [andThen_ok, if_pos rfl]
  exact ⟨rfl, ⟨content, Function.update_self .., hintact⟩,
    fun key hkey => Function.update_of_ne hkey ..⟩

omit [Unicode] in
/-- **A healthy write of one file**. -/
theorem succeeds_writeOne {content : Bytes} (hintact : Intact content entry) :
    Succeeds t Choice.Healthy (writeOne (.revision k digest entry.path) content entry)
      (fun r s' => r = .ok () ∧ Wrote k digest entry s s') s := by
  have hexists : Succeeds t Choice.Healthy (storageExists (.revision k digest entry.path))
      (fun r s' => s' = s ∧ r = .ok (s.objects (.revision k digest entry.path)).isSome) s := by
    rintro c (rfl | rfl)
    · exact ⟨_, _, rfl, rfl, rfl⟩
    · exact ⟨_, _, rfl, rfl, rfl⟩
  have hdelete : Succeeds t Choice.Healthy (storageDelete (.revision k digest entry.path))
      (fun r s' => s' = s.setObject (.revision k digest entry.path) none ∧
        ∃ existed, r = .ok existed) s := by
    rintro c (rfl | rfl)
    · exact ⟨_, _, rfl, rfl, _, rfl⟩
    · exact ⟨_, _, rfl, rfl, _, rfl⟩
  rw [writeOne, succeeds_bind]
  refine Succeeds.mono ?_ hexists
  rintro r s₁ ⟨rfl, rfl⟩
  rw [andThen_ok]
  split_ifs with htaken
  · rw [succeeds_bind]
    refine Succeeds.mono ?_ succeeds_verifyEntry
    rintro r s₂ ⟨rfl, reasons, rfl, hverified⟩
    rw [andThen_ok]
    split_ifs with hreasons
    · exact ⟨rfl, hverified.mp hreasons, fun _ _ => rfl⟩
    · rw [succeeds_bind]
      refine Succeeds.mono ?_ hdelete
      rintro r s₃ ⟨rfl, existed, rfl⟩
      rw [andThen_ok]
      refine Succeeds.mono ?_ (succeeds_saveOne hintact (Function.update_self ..))
      rintro r s₄ ⟨rfl, hstored, hothers⟩
      exact ⟨rfl, hstored, fun key hkey =>
        (hothers key hkey).trans (Function.update_of_ne hkey ..)⟩
  · exact succeeds_saveOne hintact (by simpa using htaken)

omit [Unicode] in
/-- Healthy, a stored tree verifies. -/
theorem succeeds_verifyTree (hhex : isHexDigest digest = true)
    (htree : s.TreeStored k digest manifest) :
    Succeeds t Choice.Healthy (verifyTree k digest manifest) (fun r _ => r = .ok ()) s := by
  rw [verifyTree, succeeds_bind, revisionPrefix, if_pos hhex]
  rw [succeeds_pure, andThen_ok, succeeds_bind]
  refine succeeds_foldlM (fun before after reasons s' => s' = s ∧ reasons = [] ∧
    before ++ after = sortByPath manifest) ?_ ?_ ⟨rfl, rfl, rfl⟩
  · rintro before entry after reasons s₁ ⟨rfl, rfl, hsplit⟩
    have hentry : entry ∈ manifest :=
      (List.mem_insertionSort _).mp (hsplit ▸ by simp : entry ∈ sortByPath manifest)
    rw [succeeds_bind]
    refine Succeeds.mono ?_ succeeds_verifyEntry
    rintro r s₂ ⟨rfl, reasons, rfl, hverified⟩
    obtain rfl := hverified.mpr (htree entry hentry)
    exact ⟨rfl, rfl, by simpa using hsplit⟩
  · rintro reasons s₁ ⟨rfl, rfl, -⟩
    rw [andThen_ok]
    split_ifs with hmissing hreasons
    · -- no entry, no reason
      have hnil : sortByPath manifest = [] := by simpa using hmissing.2.symm
      have hempty := (List.perm_insertionSort (fun a b : ManifestEntry => a.path ≤ b.path)
        manifest).length_eq
      rw [← sortByPath, hnil] at hempty
      exact absurd (List.length_eq_zero_iff.mp hempty.symm) hmissing.1
    · exact absurd rfl hreasons
    · rfl

/-- **A healthy call** returns, whatever it finds. -/
theorem succeeds_writeRevision {files : SourceFiles} (hhex : isHexDigest digest = true)
    (hmanifest : validateManifest (.arr (manifest.map ManifestEntry.toJson)) (some digest) = .ok ())
    (hsource : Supplies files manifest) :
    Succeeds t Choice.Healthy (writeRevision k digest files manifest) (fun r _ => r = .ok ()) s := by
  obtain ⟨source, hcanonical, hsupplied⟩ := hsource
  obtain ⟨-, htrusted⟩ := validateManifest_toJson_ok hmanifest
  rw [writeRevision, succeeds_bind, requireManifest, hmanifest, check_ok, succeeds_pure, andThen_ok,
    succeeds_bind, revisionPrefix, if_pos hhex, succeeds_pure, andThen_ok, succeeds_bind,
    hcanonical, check_ok, succeeds_pure, andThen_ok, succeeds_bind]
  have hloop : ∀ write : ManifestEntry → Service Unit,
      (∀ entry file, source.find? (fun file => file.1 = entry.path) = some file →
        write entry = writeOne (.revision k digest entry.path) file.2 entry) →
      Succeeds t Choice.Healthy (manifest.forM write)
        (fun r s' => r = .ok () ∧ s'.TreeStored k digest manifest) s := by
    intro write hwrite
    refine succeeds_forM (fun before after s' => before ++ after = manifest ∧
      s'.TreeStored k digest before) ?_ (fun s₁ hs₁ => ⟨rfl, hs₁.2⟩)
      ⟨rfl, fun entry hentry => by cases hentry⟩
    rintro before entry after s₁ ⟨hsplit, hbefore⟩
    obtain ⟨file, hfile, hintact⟩ := hsupplied entry (hsplit ▸ by simp)
    rw [hwrite entry file hfile]
    refine Succeeds.mono ?_ (succeeds_writeOne hintact)
    rintro r s₂ ⟨rfl, hstored, hothers⟩
    refine ⟨by simpa using hsplit, fun e he => ?_⟩
    rcases List.mem_append.mp he with he | he
    · -- the paths of a manifest differ, so what was written before is still there
      have hne : ObjectKey.revision k digest e.path ≠ .revision k digest entry.path := by
        have hnodup := htrusted.nodup
        rw [← hsplit, List.map_append, List.map_cons] at hnodup
        intro heq
        have hpath : e.path = entry.path := by injection heq
        exact List.disjoint_of_nodup_append hnodup (List.mem_map_of_mem he)
          (hpath ▸ List.mem_cons_self)
      obtain ⟨content, hcontent, hintact⟩ := hbefore e he
      exact ⟨content, (hothers _ hne).trans hcontent, hintact⟩
    · exact List.mem_singleton.mp he ▸ hstored
  refine Succeeds.mono ?_ (hloop _ fun entry file hfile => by simp only [hfile])
  rintro r s₁ ⟨rfl, htree⟩
  exact succeeds_verifyTree hhex htree

/-- **Writing a revision repairs**: from every state of the storage and whatever the backend does,
only the manifest's keys change and what the backend itself parks, what holds its recorded content
is left alone, a stored tree is not touched at all, and when the call returns the tree is stored.
A backend that does not fail lets every later call return. -/
theorem writeRevision_repairs {files : SourceFiles} (hhex : isHexDigest digest = true)
    (hmanifest : validateManifest (.arr (manifest.map ManifestEntry.toJson)) (some digest) = .ok ())
    (hsource : Supplies files manifest) :
    (∀ s₀ prog s, Reach t (writeRevision k digest files manifest) s₀ prog s →
      Repairs k digest manifest s₀ s ∧
        (prog = .done (.ok ()) → s.TreeStored k digest manifest)) ∧
    (∀ s choices, (∀ i, (choices i).Healthy) →
      ∃ s', (writeRevision k digest files manifest).runWith t choices s = some (.ok (), s')) := by
  refine ⟨fun s₀ prog s hreach => ⟨?_, ?_⟩, fun s choices hhealthy => ?_⟩
  · exact hreach.invariant (mends_writeRevision .refl) .refl
  · rintro rfl
    exact (hreach.ends (mends_writeRevision .refl)).2 rfl
  · obtain ⟨r, s', hrun, rfl⟩ :=
      (succeeds_writeRevision (s := s) hhex hmanifest hsource).runWith hhealthy
    exact ⟨s', hrun⟩

end Repair

/-- Nothing is there yet. -/
def vacantWorld : World where
  projects := .startingAt 1
  revisions := .startingAt 1
  files := .startingAt 1
  scripts := .startingAt 1
  jobs := .startingAt 1
  objects _ := none
  locks _ := none
  rowLocks _ := none
  deleting _ := none
  deletion _ := .empty
  now := 0
  record := ⟨[], false⟩

/-- Other bytes are where `a.py` belongs; after a write its manifest is there. -/
theorem writeRevision_repairs_a_py :
    let digest := py "4b60693728c5583063854db9944e454be43d0198fc30a7f614b3afdd58adaf26"
    let start := { vacantWorld with
      objects := Function.update (fun _ => none) (.revision 0 digest (py "a.py")) (some [1, 2]) }
    ∃ s', (@writeRevision asciiUnicode (tableHashing exampleTable) 0 digest
        (oneFile (py "a.py")) [oneEntry (py "a.py")]).runWith 0 (fun _ => .proceed) start =
      some (.ok (), s') ∧
        @World.TreeStored (tableHashing exampleTable) s' 0 digest [oneEntry (py "a.py")] := by
  intro digest start
  obtain ⟨hrepairs, hends⟩ := @writeRevision_repairs asciiUnicode (tableHashing exampleTable) 0 0
    digest [oneEntry (py "a.py")] (oneFile (py "a.py")) (by decide) (by decide +kernel)
    ⟨[(py "a.py", [120])], by decide +kernel,
      List.forall_mem_singleton.mpr ⟨(py "a.py", [120]), by decide, by decide +kernel⟩⟩
  obtain ⟨s', hrun⟩ := hends start (fun _ => .proceed) fun _ => .inl rfl
  exact ⟨s', hrun, (hrepairs start _ s' (.of_runWith .start hrun)).2 rfl⟩

end NetBoxScripts
