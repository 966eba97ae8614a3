import NetBoxScripts.Services.Store
import NetBoxScripts.Storage.StoredText

/-!
# How the store raises

Whatever happens to the rows and the objects meanwhile, writing and verifying a tree
(`storage/store.py`) raises the failures of a storage or of a corruption, and no other.

## Main definitions

* `Expected`: the failures that a caller is told to expect
* `RaisesOnly`: a program of the store raises no other

## Main results

* `verifyRevisionTree_raises`, `writeRevision_raises`: verifying and writing a tree raise no other
-/

namespace NetBoxScripts

namespace Vanishing

/-- A storage or a corruption failure, or a row that is reported vanished; a `ValueError` only where
there is no digest. -/
def Expected (digestless : Prop) : Failure → Prop
  | .storage | .corruptTree _ | .manifest (.revisionCorrupt ..) | .counterMismatch
  | .unsafePath (.unsafePath _) | .projectVanished | .revisionVanished => True
  | .valueError => digestless
  | _ => False

theorem Expected.of_false {digestless : Prop} {e : Failure} (h : Expected False e) :
    Expected digestless e := by
  cases e with
  | valueError => exact absurd h id
  | manifest failure =>
    cases failure with
    | revisionCorrupt => trivial
    | unicodeEncodeError => exact absurd h id
  | unsafePath failure =>
    cases failure with
    | unsafePath => trivial
    | unicodeEncodeError => exact absurd h id
  | storage => trivial
  | corruptTree => trivial
  | counterMismatch => trivial
  | projectVanished => trivial
  | revisionVanished => trivial
  | snapshot => exact absurd h id
  | activationRefused => exact absurd h id
  | doesNotExist => exact absurd h id
  | integrity => exact absurd h id
  | dataError => exact absurd h id
  | validation => exact absurd h id
  | notClaimable => exact absurd h id
  | escaped => exact absurd h id
  | jobFailed => exact absurd h id

/-- Anyone may change anything. -/
def Anything : Changes World := fun _ _ _ => True

/-- Whatever anyone does, the program raises only what is expected. -/
def RaisesOnly {α : Type} (prog : Service α) : Prop :=
  ∀ t s, wp Anything t (fun _ _ => True) prog (fun r _ => ∀ e, r = .error e → Expected False e) s

section Raises

variable {α β : Type} {prog : Service α} {f : α → Service β}

/-- What anyone may change makes no difference to what a program of the store raises. -/
theorem wp_anything {t : ThreadId} {p : Except Failure α → Prop} {s s' : World}
    (h : wp Anything t (fun _ _ => True) prog (fun r _ => p r) s) :
    wp Anything t (fun _ _ => True) prog (fun r _ => p r) s' := by
  cases prog with
  | done result => exact h
  | act step next =>
    -- before the first step others may change any state into any other
    intro s₁ _
    exact h s₁ (.single (Nat.succ_ne_self t) trivial)

theorem raisesOnly_pure (a : α) : RaisesOnly (pure a : Service α) := fun _ _ _ => nofun

theorem raisesOnly_raise {failure : Failure} (h : Expected False failure) :
    RaisesOnly (.raise failure : Service α) := by
  intro t s e heq
  exact Except.error.inj heq ▸ h

theorem raisesOnly_bind (hprog : RaisesOnly prog) (hf : ∀ a, RaisesOnly (f a)) :
    RaisesOnly (prog >>= f) := by
  intro t s
  rw [wp_bind]
  refine wp_mono (fun r s' hr => ?_) (hprog t s)
  cases r with
  | ok a => exact hf a t s'
  | error failure =>
    intro e heq
    exact hr e (congrArg Except.error (Except.error.inj heq))

theorem raisesOnly_attempt {f : Except Failure α → Service β} (hprog : RaisesOnly prog)
    (hok : ∀ a, RaisesOnly (f (.ok a)))
    (herror : ∀ e, Expected False e → RaisesOnly (f (.error e))) :
    RaisesOnly (prog.attempt >>= f) := by
  intro t s
  rw [wp_bind, wp_attempt]
  refine wp_mono (fun r s' hr => ?_) (hprog t s)
  cases r with
  | ok a => exact hok a t s'
  | error failure => exact herror failure (hr failure rfl) t s'

theorem raisesOnly_stmt {step : ThreadId → Choice → World → Option (Except Failure α × World)}
    (h : ∀ t c s e s', step t c s = some (.error e, s') → Expected False e) :
    RaisesOnly (.stmt step) := by
  intro t s s' _ c r s'' hstep
  refine ⟨trivial, ?_⟩
  rintro e rfl
  exact h t c s' e s'' hstep

theorem raisesOnly_foldlM {γ : Type} {l : List γ} {body : α → γ → Service α}
    (h : ∀ a c, RaisesOnly (body a c)) (init : α) : RaisesOnly (l.foldlM body init) := by
  induction l generalizing init with
  | nil => exact raisesOnly_pure init
  | cons c l ih =>
    rw [List.foldlM_cons]
    exact raisesOnly_bind (h init c) ih

theorem raisesOnly_storageExists {key : ObjectKey} : RaisesOnly (storageExists key) := by
  refine raisesOnly_stmt fun t c s e s' h => ?_
  cases c <;> cases h
  trivial

theorem raisesOnly_storageSize {key : ObjectKey} : RaisesOnly (storageSize key) := by
  refine raisesOnly_stmt fun t c s e s' h => ?_
  cases c <;> cases h
  trivial

theorem raisesOnly_storageOpen {key : ObjectKey} : RaisesOnly (storageOpen key) := by
  refine raisesOnly_stmt fun t c s e s' h => ?_
  cases c <;> cases h
  trivial

theorem raisesOnly_storageDelete {key : ObjectKey} : RaisesOnly (storageDelete key) := by
  refine raisesOnly_stmt fun t c s e s' h => ?_
  cases c <;> cases h
  all_goals trivial

theorem raisesOnly_storageSave {key : ObjectKey} {content : Bytes} :
    RaisesOnly (storageSave key content) := by
  refine raisesOnly_stmt fun t c s e s' h => ?_
  split at h
  · cases h
    trivial
  · split_ifs at h
    cases h
  · split_ifs at h
    cases h
    trivial
  · split_ifs at h
    split at h
    · cases h
      trivial
    · cases h
      trivial
    · cases h

section Store

variable [Unicode] [Hashing] {manifest : List ManifestEntry} {digest : PyStr} {k : StorageKey}
  {key : ObjectKey} {entry : ManifestEntry} {files : SourceFiles}

omit [Unicode] in
theorem raisesOnly_readVerified : RaisesOnly (readVerified key entry) := by
  refine raisesOnly_bind raisesOnly_storageSize fun size => ?_
  split
  · exact raisesOnly_raise trivial
  · split_ifs
    · exact raisesOnly_raise trivial
    · refine raisesOnly_bind raisesOnly_storageOpen fun content => ?_
      split
      · exact raisesOnly_raise trivial
      · dsimp only
        split_ifs
        · exact raisesOnly_raise trivial
        · exact raisesOnly_raise trivial
        · exact raisesOnly_pure _

omit [Unicode] in
theorem raisesOnly_verifyEntry : RaisesOnly (verifyEntry key entry) := by
  refine raisesOnly_attempt raisesOnly_readVerified (fun _ => raisesOnly_pure _) fun e he => ?_
  split
  · exact raisesOnly_pure _
  · exact raisesOnly_pure _
  · next heq =>
    cases heq
    exact raisesOnly_raise he

omit [Unicode] in
theorem raisesOnly_saveOne {content : Bytes} : RaisesOnly (saveOne key content entry) := by
  refine raisesOnly_bind raisesOnly_storageSave fun stored => ?_
  split_ifs
  · exact raisesOnly_pure _
  -- the copy under another name is deleted; whether it was is logged only
  · have hverify : RaisesOnly (do
        let reasons ← verifyEntry key entry
        if reasons = [] then pure () else .raise .storage : Service Unit) := by
      refine raisesOnly_bind raisesOnly_verifyEntry fun reasons => ?_
      split_ifs
      · exact raisesOnly_pure _
      · exact raisesOnly_raise trivial
    exact raisesOnly_attempt raisesOnly_storageDelete (fun _ => hverify) fun _ _ => hverify

omit [Unicode] in
theorem raisesOnly_writeOne {content : Bytes} : RaisesOnly (writeOne key content entry) := by
  refine raisesOnly_bind raisesOnly_storageExists fun taken => ?_
  split_ifs
  · refine raisesOnly_bind raisesOnly_verifyEntry fun reasons => ?_
    split_ifs
    · exact raisesOnly_pure _
    · exact raisesOnly_bind raisesOnly_storageDelete fun _ => raisesOnly_saveOne
  · exact raisesOnly_saveOne

omit [Unicode] [Hashing] in
theorem raisesOnly_revisionPrefix : RaisesOnly (revisionPrefix digest) := by
  unfold revisionPrefix
  split_ifs
  · exact raisesOnly_pure _
  · exact raisesOnly_raise trivial

omit [Unicode] in
theorem raisesOnly_verifyTree : RaisesOnly (verifyTree k digest manifest) := by
  refine raisesOnly_bind raisesOnly_revisionPrefix fun _ => ?_
  refine raisesOnly_bind (raisesOnly_foldlM (fun reasons entry =>
    raisesOnly_bind raisesOnly_verifyEntry fun _ => raisesOnly_pure _) _) fun reasons => ?_
  split_ifs
  · exact raisesOnly_raise trivial
  · exact raisesOnly_raise trivial
  · exact raisesOnly_pure _

/-- A manifest without surrogates is accepted or corrupt. -/
theorem validateManifest_ne (laws : UnicodeLaws) (h : ∀ entry ∈ manifest, Plain entry.path)
    {digest : Option PyStr} :
    validateManifest (.arr (manifest.map ManifestEntry.toJson)) digest ≠
      .error .unicodeEncodeError := by
  -- each field of an entry has the type that is asked for
  have hentry : ∀ entry : ManifestEntry, Plain entry.path → ∀ index paths,
      ∃ checked, validateEntry index entry.toJson paths = .ok checked := by
    intro entry hplain index paths
    have hpath := laws.normalizeSourcePath_ne_unicodeEncodeError fun c hc => (hplain c hc).1
    have hget := entry.get?_path_toJson
    have hget' := entry.get?_size_toJson
    have hget'' := entry.get?_sha256_toJson
    rw [ManifestEntry.toJson] at hget hget' hget'' ⊢
    simp only [validateEntry, hget, hget', hget'', Json.str?]
    split
    · exact ⟨_, rfl⟩
    · next heq => exact absurd heq hpath
    · split_ifs
      all_goals exact ⟨_, rfl⟩
  have hentries : ∀ index paths, ∃ checked,
      validateEntries index (manifest.map ManifestEntry.toJson) paths = .ok checked := by
    induction manifest with
    | nil => exact fun _ _ => ⟨_, rfl⟩
    | cons entry manifest ih =>
      rw [List.forall_mem_cons] at h
      intro index paths
      obtain ⟨⟨reasons, paths₁⟩, hfirst⟩ := hentry entry h.1 index paths
      obtain ⟨⟨rest, paths₂⟩, hrest⟩ := ih h.2 (index + 1) paths₁
      exact ⟨(reasons ++ rest, paths₂), by
        rw [List.map_cons, validateEntries, hfirst]
        show (validateEntries (index + 1) _ paths₁ >>= _) = _
        rw [hrest]
        rfl⟩
  obtain ⟨⟨reasons, paths⟩, hchecked⟩ := hentries 0 []
  intro heq
  rw [validateManifest, hchecked] at heq
  change ite _ _ _ = _ at heq
  split_ifs at heq
  all_goals cases heq

theorem raisesOnly_requireManifest (laws : UnicodeLaws)
    (h : ∀ entry ∈ manifest, Plain entry.path) : RaisesOnly (requireManifest manifest digest) := by
  unfold requireManifest
  cases hresult : validateManifest (.arr (manifest.map ManifestEntry.toJson)) (some digest) with
  | ok u => exact raisesOnly_pure _
  | error failure =>
    cases failure with
    | revisionCorrupt message reasons => exact raisesOnly_raise trivial
    | unicodeEncodeError => exact absurd hresult (validateManifest_ne laws h)

/-- **Verifying a stored tree** raises only what is expected. -/
theorem verifyRevisionTree_raises (laws : UnicodeLaws)
    (h : ∀ entry ∈ manifest, Plain entry.path) :
    RaisesOnly (verifyRevisionTree k digest manifest) :=
  raisesOnly_bind (raisesOnly_requireManifest laws h) fun _ => raisesOnly_verifyTree

/-- **Writing a tree** raises only what is expected. -/
theorem writeRevision_raises (laws : UnicodeLaws) (hfiles : ∀ file ∈ files.items, Plain file.1)
    (h : ∀ entry ∈ manifest, Plain entry.path) :
    RaisesOnly (writeRevision k digest files manifest) := by
  -- the first path that is refused raises; none fails to encode
  have hsource : ∀ items source : List (PyStr × Bytes), (∀ file ∈ items, Plain file.1) →
      items.foldlM (fun source file => do
        let canonical ← normalizeSourcePath file.1
        if canonical ∈ source.map Prod.fst then
          refuse file.1 .duplicatePath
            (py "Multiple source files resolve to the path \"" ++ canonical ++ py "\".")
        else pure (source ++ [(canonical, file.2)])) source ≠ .error .unicodeEncodeError := by
    intro items
    induction items with
    | nil => exact fun _ _ => nofun
    | cons file items ih =>
      intro source hplain heq
      rw [List.forall_mem_cons] at hplain
      rw [List.foldlM_cons] at heq
      have hpath := laws.normalizeSourcePath_ne_unicodeEncodeError fun c hc => (hplain.1 c hc).1
      cases hcanonical : normalizeSourcePath file.1 with
      | error failure =>
        rw [hcanonical] at heq hpath
        exact hpath (by cases heq; rfl)
      | ok canonical =>
        rw [hcanonical] at heq
        by_cases hmem : canonical ∈ source.map Prod.fst
        · simp [hmem, refuse, bind, Except.bind] at heq
        · refine ih (source ++ [(canonical, file.2)]) hplain.2 ?_
          simpa [hmem, bind, Except.bind, pure, Except.pure] using heq
  refine raisesOnly_bind (raisesOnly_requireManifest laws h) fun _ => ?_
  refine raisesOnly_bind raisesOnly_revisionPrefix fun _ => ?_
  refine raisesOnly_bind ?_ fun source => ?_
  · cases hcanonical : canonicalSource files with
    | ok source => exact raisesOnly_pure _
    | error failure =>
      cases failure with
      | unsafePath error => exact raisesOnly_raise trivial
      | unicodeEncodeError => exact absurd hcanonical (hsource files.items [] hfiles)
  · refine raisesOnly_bind ?_ fun _ => raisesOnly_verifyTree
    rw [Prog.forM_eq_foldlM]
    refine raisesOnly_foldlM (fun _ entry => ?_) _
    split
    · exact raisesOnly_raise trivial
    · exact raisesOnly_writeOne

end Store

end Raises

end Vanishing

end NetBoxScripts
